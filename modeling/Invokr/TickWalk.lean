import Invokr.CreateWalk

namespace Invokr

open TxLib

variable {env : Setup} {g : Guard (service env)} {req : Request env} {t : Nat} {now : Int}
  {H : List (Entry Pg) → Prop} {K : Rows Pg → Prop} {Q : Session Pg → Prop} {w₀ : World Pg}

/-- The job is there, as it was but for its status. -/
def HasJob (k : Key) (j : Job) (D : Rows Pg) : Prop := ∃ j' : Job, D .jobs k = some j' ∧ SameJob j j'

theorem lasting_hasJob (k : Key) (j : Job) : Lasting (HasJob k j) := lasting_job fun _ _ same h => h.trans same

theorem NewExecution.sameJob {kj k : Key} {j j' : Job} {e : Execution} (h : NewExecution kj j k e) (same : SameJob j j') :
    NewExecution kj j' k e := by
  obtain ⟨_, hep, hty, _⟩ := same.columns
  exact ⟨h.executionId, h.job, by rw [hep, h.endpoint], by rw [hty, h.endpointType], h.keyed, h.waiting,
    h.attemptCount, h.completedAt⟩

theorem Twin.sameJob {j j' : Job} {e : Execution} (h : Twin j e) (same : SameJob j j') : Twin j' e := by
  obtain ⟨_, hep, hty, _, _, hkey, hin, _⟩ := same.columns
  exact ⟨h.endpoint.trans hep.symm, h.endpointType.trans hty.symm, h.idempotencyKey.trans hkey.symm, h.input.trans hin.symm⟩

theorem Inserted.frame {tb : Table} {k : Key} {r : tb.Row} {s : Session Pg} {w : World Pg} (h : Inserted tb k r s)
    (sound : Sound w) (hs : w.sessions t = some s) {tbs : List Table} (hm : tb ∉ tbs) :
    Frame w.rows (s.visible w.rows) tbs := by
  intro tb' ht
  exact sound.visible_quiet hs (quiet_of_none (h.2.2 tb' fun he => hm (he ▸ ht)))

theorem inWindow_same {j j' : Job} (h : SameJob j j') : Jobs.inWindow now j' = Jobs.inWindow now j := by
  have hj := h.1
  rw [← hj]
  rfl

theorem Fired.same {j j' : Job} {e : Execution} (h : Fired now j e) (same : SameJob j j') : Fired now j' e := by
  obtain ⟨hid, _, _, htr, _⟩ := same.columns
  refine ⟨htr.trans h.cron, ?_, h.createdAt, h.runAt, by rw [h.key, hid]⟩
  rw [← h.window]
  exact inWindow_same same

theorem does_commit_started {ok : Unit → World Pg → Prop} {err : DbError → World Pg → Prop} (closed : Closed H)
    (hK : Lasting K) (hreq : isWork req = false) (hw : Open t now H K Started w₀)
    (herr : ∀ x w w' e, Here g req t H K w e .commit → e.fault = true → Idle t H K w' → err x w')
    (hok : ∀ w', Idle t H K w' → ok () w') : Does g req t ok err (commitTx : Try Pg DbError Unit) w₀ := by
  refine does_commit hK hreq (ticking_of_started hw) hw (fun s hs => hs.1) ?_ ?_ ?_
  · intro w s e facts hs
    exact (untouched_of_started hs).commit facts.sound facts.session
  · intro x w w' e here hf hi
    exact herr x w w' e here hf (hi.mono (fun _ => closed.aborted) fun _ h => h)
  · intro w w' s e _ hs hi
    exact hok w' (hi.mono (fun _ => closed.committed (untouched_of_started hs)) fun _ h => h.1)

section tick

variable {jobName : String}

/-- What is left to do after the statements of a tick. -/
def TickEnds (g : Guard (service env)) (jobName : String) (t : Nat) (w : World Pg) : Prop :=
  Does g (.tick jobName) t (fun _ _ => True) (fun _ _ => True) (commitTx : Try Pg DbError Unit) w

def TickFails (g : Guard (service env)) (jobName : String) (t : Nat) (w : World Pg) : Prop :=
  Runs g (.tick jobName) t (fun _ _ => True) rollbackTx w

variable {D₀ : Rows Pg}

/-- The history of a tick whose transaction has begun on the rows `D₀`. -/
def TickBegun (D₀ : Rows Pg) (l : List (Entry Pg)) : Prop := l = [.begin D₀]

/-- The job is there and the tick began on rows from which these have come. -/
def TickKnows (D₀ : Rows Pg) (k : Key) (j : Job) (D : Rows Pg) : Prop := HasJob k j D ∧ Later D₀ D

theorem lasting_later (D₀ : Rows Pg) : Lasting (Later D₀) := fun _ _ hl h => h.trans hl

theorem lasting_tickKnows (k : Key) (j : Job) : Lasting (TickKnows D₀ k j) := (lasting_hasJob k j).and (lasting_later D₀)

theorem tick_fails {w : World Pg} (hK : Lasting K) (ho : Open t now (TickBegun D₀) K Q w) : TickFails g jobName t w :=
  runs_rollback hK rfl ho fun _ _ => trivial

theorem tick_nothing {w : World Pg} (hK : Lasting K) (ho : Open t now (TickBegun D₀) K Started w) :
    TickEnds g jobName t w :=
  does_commit_started closed_true hK rfl (ho.mono (fun _ _ => trivial) (fun _ h => h) fun _ _ h => h)
    (fun _ _ _ _ _ _ _ => trivial) fun _ _ => trivial

theorem ticking_inserted {kj ke : Key} {j j₁ : Job} {e : Execution} {w : World Pg} (new : NewExecution kj j₁ ke e)
    (fired : Fired now j e) (active : ∀ j₀ : Job, D₀ .jobs kj = some j₀ → j₀.status = .active)
    (ho : Open t now (TickBegun D₀) (TickKnows D₀ kj j) (Inserted .executions ke e) w) :
    @Ticking env (.tick jobName) t w := by
  obtain ⟨s, l, hv, hnow, hl, ⟨⟨j', hj', same'⟩, _⟩, hs⟩ := ho
  intro s' l' hv' _ ke' x hx
  rw [hv] at hv'
  cases hv'
  rcases hs.2.1.2 ke' x hx with hn | rfl
  · exact Or.inl hn
  · rw [hs.2.1.1] at hx
    cases hx
    have begun : Entry.begin (M := Pg) D₀ ∈ current l := by
      rw [show l = [.begin D₀] from hl]
      exact List.mem_singleton.mpr rfl
    exact Or.inr ⟨e, j', D₀, rfl, rfl, new.job ▸ hj', hnow ▸ fired.same same', begun, new.job ▸ active⟩

/-- The command's execution is one of its job, as the job is when the tick commits. -/
theorem tick_inserted {kj ke : Key} {j j₁ : Job} {e : Execution} {w : World Pg} (same : SameJob j j₁)
    (new : NewExecution kj j₁ ke e) (fired : Fired now j e)
    (active : ∀ j₀ : Job, D₀ .jobs kj = some j₀ → j₀.status = .active)
    (ho : Open t now (TickBegun D₀) (TickKnows D₀ kj j) (Inserted .executions ke e) w) : TickEnds g jobName t w := by
  refine does_commit (lasting_tickKnows kj j) rfl (ticking_inserted new fired active ho) ho (fun s hs => hs.1) ?_
    (fun _ _ _ _ _ _ _ => trivial) fun _ _ _ _ _ _ _ => trivial
  intro w₁ s x facts hs
  obtain ⟨⟨j', hj', same'⟩, _⟩ := facts.known
  obtain ⟨unused, executions⟩ := facts.sound.visible_only facts.session hs.2.1
  obtain ⟨_, hep, hty, _⟩ := same.columns
  obtain ⟨_, hep', hty', _⟩ := same'.columns
  refine .ticked hj' (fired.same same') unused ?_ executions (hs.frame facts.sound facts.session (by decide))
  exact ⟨new.executionId, new.job, by rw [new.endpoint, hep, hep'], by rw [new.endpointType, hty, hty'], new.keyed, new.waiting,
    new.attemptCount, new.completedAt⟩

theorem does_runCronCommand {c : CronCommand} {j : Job} {w : World Pg} (cron : j.triggerType = .cron)
    (hid : j.jobId = c.jobId) (ho : Open t now (TickBegun D₀) (TickKnows D₀ ⟨c.schemaName, c.jobId⟩ j) Started w) :
    Does g (.tick jobName) t (fun _ w' => TickEnds g jobName t w') (fun _ w' => TickFails g jobName t w')
      (Jobs.runCronCommand c) w := by
  have hK : Lasting (TickKnows D₀ ⟨c.schemaName, c.jobId⟩ j) := lasting_tickKnows ⟨c.schemaName, c.jobId⟩ j
  refine tries_bind (tries_query hK.stable (free_pre rfl trivial) ho (fun _ _ _ _ _ _ _ _ h => tick_fails hK h) ?_)
  intro w₁ w₂ s e facts _ hs ho₁
  have ho₂ : Open t now (TickBegun D₀) (TickKnows D₀ ⟨c.schemaName, c.jobId⟩ j) Started w₂ :=
    ho₁.mono (fun _ h => h) (fun _ h => h ▸ facts.known) fun s' _ h => h ▸ hs
  rw [visible_started hs]
  split
  next => exact tries_pure (tick_nothing hK ho₂)
  next j₁ hj₁ =>
    split
    next => exact tries_pure (tick_nothing hK ho₂)
    next ep _ =>
      split
      next hlive =>
        split
        next => exact tries_throw (tick_fails hK ho₂)
        next maxAttempts _ =>
          obtain ⟨⟨j', hj', same⟩, later⟩ := facts.known
          have hjj : j₁ = j' := Option.some.inj ((show w₁.rows .jobs _ = some j₁ from hj₁).symm.trans hj')
          subst hjj
          simp only [Bool.and_eq_true, decide_eq_true_eq] at hlive
          have active : ∀ j₀ : Job, D₀ .jobs ⟨c.schemaName, c.jobId⟩ = some j₀ → j₀.status = .active := by
            intro j₀ hj₀
            obtain ⟨j₂, hj₂, same₂⟩ := later.job _ j₀ hj₀
            obtain rfl : j₁ = j₂ := Option.some.inj (hj'.symm.trans hj₂)
            cases hst : j₀.status with
            | active => rfl
            | retired =>
              rw [same₂.2 hst] at hlive
              cases hlive.1
          refine tries_bind (tries_insert hK.stable rfl (free_pre rfl trivial) ho₂
            (fun _ _ _ _ _ _ _ _ h => tick_fails hK h) ?_ ?_)
          · intro w₃ w₄ s₃ e₃ facts₃ _ hs₃ _ _ ho₃
            exact tries_pure (tick_nothing hK
              (ho₃.mono (fun _ h => h) (fun _ h => h ▸ facts₃.known) fun s' _ h => h ▸ hs₃))
          · intro w₃ w₄ s₃ e₃ facts₃ _ hs₃ hn _ _ ho₃
            have fired : Fired now j (Jobs.newExecution e₃.fresh now j₁ .queued (Jobs.cronIdempotencyKey j₁.jobId now) j₁.input
                now maxAttempts) := by
              refine ⟨cron, (inWindow_same same).symm.trans hlive.2, rfl, rfl, ?_⟩
              rw [← same.columns.1]
              rfl
            refine tries_pure (tick_inserted same ?_ fired active
              (ho₃.mono (fun _ h => h) (fun _ h => h ▸ facts₃.known) fun s' _ h => h ▸ Inserted.write hs₃ hn))
            refine ⟨rfl, ?_, rfl, rfl, Option.some_ne_none _, rfl, rfl, rfl⟩
            simp only [jobKey, Jobs.newExecution]
            rw [same.columns.1, hid]
      next => exact tries_pure (tick_nothing hK ho₂)

theorem does_tick (hw : Idle t (fun l => l = []) (fun _ => True) w₀) :
    Does g (.tick jobName) t (fun _ _ => True) (fun _ _ => True) (cronTick jobName) w₀ := by
  refine tries_transaction (tries_begin lasting_true.stable (free_pre rfl trivial) hw (fun _ _ _ _ _ _ _ => trivial) ?_)
  intro now w₀ w e here ho
  have hopen : Open t now (TickBegun w₀.rows) (Later w₀.rows) Started w :=
    ho.mono (fun l ⟨l₀, h, he⟩ => by rw [he, h]; rfl) (fun _ h => h ▸ later_refl w₀.rows) fun _ _ h => h
  refine tries_bind (tries_query (lasting_later _).stable (free_pre rfl trivial) hopen
    (fun _ _ _ _ _ _ _ _ h => tick_fails (lasting_later _) h) ?_)
  intro w₁ w₂ s e facts _ hs ho
  rw [visible_started hs]
  split
  next =>
    exact tries_pure (tick_nothing (lasting_later w₀.rows)
      (ho.mono (fun _ h => h) (fun _ h => h ▸ facts.known) fun s' _ h => h ▸ hs))
  next entry hentry =>
    obtain ⟨j, hj, hcron⟩ := facts.inv.linked.entry _ entry hentry
    have ho' : Open t now (TickBegun w₀.rows) (TickKnows w₀.rows ⟨entry.command.schemaName, entry.command.jobId⟩ j)
        Started w₂ :=
      ho.mono (fun _ h => h) (fun _ h => h ▸ ⟨⟨j, hj, sameJob_refl j⟩, facts.known⟩) fun s' _ h => h ▸ hs
    exact does_runCronCommand hcron (facts.inv.linked.job _ j hj).1 ho'

theorem runs_tick {w : World Pg} (h : w.view t = (none, [])) :
    Runs g (.tick jobName) t ((base g).post (.tick jobName) t) ((service env).program (.tick jobName)) w := by
  refine holds_run (Tries.mono (does_tick ⟨[], h, rfl, trivial⟩) (fun r w' _ => ?_) fun x w' _ => ?_)
  · exact Prog.holds_pure.mpr ⟨trivial, trivial⟩
  · exact Prog.holds_pure.mpr ⟨trivial, trivial⟩

end tick

end Invokr
