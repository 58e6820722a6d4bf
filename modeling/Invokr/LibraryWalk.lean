import Invokr.UpdateWalk

namespace Invokr

open TxLib

variable {env : Setup} {g : Guard (service env)} {req : Request env} {t : Nat} {now : Int}
  {H : List (Entry Pg) → Prop} {K : Rows Pg → Prop} {w₀ : World Pg}

theorem official_atomic (h : Official g) : Atomic g := by
  intro req w t e hs hl _
  rw [h req hs] at hl
  cases hl

section provision

theorem does_provisionReaper {schemaName expression : String} {plain : env.tablePrefix = ""}
    (hw : Idle t (fun _ => True) (fun _ => True) w₀) :
    Does g (.provisionReaper schemaName expression plain) t (fun _ _ => True) (fun _ _ => True)
      (Workspaces.provisionReaper schemaName expression) w₀ := by
  refine does_scoped rfl (does_tx closed_true.begin lasting_true rfl hw (fun _ _ _ _ _ _ _ => trivial) fun now w hopen => tries_adapt ?_)
  have quit : ∀ {Q w}, Open t now (fun _ => True) (fun _ => True) Q w →
      Runs g (.provisionReaper schemaName expression plain) t (fun _ _ => True) rollbackTx w :=
    fun ho => runs_rollback lasting_true rfl ho fun _ _ => trivial
  refine tries_bind (does_insertFirst lasting_true rfl (by decide) hopen (fun _ _ _ _ _ _ _ _ h => quit h) ?_)
  intro id w₁ ho₁
  refine tries_bind (does_insertOne lasting_true (by decide) (covers_of_not_work rfl) ho₁
    (fun _ _ _ _ _ _ _ _ h => quit h) ?_)
  intro w₂ w₃ s e _ _ hs hn _ ho₃
  rw [← plain]
  refine does_register_ready (k := ⟨schemaName, e.fresh.val⟩) (j := Workspaces.reaperJob e.fresh now expression)
    lasting_true rfl (ho₃.mono (fun _ h => h) (fun _ _ => trivial) fun s' _ h => h ▸ hs.insertJob rfl hn) rfl
    (fun _ _ _ _ _ _ h => quit h) fun w₄ ho₄ => ?_
  refine does_commit lasting_true rfl trivial ho₄ (fun s h => h.1) ?_ (fun _ _ _ _ _ _ _ => trivial)
    fun _ _ _ _ _ _ _ => trivial
  intro w₅ s₅ e₅ facts hs₅
  exact hs₅.commit facts.sound facts.session rfl ⟨rfl, e.fresh.property, rfl, rfl, rfl, fun _ => rfl⟩ rfl rfl

theorem runs_provisionReaper {schemaName expression : String} {plain : env.tablePrefix = ""} {w : World Pg}
    (h : w.view t = (none, [])) : Runs g (.provisionReaper schemaName expression plain) t
      ((base g).post (.provisionReaper schemaName expression plain) t)
      ((service env).program (.provisionReaper schemaName expression plain)) w := by
  refine holds_run (Tries.mono (does_provisionReaper ⟨[], h, trivial, trivial⟩) (fun r w' _ => ?_) fun x w' _ => ?_)
  · exact Prog.holds_pure.mpr ⟨trivial, trivial⟩
  · exact Prog.holds_pure.mpr ⟨trivial, trivial⟩

end provision

/-- One `INSERT` that commits on its own. -/
theorem does_insertAlone {stmt : Statement} {tb : Table} {build : Uuid → Int → Key × tb.Row}
    {ok : tb.Row → World Pg → Prop} {err : DbError → World Pg → Prop} (closed : Closed H) (hK : Lasting K)
    (hreq : isWork req = false) (quiet : ∀ w, Ticking req t w) (hp : tb ≠ .cronJob) (hw : Idle t H K w₀)
    (commits : ∀ id now w s e, At g req t now H K w s e .commit → Inserted tb (build id now).1 (build id now).2 s →
      Commit g req now w.rows (s.visible w.rows))
    (herr : ∀ x w', Idle t H K w' → err x w')
    (hok : ∀ id now w w' s e, At g req t now H K w s e .commit → Inserted tb (build id now).1 (build id now).2 s →
      Idle t (fun l => ∃ l₀, H l₀ ∧ l = l₀ ++ [.commit s]) (fun D => K D ∧ D = s.visible w.rows) w' →
      ok (build id now).2 w') : Does g req t ok err (transaction id (insertOne stmt tb build)) w₀ := by
  have dropped : ∀ {w'}, Idle t (fun l => ∃ l₀, H l₀ ∧ l = l₀ ++ [.abort]) K w' → Idle t H K w' := fun hi =>
    hi.mono (fun _ => closed.aborted) fun _ h => h
  refine does_tx closed.begin hK hreq hw (fun x _ _ w' _ _ hi => herr x w' hi) fun now w hopen => ?_
  refine does_insertFirst hK hreq hp hopen ?_ fun id w₁ ho => ?_
  · intro x _ w₁ _ _ _ _ _ ho
    exact runs_rollback hK hreq ho fun w₂ hi => herr x w₂ (dropped hi)
  · refine does_commit hK hreq (quiet w₁) ho (fun s hs => hs.1) (fun w s e facts hs => commits id now w s e facts hs) ?_ ?_
    · intro x _ w₂ _ _ _ hi
      exact herr x w₂ (dropped hi)
    · intro w₂ w₃ s e facts hs hi
      exact hok id now w₂ w₃ s e facts hs hi

section create

variable {schemaName endpoint : String} {input : Json} {maxAttempts : Int} {trigger : JobTrigger} {key : Option String}

/-- A creation that fails has left nothing behind, if nothing is committed in parts. -/
def LeavesNothing (g : Guard (service env)) (l : List (Entry Pg)) : Prop := Atomic g → Silent l

theorem closed_leavesNothing : Closed (LeavesNothing g) where
  ext l e r h atomic := closed_silent.ext l e r (h atomic)
  begin l D h atomic := closed_silent.begin l D (h atomic)
  abort l h atomic := closed_silent.abort l (h atomic)
  commit l s hs h atomic := closed_silent.commit l s hs (h atomic)

theorem not_official (h : g.start (.libraryCreateJob schemaName endpoint input maxAttempts trigger key)) : ¬Official g :=
  fun official => by cases official _ h

/-- The two `INSERT`s of a one-shot job commit one after the other. -/
theorem does_libraryPair {p : Uuid → Int → Key × Job} {q : Job → Uuid → Int → Key × Execution}
    (hstart : g.start (.libraryCreateJob schemaName endpoint input maxAttempts trigger key))
    (h₁ : ∀ id now, Asked g (.libraryCreateJob schemaName endpoint input maxAttempts trigger key) (p id now).1 (p id now).2 ∧
      NewJob (p id now).1 (p id now).2 none ∧ (p id now).2.triggerType ≠ .cron)
    (h₂ : ∀ id now id' now', NewExecution (p id now).1 (p id now).2 (q (p id now).2 id' now').1
      (q (p id now).2 id' now').2 ∧ Twin (p id now).2 (q (p id now).2 id' now').2)
    (hw : Idle t (LeavesNothing g) (fun _ => True) w₀) :
    Does g (.libraryCreateJob schemaName endpoint input maxAttempts trigger key) t (fun _ _ => True)
      (fun _ w' => LeavesNothing g (w'.history t)) (do
        let job ← transaction id (insertOne .insertJob .jobs p)
        let exec ← transaction id (insertOne .insertExecution .executions (q job))
        return Jobs.result job exec) w₀ := by
  have half : ∀ {id now now' w s e}, At g (.libraryCreateJob schemaName endpoint input maxAttempts trigger key) t now'
      (LeavesNothing g) (fun _ => True) w s e .commit → Inserted .jobs (p id now).1 (p id now).2 s → ¬Atomic g := by
    intro id now now' w s e facts hs atomic
    exact atomic _ w t e hstart rfl facts.allowed ⟨s, _, _, facts.session, hs.1, hs.2.1.1, (h₁ id now).2.2⟩
  refine tries_bind (does_insertAlone closed_leavesNothing lasting_true rfl (fun _ => trivial) (by decide) hw ?_ ?_ ?_)
  · intro id now w s e facts hs
    obtain ⟨asked, job, once⟩ := h₁ id now
    obtain ⟨free, jobs⟩ := facts.sound.visible_only facts.session hs.2.1
    exact .jobAlone (half facts hs) (not_official hstart) free asked job once jobs
      (hs.frame facts.sound facts.session (by decide))
  · intro x w' hi
    exact idle_history hi
  · intro id now w w' s e facts hs hi
    have loose : ¬Atomic g := half facts hs
    have there : Idle t (LeavesNothing g) (HasJob (p id now).1 (p id now).2) w' := by
      refine hi.mono (fun _ _ atomic => (loose atomic).elim) fun D h => ⟨_, ?_, sameJob_refl _⟩
      rw [h.2]
      exact hs.2.1.visible
    refine tries_bind (does_insertAlone closed_leavesNothing (lasting_hasJob _ _) rfl (fun _ => trivial) (by decide)
      there ?_ ?_ ?_)
    · intro id' now' w₁ s₁ e₁ facts₁ hs₁
      obtain ⟨j', hj', same⟩ := facts₁.known
      obtain ⟨unused, executions⟩ := facts₁.sound.visible_only facts₁.session hs₁.2.1
      obtain ⟨new, twin⟩ := h₂ id now id' now'
      have once : j'.triggerType ≠ .cron := by
        obtain ⟨_, _, _, htrigger, _⟩ := same.columns
        rw [htrigger]
        exact (h₁ id now).2.2
      exact .executionAlone loose hj' once unused (new.sameJob same) (twin.sameJob same) executions
        (hs₁.frame facts₁.sound facts₁.session (by decide))
    · intro x w₁ hi₁
      exact idle_history hi₁
    · intro _ _ _ _ _ _ _ _ _
      exact tries_pure trivial

/-- The library inserts a CRON job and no entry for it. -/
theorem does_libraryCron {build : Uuid → Int → Key × Table.Row .jobs} {ok : Table.Row .jobs → World Pg → Prop}
    {err : DbError → World Pg → Prop}
    (hstart : g.start (.libraryCreateJob schemaName endpoint input maxAttempts trigger key))
    (h₁ : ∀ id now, Asked g (.libraryCreateJob schemaName endpoint input maxAttempts trigger key) (build id now).1
      (build id now).2 ∧ NewJob (build id now).1 (build id now).2 none ∧ (build id now).2.triggerType = .cron)
    (hw : Idle t (LeavesNothing g) (fun _ => True) w₀) (herr : ∀ x w', LeavesNothing g (w'.history t) → err x w')
    (hok : ∀ r w', ok r w') :
    Does g (.libraryCreateJob schemaName endpoint input maxAttempts trigger key) t ok err
      (transaction id (insertOne .insertJob .jobs build)) w₀ := by
  refine does_insertAlone closed_leavesNothing lasting_true rfl (fun _ => trivial) (by decide) hw ?_
    (fun x w' hi => herr x w' (idle_history hi)) fun id now _ w' _ _ _ _ _ => hok (build id now).2 w'
  intro id now w s e facts hs
  obtain ⟨asked, job, cron⟩ := h₁ id now
  obtain ⟨free, jobs⟩ := facts.sound.visible_only facts.session hs.2.1
  exact .cronAlone (not_official hstart) free asked job cron jobs (hs.frame facts.sound facts.session (by decide))

theorem does_libraryConnect {ok : DbContext → World Pg → Prop} {err : String → World Pg → Prop} (closed : Closed H)
    (hK : Lasting K) (hreq : isWork req = false) (hw : Idle t H K w₀) (herr : ∀ x w', Idle t H K w' → err x w')
    (hok : ∀ w', Idle t H K w' → ok ⟨schemaName, env.tablePrefix, false⟩ w') :
    Does g req t ok err (LibraryClient.connect env schemaName) w₀ :=
  tries_bind (tries_adapt (does_connect closed hK hreq hw (fun _ _ _ w' _ _ hi => herr _ w' hi) fun w' hi =>
    tries_pure (hok w' hi)))

theorem does_libraryCreateJob (hstart : g.start (.libraryCreateJob schemaName endpoint input maxAttempts trigger key))
    (hw : Idle t (LeavesNothing g) (fun _ => True) w₀) :
    Does g (.libraryCreateJob schemaName endpoint input maxAttempts trigger key) t (fun _ _ => True)
      (fun _ w' => LeavesNothing g (w'.history t))
      (LibraryClient.createJob env schemaName endpoint input maxAttempts trigger key) w₀ := by
  unfold LibraryClient.createJob
  refine tries_bind (does_libraryConnect closed_leavesNothing lasting_true rfl hw (fun _ _ hi => idle_history hi) ?_)
  intro w₁ hi₁
  refine tries_bind (tries_adapt ?_)
  unfold Endpoints.get
  rw [execute_alone rfl]
  refine does_read closed_leavesNothing lasting_true rfl hi₁ (fun _ _ _ _ _ _ _ hi => idle_history hi)
    fun w e now here => ⟨_, lasting_true, trivial, fun w₂ hi₂ => ?_⟩
  split
  next => exact tries_throw (idle_history hi₂)
  next ep _ =>
    cases trigger with
    | immediate =>
      refine tries_bind (tries_adapt (Tries.mono (does_libraryPair
        (p := fun id now => (⟨schemaName, id.val⟩,
          Jobs.newJob id now endpoint ep.endpointType .immediate (some (key.getD "")) (some input)))
        (q := fun job id now => (⟨schemaName, id.val⟩,
          Jobs.newExecution id now { job with endpoint := endpoint, endpointType := ep.endpointType } .queued
            (key.getD "") (some input) now maxAttempts)) hstart ?_ ?_ hi₂)
        (fun _ _ _ => tries_pure trivial) fun _ _ h => h))
      · exact fun id now => ⟨⟨rfl, rfl, Or.inr rfl⟩, ⟨rfl, id.property, rfl, rfl, rfl, fun _ => rfl⟩, fun h => by cases h⟩
      · exact fun _ _ _ _ => ⟨⟨rfl, rfl, rfl, rfl, Option.some_ne_none _, rfl, rfl, rfl⟩, ⟨rfl, rfl, rfl, rfl⟩⟩
    | delayed runAt =>
      refine tries_bind (tries_adapt (Tries.mono (does_libraryPair
        (p := fun id now => (⟨schemaName, id.val⟩,
          { Jobs.newJob id now endpoint ep.endpointType .delayed (some (key.getD "")) (some input) with
            runAt := some runAt }))
        (q := fun job id now => (⟨schemaName, id.val⟩,
          Jobs.newExecution id now { job with endpoint := endpoint, endpointType := ep.endpointType } .pending
            (key.getD "") (some input) runAt maxAttempts)) hstart ?_ ?_ hi₂)
        (fun _ _ _ => tries_pure trivial) fun _ _ h => h))
      · exact fun id now => ⟨⟨rfl, rfl, Or.inr rfl⟩, ⟨rfl, id.property, rfl, rfl, rfl, fun _ => rfl⟩, fun h => by cases h⟩
      · exact fun _ _ _ _ => ⟨⟨rfl, rfl, rfl, rfl, Option.some_ne_none _, rfl, rfl, rfl⟩, ⟨rfl, rfl, rfl, rfl⟩⟩
    | cron expression timezone startsAt endsAt firstRunAt =>
      refine tries_bind (tries_adapt ?_)
      unfold Jobs.createCron
      rw [execute_alone rfl]
      refine does_libraryCron hstart (fun id now => ?_) hi₂ (fun _ _ h => h) fun _ _ => tries_pure trivial
      exact ⟨⟨rfl, rfl, Or.inl rfl⟩, ⟨rfl, id.property, rfl, rfl, rfl, fun _ => rfl⟩, rfl⟩

theorem runs_libraryCreateJob {w : World Pg} (hstart : g.start (.libraryCreateJob schemaName endpoint input maxAttempts trigger key))
    (h : w.view t = (none, [])) : Runs g (.libraryCreateJob schemaName endpoint input maxAttempts trigger key) t
      ((base g).post (.libraryCreateJob schemaName endpoint input maxAttempts trigger key) t)
      ((service env).program (.libraryCreateJob schemaName endpoint input maxAttempts trigger key)) w := by
  have idle : Idle t (LeavesNothing g) (fun _ => True) w := ⟨[], h, fun _ _ hs => (by cases hs), trivial⟩
  refine holds_run (Tries.mono (does_libraryCreateJob hstart idle) (fun r w' _ => ?_) fun x w' hx => ?_)
  · exact Prog.holds_pure.mpr ⟨trivial, trivial⟩
  · exact Prog.holds_pure.mpr ⟨trivial, hx⟩

end create

section cancel

variable {schemaName jobId : String}

theorem does_libraryRetire {ok : Option (Table.Row .jobs) → World Pg → Prop} {err : DbError → World Pg → Prop}
    (hstart : g.start (.libraryCancelJob schemaName jobId)) (hw : Idle t (fun _ => True) (fun _ => True) w₀)
    (herr : ∀ x w', err x w') (hok : ∀ r w', Idle t (fun _ => True) (fun _ => True) w' → ok r w') :
    Does g (.libraryCancelJob schemaName jobId) t ok err (transaction id
      (updateOne .cancelJob .jobs ⟨schemaName, jobId⟩ Jobs.isActive Jobs.retirePatch)) w₀ := by
  have loose : ¬Official g := fun official => by cases official _ hstart
  refine does_tx closed_true.begin lasting_true rfl hw (fun x _ _ w' _ _ _ => herr x w') fun now w ho => ?_
  refine does_retire (R := fun s => Quiet (M := Pg) .executions s) (fun s s' hl h => h.locks hl)
    (fun s s' he h => h.frame he) lasting_true rfl
    (ho.mono (fun _ h => h) (fun _ h => h) fun s _ h => ⟨cancels_started h, each_started h⟩) ?_ ?_ ?_
  · intro x w' h
    exact runs_rollback lasting_true rfl h fun w'' _ => herr x w''
  · intro w' h
    refine does_commit lasting_true rfl trivial h (fun s hs => hs.1.1)
      (fun w s e facts hs => hs.1.commit facts.sound facts.session) (fun x _ w'' _ _ _ _ => herr x w'') ?_
    intro _ w'' _ _ _ _ hi
    exact hok none w'' (hi.mono (fun _ _ => trivial) fun _ _ => trivial)
  · intro j w' h
    refine does_commit lasting_true rfl trivial h (fun s hs => hs.1.1) ?_ (fun x _ w'' _ _ _ _ => herr x w'') ?_
    · intro w s e facts hs
      obtain ⟨⟨_, active, only, _, hat, hc⟩, he⟩ := hs
      obtain ⟨found, jobs⟩ := facts.sound.visible_only facts.session only
      refine .retiredAlone loose found ⟨active, rfl⟩ jobs fun tb hm => facts.sound.visible_quiet facts.session ?_
      simp only [List.mem_cons, List.not_mem_nil, or_false] at hm
      rcases hm with rfl | rfl | rfl
      · exact he
      · exact hat
      · exact hc
    · intro _ w'' _ _ _ _ hi
      exact hok _ w'' (hi.mono (fun _ _ => trivial) fun _ _ => trivial)

theorem does_unregisterPgCron (hstart : g.start (.libraryCancelJob schemaName jobId))
    (hw : Idle t (fun _ => True) (fun _ => True) w₀) :
    Does g (.libraryCancelJob schemaName jobId) t (fun _ _ => True) (fun _ _ => True)
      (LibraryClient.unregisterPgCron schemaName jobId) w₀ := by
  have loose : ¬Official g := fun official => by cases official _ hstart
  refine does_tx closed_true.begin lasting_true rfl hw (fun _ _ _ _ _ _ _ => trivial) fun now w ho => ?_
  have quit : ∀ {Q w}, Open t now (fun _ => True) (fun _ => True) Q w →
      Runs g (.libraryCancelJob schemaName jobId) t (fun _ _ => True) rollbackTx w :=
    fun h => runs_rollback lasting_true rfl h fun _ _ => trivial
  refine tries_bind (tries_query lasting_true.stable (free_pre rfl trivial) ho (fun _ _ _ _ _ _ _ _ h => quit h) ?_)
  intro w₁ w₂ s e facts _ hs ho₂
  have ho' : Open t now (fun _ => True) (fun _ => True) Started w₂ :=
    ho₂.mono (fun _ h => h) (fun _ _ => trivial) fun s' _ h => h ▸ hs
  have ends : ∀ {Q : Session Pg → Prop} {w}, Open t now (fun _ => True) (fun _ => True) Q w →
      (∀ s, Q s → s.aborted = false) → (∀ s, Q s → Quiet (M := Pg) .jobs s ∧ Quiet (M := Pg) .executions s ∧
        Quiet (M := Pg) .attempts s ∧ Each (M := Pg) .cronJob (fun _ _ n => n = none) s) →
      Does g (.libraryCancelJob schemaName jobId) t (fun _ _ => True) (fun _ _ => True) (commitTx : Try Pg DbError Unit) w := by
    intro Q w h live changes
    refine does_commit lasting_true rfl trivial h live ?_ (fun _ _ _ _ _ _ _ => trivial) fun _ _ _ _ _ _ _ => trivial
    intro w₃ s₃ e₃ facts₃ hs₃
    obtain ⟨hj, he, hat, hc⟩ := changes s₃ hs₃
    refine .unscheduled loose (fun k => facts₃.sound.visible_each facts₃.session hc k) fun tb hm =>
      facts₃.sound.visible_quiet facts₃.session ?_
    simp only [List.mem_cons, List.not_mem_nil, or_false] at hm
    rcases hm with rfl | rfl | rfl
    · exact hj
    · exact he
    · exact hat
  have idle : ∀ s, Started s → Quiet (M := Pg) .jobs s ∧ Quiet (M := Pg) .executions s ∧
      Quiet (M := Pg) .attempts s ∧ Each (M := Pg) .cronJob (fun _ _ n => n = none) s :=
    fun s h => ⟨each_started h, each_started h, each_started h, each_started h⟩
  simp only
  split
  next =>
    refine tries_bind (tries_delete lasting_true.stable (free_pre rfl trivial) ho' (fun _ _ _ _ _ _ _ _ h => quit h) ?_ ?_)
    · intro w₃ w₄ s₃ e₃ _ _ hs₃ _ ho₄
      exact tries_pure (ends (ho₄.mono (fun _ h => h) (fun _ _ => trivial) fun s' _ h => h ▸ hs₃) (fun s h => h.1) idle)
    · intro w₃ w₄ s₃ e₃ _ _ hs₃ ho₄
      refine tries_pure (ends (ho₄.mono (fun _ h => h) (fun _ _ => trivial) fun _ _ h => h) (fun s h => h ▸ hs₃.1) ?_)
      intro s h
      obtain ⟨hj, he, hat, hc⟩ := idle s₃ hs₃
      rw [h]
      exact ⟨hj.write_tbl (by decide), he.write_tbl (by decide), hat.write_tbl (by decide), hc.write (Or.inr rfl)⟩
  next => exact tries_throw (quit ho')

theorem does_libraryCancelJob (hstart : g.start (.libraryCancelJob schemaName jobId))
    (hw : Idle t (fun _ => True) (fun _ => True) w₀) :
    Does g (.libraryCancelJob schemaName jobId) t (fun _ _ => True) (fun _ _ => True)
      (LibraryClient.cancelJob env schemaName jobId) w₀ := by
  unfold LibraryClient.cancelJob
  refine tries_bind (does_libraryConnect closed_true lasting_true rfl hw (fun _ _ _ => trivial) fun w₁ hi₁ => ?_)
  refine tries_bind (tries_adapt ?_)
  unfold Jobs.get
  rw [execute_alone rfl]
  refine does_read closed_true lasting_true rfl hi₁ (fun _ _ _ _ _ _ _ _ => trivial)
    fun w e now here => ⟨_, lasting_true, trivial, fun w₂ hi₂ => ?_⟩
  split
  next => exact tries_throw trivial
  next job _ =>
    have rest : ∀ w, Idle t (fun _ => True) (fun _ => True) w → Does g (.libraryCancelJob schemaName jobId) t
        (fun _ _ => True) (fun _ _ => True) (do
          let _ ← ExceptT.adapt (LibraryClient.dbText env) (Jobs.cancel ⟨schemaName, env.tablePrefix, false⟩ jobId)
          if job.triggerType = .cron then
            ExceptT.adapt (LibraryClient.dbText env) (LibraryClient.unregisterPgCron schemaName jobId)
          return () : Try Pg String Unit) w := by
      intro w hi
      unfold Jobs.cancel
      rw [execute_alone rfl]
      refine tries_bind (tries_adapt (does_libraryRetire hstart hi (fun _ _ => trivial) fun r w' hi' => ?_))
      split
      next =>
        refine tries_bind (tries_adapt (Tries.mono (does_unregisterPgCron hstart hi') (fun _ _ _ => ?_) fun _ _ h => h))
        exact tries_pure trivial
      next => exact tries_pure trivial
    dsimp only
    by_cases hcron : job.triggerType = .cron
    · rw [if_neg (by simpa using hcron)]
      exact rest w₂ hi₂
    · rw [if_pos hcron]
      refine tries_bind (tries_adapt ?_)
      unfold Executions.cancelPendingForJob
      rw [execute_alone rfl]
      refine does_tx closed_true.begin lasting_true rfl hi₂ (fun _ _ _ _ _ _ _ => trivial) fun now' w₃ ho₃ => ?_
      refine tries_bind (tries_bind (tries_query lasting_true.stable (free_pre rfl trivial) ho₃
        (fun _ _ _ _ _ _ _ _ h => runs_rollback lasting_true rfl h fun _ _ => trivial) ?_))
      intro w₄ w₅ s₄ e₄ _ _ hs₄ ho₅
      have ho₆ : Open t now' (fun _ => True) (fun _ => True) (fun s => Cancels now' s ∧ True) w₅ :=
        ho₅.mono (fun _ h => h) (fun _ _ => trivial) fun s' _ h => h ▸ ⟨cancels_started hs₄, trivial⟩
      refine (does_cancelEach lenient_true lasting_true rfl ho₆ fun _ _ h =>
        runs_rollback lasting_true rfl h fun _ _ => trivial).mono (fun _ w₆ h => tries_pure ?_) fun _ _ h => h
      refine does_commit lasting_true rfl trivial h (fun s hs => hs.1.1)
        (fun w s e facts hs => hs.1.commit facts.sound facts.session) (fun _ _ _ _ _ _ _ => trivial) ?_
      intro _ w₇ _ _ _ _ hi₇
      exact rest w₇ (hi₇.mono (fun _ _ => trivial) fun _ _ => trivial)

theorem runs_libraryCancelJob {w : World Pg} (hstart : g.start (.libraryCancelJob schemaName jobId))
    (h : w.view t = (none, [])) : Runs g (.libraryCancelJob schemaName jobId) t
      ((base g).post (.libraryCancelJob schemaName jobId) t)
      ((service env).program (.libraryCancelJob schemaName jobId)) w := by
  refine holds_run (Tries.mono (does_libraryCancelJob hstart ⟨[], h, trivial, trivial⟩) (fun r w' _ => ?_) fun x w' _ => ?_)
  · exact Prog.holds_pure.mpr ⟨trivial, trivial⟩
  · exact Prog.holds_pure.mpr ⟨trivial, trivial⟩

end cancel

end Invokr
