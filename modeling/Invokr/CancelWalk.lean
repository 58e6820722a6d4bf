import Invokr.Cancels

namespace Invokr

open TxLib

variable {env : Setup} {g : Guard (service env)} {t : Nat} {now : Int} {K : Rows Pg → Prop} {w₀ : World Pg}
  {schemaName jobId : String}

section job

/-- What is left to do after the statements of a cancel. -/
def CancelEnds (g : Guard (service env)) (schemaName jobId : String) (t : Nat) (r : Reply) (w : World Pg) : Prop :=
  Does g (.cancelJob schemaName jobId) t (fun _ w' => Answered g (.cancelJob schemaName jobId) t (.http (.ok r)) w')
    (fun _ _ => True) (commitTx : Try Pg DbError Unit) w

def CancelFails (g : Guard (service env)) (schemaName jobId : String) (t : Nat) (w : World Pg) : Prop :=
  Runs g (.cancelJob schemaName jobId) t (fun _ _ => True) rollbackTx w

theorem cancel_fails {Q : Session Pg → Prop} {w : World Pg} (hK : Lasting K)
    (ho : Open t now (fun _ => True) K Q w) : CancelFails g schemaName jobId t w :=
  runs_rollback hK rfl ho fun _ _ => trivial

/-- The job that is retired is the one that was read. -/
theorem retired_same {k : Key} {j j₀ : Job} {n : Option Job} {w : World Pg} {s : Session Pg} (sound : Sound w)
    (hs : w.sessions t = some s) (only : Only (M := Pg) .jobs k (some j) n s) (known : HasJob k j₀ w.rows) :
    j.triggerType = j₀.triggerType ∧ j.endpointType = j₀.endpointType := by
  obtain ⟨j', hj', same⟩ := known
  have hj : w.rows .jobs k = some j := (sound.visible_only hs only).1
  obtain rfl : j = j' := Option.some.inj (hj.symm.trans hj')
  obtain ⟨_, _, hty, htr, _⟩ := same.columns
  exact ⟨htr, hty⟩

/-- A one-shot job is retired and what it leaves behind has begun, or ends with it. -/
theorem cancel_once {j₀ j : Job} {R : Session Pg → Prop} {w : World Pg} (once : j₀.triggerType ≠ .cron)
    (user : j₀.endpointType ≠ .internal) (hK : Lasting K)
    (ho : Open t now (fun _ => True) (fun D => HasJob ⟨schemaName, jobId⟩ j₀ D ∧ K D)
      (fun s => Retires now ⟨schemaName, jobId⟩ j s ∧ R s) w)
    (stopped : ∀ (w : World Pg) s w', K w'.rows → w'.rows = s.visible w.rows → R s → Official g →
      Stopped schemaName jobId w') :
    CancelEnds g schemaName jobId t (.jobCancelled (Jobs.retirePatch.apply now j)) w := by
  refine does_commit ((lasting_hasJob _ j₀).and hK) rfl trivial ho (fun s hs => hs.1.1) ?_
    (fun _ _ _ _ _ _ _ => trivial) ?_
  · intro w₁ s e facts hs
    obtain ⟨htr, hty⟩ := retired_same facts.sound facts.session hs.1.2.2.1 facts.known.1
    exact hs.1.commit facts.sound facts.session (by rw [htr]; exact once) (by rw [hty]; exact user)
  · intro w₁ w₂ s e facts hs hi _
    obtain ⟨⟨⟨j', hj', same⟩, hk⟩, hD⟩ := idle_rows hi
    exact ⟨⟨j', hj', by rw [same.columns.2.2.2.1]; exact once⟩, fun official => stopped w₁ s w₂ hk hD hs.2 official⟩

/-- The transaction retires a CRON job and deletes its entry. -/
def Withdraws (g : Guard (service env)) (now : Int) (k : Key) (j : Job) (s : Session Pg) : Prop :=
  s.aborted = false ∧ j.status = .active ∧
    Only (M := Pg) .jobs k (some j) (some (Jobs.retirePatch.apply now j)) s ∧
    Quiet (M := Pg) .executions s ∧ Quiet (M := Pg) .attempts s ∧ Unschedules g k s

theorem Withdraws.commit {req : Request env} {k : Key} {j : Job} {s : Session Pg} {w : World Pg} (h : Withdraws g now k j s)
    (sound : Sound w) (hs : w.sessions t = some s) (cron : j.triggerType = .cron) (user : j.endpointType ≠ .internal) :
    Commit g req now w.rows (s.visible w.rows) := by
  obtain ⟨_, active, only, he, hat, hc⟩ := h
  obtain ⟨found, jobs⟩ := sound.visible_only hs only
  refine .cancelledCron found cron ⟨⟨active, rfl⟩, user⟩ jobs (hc.visible sound hs) hc.gone
    fun tb hm => sound.visible_quiet hs ?_
  simp only [List.mem_cons, List.not_mem_nil, or_false] at hm
  rcases hm with rfl | rfl
  · exact he
  · exact hat

theorem cancel_cron {j₀ j : Job} {w : World Pg} (cron : j₀.triggerType = .cron) (hj : j.triggerType = .cron)
    (user : j₀.endpointType ≠ .internal)
    (ho : Open t now (fun _ => True) (HasJob ⟨schemaName, jobId⟩ j₀) (Withdraws g now ⟨schemaName, jobId⟩ j) w) :
    CancelEnds g schemaName jobId t (.jobCancelled (Jobs.retirePatch.apply now j)) w := by
  refine does_commit (lasting_hasJob _ j₀) rfl trivial ho (fun s hs => hs.1) ?_ (fun _ _ _ _ _ _ _ => trivial) ?_
  · intro w₁ s e facts hs
    obtain ⟨htr, hty⟩ := retired_same facts.sound facts.session hs.2.2.1 facts.known
    exact hs.commit facts.sound facts.session (by rw [htr]; exact cron) (by rw [hty]; exact user)
  · intro w₁ w₂ s e facts hs hi once
    exact (once hj).elim

/-- The entry of a CRON job that is being retired is deleted. -/
theorem does_withdraw {j₀ j : Job} {w : World Pg} (cron : j₀.triggerType = .cron) (user : j₀.endpointType ≠ .internal)
    (ho : Open t now (fun _ => True) (HasJob ⟨schemaName, jobId⟩ j₀)
      (fun s => Retires now ⟨schemaName, jobId⟩ j s ∧ Quiet (M := Pg) .executions s) w) :
    Does g (.cancelJob schemaName jobId) t
      (fun _ w' => CancelEnds g schemaName jobId t (.jobCancelled (Jobs.retirePatch.apply now j)) w')
      (fun _ w' => CancelFails g schemaName jobId t w') (Jobs.unregisterPgCronConn schemaName jobId) w := by
  have hK := lasting_hasJob ⟨schemaName, jobId⟩ j₀
  refine does_unregister (k := ⟨schemaName, jobId⟩) hK (covers_of_not_work rfl) ho
    (fun _ _ _ _ _ _ _ _ _ h => cancel_fails hK h) ?_ ?_
  · intro o w₁ w₂ s e facts _ hs hnone ho₂
    obtain ⟨⟨ha, active, only, _, hat, hc⟩, he⟩ := hs
    have htr := (retired_same facts.sound facts.session only facts.known).1
    refine cancel_cron cron (htr.trans cron) user (ho₂.mono (fun _ h => h) (fun _ h => h) fun s' _ h => ?_)
    subst h
    refine ⟨ha, active, only, he, hat, Or.inr ⟨fun official => ?_, hc⟩⟩
    exact entry_visible (facts.inv.agree official) facts.sound facts.session only.1 active (htr.trans cron) hc hnone
  · intro o w₁ w₂ s e facts _ hs ho₂
    obtain ⟨⟨ha, active, only, _, hat, hc⟩, he⟩ := hs
    have htr := (retired_same facts.sound facts.session only facts.known).1
    refine cancel_cron cron (htr.trans cron) user (ho₂.mono (fun _ h => h) (fun _ h => h) fun s' _ h => ?_)
    subst h
    exact ⟨ha, active, only.write_tbl (by decide), he.write_tbl (by decide), hat.write_tbl (by decide),
      Or.inl ⟨_, hc.only⟩⟩

/-- The last statement of a one-shot job's cancel. -/
theorem does_retireOnce {j₀ : Job} {R : Session Pg → Prop} {w : World Pg} (once : j₀.triggerType ≠ .cron)
    (user : j₀.endpointType ≠ .internal) (hR : Lenient R) (hK : Lasting K)
    (ho : Open t now (fun _ => True) (fun D => HasJob ⟨schemaName, jobId⟩ j₀ D ∧ K D) (fun s => Cancels now s ∧ R s) w)
    (stopped : ∀ (w : World Pg) s w', K w'.rows → w'.rows = s.visible w.rows → R s → Official g →
      Stopped schemaName jobId w') :
    Does g (.cancelJob schemaName jobId) t (fun r w' => CancelEnds g schemaName jobId t r w')
      (fun _ w' => CancelFails g schemaName jobId t w') (do
        match ← ExceptT.adapt fromDb (updateOne .cancelJob .jobs ⟨schemaName, jobId⟩ Jobs.isActive Jobs.retirePatch) with
        | none => throw (.conflict "Job could not be cancelled")
        | some cancelled => return .jobCancelled cancelled) w := by
  have hK' := (lasting_hasJob ⟨schemaName, jobId⟩ j₀).and hK
  refine tries_bind (tries_adapt (does_retire hR.locks hR.apart hK' rfl ho (fun _ _ h => cancel_fails hK' h) ?_ ?_))
  · intro w' h
    exact tries_throw (cancel_fails hK' h)
  · intro j w' h
    exact tries_pure (cancel_once once user hK h stopped)

theorem stopped_of_begun {ke : Key} {w : World Pg} (h : Begun ⟨schemaName, jobId⟩ ke w.rows) : Stopped schemaName jobId w := by
  obtain ⟨e, he, hj, hc⟩ := h
  exact ⟨ke, e, he, hj, hc⟩

theorem stopped_of_ends {ke : Key} {w w' : World Pg} {s : Session Pg} (h : Ends ⟨schemaName, jobId⟩ ke s)
    (hw : w'.rows = s.visible w.rows) : Stopped schemaName jobId w' := by
  obtain ⟨b, e, hh, hj, hc⟩ := h
  exact ⟨ke, e, by rw [hw]; simp [Session.visible, hh], hj, hc⟩

/-- All statements of a one-shot job's cancel after the job was read. -/
theorem does_cancelOnce {j₀ : Job} {w : World Pg} (once : j₀.triggerType ≠ .cron) (user : j₀.endpointType ≠ .internal)
    (ho : Open t now (fun _ => True) (HasJob ⟨schemaName, jobId⟩ j₀) Started w) :
    Does g (.cancelJob schemaName jobId) t (fun r w' => CancelEnds g schemaName jobId t r w')
      (fun _ w' => CancelFails g schemaName jobId t w') (do
        let _ ← ExceptT.adapt fromDb (do
          let rows ← updateWhere .cancelPending schemaName .executions (waiting jobId) Executions.cancelPatch
          return rows.length)
        match ← ExceptT.adapt fromDb (updateOne .cancelJob .jobs ⟨schemaName, jobId⟩ Jobs.isActive Jobs.retirePatch) with
        | none => throw (.conflict "Job could not be cancelled")
        | some cancelled => return .jobCancelled cancelled) w := by
  have hK := lasting_hasJob ⟨schemaName, jobId⟩ j₀
  have quit : ∀ {K' Q w}, Lasting K' → Open t now (fun _ => True) K' Q w → CancelFails g schemaName jobId t w :=
    fun hK' h => cancel_fails hK' h
  refine tries_bind (tries_adapt (tries_bind (tries_bind (tries_query hK.stable (free_pre rfl trivial) ho
    (fun _ _ _ _ _ _ _ _ h => quit hK h) ?_))))
  intro w₁ w₂ s e facts _ hs ho₂
  rw [visible_started hs]
  have start : ∀ {K' : Rows Pg → Prop}, K' w₁.rows → Open t now (fun _ => True) K' (fun s => Cancels now s) w₂ :=
    fun hk => ho₂.mono (fun _ h => h) (fun _ h => h ▸ hk) fun s' _ h => h ▸ cancels_started hs
  by_cases official : Official g
  · obtain ⟨j', hj', same⟩ := facts.known
    have hty : j'.triggerType ≠ .cron := by
      rw [same.columns.2.2.2.1]
      exact once
    have hatomic : Atomic g := by
      intro req w t e hs hl _
      rw [official req hs] at hl
      cases hl
    obtain ⟨ke, x, hx, hjob, _⟩ := facts.inv.together hatomic ⟨schemaName, jobId⟩ j' hj' hty
    -- whatever becomes of the execution, it has begun or ends with this transaction
    have halts : ∀ {w}, Halts t now (HasJob ⟨schemaName, jobId⟩ j₀) ⟨schemaName, jobId⟩ ke w →
        Does g (.cancelJob schemaName jobId) t (fun r w' => CancelEnds g schemaName jobId t r w')
          (fun _ w' => CancelFails g schemaName jobId t w') (do
            match ← ExceptT.adapt fromDb
              (updateOne .cancelJob .jobs ⟨schemaName, jobId⟩ Jobs.isActive Jobs.retirePatch) with
            | none => throw (.conflict "Job could not be cancelled")
            | some cancelled => return .jobCancelled cancelled) w := by
      rintro w (h | h)
      · exact does_retireOnce once user lenient_true (lasting_begun _ ke) h fun _ _ _ hk _ _ _ => stopped_of_begun hk
      · exact does_retireOnce once user (lenient_ends _ ke) lasting_true
          (h.mono (fun _ h => h) (fun _ h => ⟨h, trivial⟩) fun _ _ h => h) fun _ _ _ _ hw hr _ => stopped_of_ends hr hw
    by_cases hc : Executions.cancellable x = true
    · have hm : ke ∈ matching ⟨now, w₁.rows, w₁.keys⟩ schemaName .executions (waiting jobId) := by
        refine List.mem_filter.mpr ⟨facts.sound.keyed .executions ke x (Or.inl hx), ?_⟩
        have hsch : ke.schema = schemaName := congrArg Key.schema hjob
        have hid : x.jobId = jobId := congrArg Key.id hjob
        simp [hsch, hx, waiting, hid, hc]
      refine (does_cancelThrough hK rfl rfl hm (start ⟨facts.known, x, hx, hjob⟩) fun _ _ h => quit hK h).mono
        (fun _ _ h => tries_pure (halts h)) fun _ _ h => h
    · have begun : Begun ⟨schemaName, jobId⟩ ke w₁.rows := ⟨x, hx, hjob, by simpa using hc⟩
      have h : Halts t now (HasJob ⟨schemaName, jobId⟩ j₀) ⟨schemaName, jobId⟩ ke w₂ :=
        Or.inl ((start ⟨facts.known, begun⟩).mono (fun _ h => h) (fun _ h => h) fun _ _ h => ⟨h, trivial⟩)
      exact (h.each hK rfl fun _ _ h => quit hK h).mono (fun _ _ h => tries_pure (halts h)) fun _ _ h => h
  · refine (does_cancelEach lenient_true hK rfl ((start facts.known).mono (fun _ h => h) (fun _ h => h)
      fun _ _ h => ⟨h, trivial⟩) fun _ _ h => quit hK h).mono (fun _ _ h => tries_pure ?_) fun _ _ h => h
    exact does_retireOnce once user lenient_true lasting_true
      (h.mono (fun _ h => h) (fun _ h => ⟨h, trivial⟩) fun _ _ h => h) fun _ _ _ _ _ _ h => (official h).elim

theorem does_cancelIn {w : World Pg} (ho : Open t now (fun _ => True) (fun _ => True) Started w) :
    Does g (.cancelJob schemaName jobId) t (fun r w' => CancelEnds g schemaName jobId t r w')
      (fun _ w' => CancelFails g schemaName jobId t w')
      (JobsApi.cancelIn (JobsApi.txContext env schemaName) schemaName jobId) w := by
  unfold JobsApi.cancelIn
  refine tries_bind (tries_adapt ?_)
  refine tries_bind (tries_query lasting_true.stable (free_pre rfl trivial) ho
    (fun _ _ _ _ _ _ _ _ h => cancel_fails lasting_true h) ?_)
  intro w₁ w₂ s e facts _ hs ho₁
  rw [visible_started hs]
  refine tries_pure ?_
  have quit : CancelFails g schemaName jobId t w₂ :=
    cancel_fails (K := fun _ => True) lasting_true (ho₁.mono (fun _ h => h) (fun _ _ => trivial) fun _ _ h => h)
  split
  next => exact tries_throw quit
  next job hjob =>
    have hK := lasting_hasJob ⟨schemaName, jobId⟩ job
    have ho₂ : Open t now (fun _ => True) (HasJob ⟨schemaName, jobId⟩ job) Started w₂ :=
      ho₁.mono (fun _ h => h) (fun _ h => h ▸ ⟨job, hjob, sameJob_refl job⟩) fun s' _ h => h ▸ hs
    dsimp only
    by_cases hret : job.status = .retired
    · rw [if_pos hret]
      exact tries_bind (tries_throw quit)
    rw [if_neg hret]
    by_cases hint : job.endpointType = .internal
    · rw [if_pos hint]
      exact tries_bind (tries_throw quit)
    rw [if_neg hint]
    by_cases hcron : job.triggerType = .cron
    · simp only [hcron, ne_eq, not_true_eq_false, ↓reduceIte]
      refine tries_bind (tries_adapt (does_retire (R := fun s => Quiet (M := Pg) .executions s)
        (fun s s' hl h => h.locks hl) (fun s s' he h => h.frame he) hK rfl
        (ho₂.mono (fun _ h => h) (fun _ h => h) fun s _ h => ⟨cancels_started h, each_started h⟩)
        (fun _ _ h => cancel_fails hK h) (fun w' h => tries_throw (cancel_fails hK h)) fun j w' h => ?_))
      refine tries_bind (tries_adapt ((does_withdraw hcron hint h).mono (fun _ _ h => ?_) fun _ _ h => h))
      exact tries_pure h
    · simp only [hcron, ne_eq, not_false_eq_true, ↓reduceIte]
      exact does_cancelOnce hcron hint ho₂

theorem runs_cancelJob {w : World Pg} (h : w.view t = (none, [])) :
    Runs g (.cancelJob schemaName jobId) t ((base g).post (.cancelJob schemaName jobId) t)
      ((service env).program (.cancelJob schemaName jobId)) w := by
  have does : Does g (.cancelJob schemaName jobId) t
      (fun r w' => Answered g (.cancelJob schemaName jobId) t (.http (.ok r)) w') (fun _ _ => True)
      (JobsApi.cancel env schemaName jobId) w :=
    does_scoped rfl (does_tx closed_true.begin lasting_true rfl ⟨[], h, trivial, trivial⟩
      (fun _ _ _ _ _ _ _ => trivial) fun now w' ho => does_cancelIn ho)
  refine holds_run (does.mono (fun r w' hr => ?_) fun x w' _ => ?_)
  · exact Prog.holds_pure.mpr ⟨trivial, hr⟩
  · exact Prog.holds_pure.mpr ⟨trivial, trivial⟩

end job

section execution

variable {executionId : String}

/-- `Executions.cancel` in a transaction of its own. -/
theorem does_cancelled {req : Request env} {k : Key} {ok : Option (Table.Row .executions) → World Pg → Prop}
    {err : DbError → World Pg → Prop} (hK : Lasting K) (hreq : isWork req = false)
    (hw : Open t now (fun _ => True) K (Cancels now) w₀)
    (herr : ∀ x w', Open t now (fun _ => True) K Aborted w' → err x w')
    (hok : ∀ r w', Open t now (fun _ => True) K (Cancels now) w' → ok r w') :
    Does g req t ok err (updateOne .cancelExecution .executions k (fun _ => Executions.cancellable) Executions.cancelPatch) w₀ := by
  refine does_updateOne hK (fun s s' hl h => h.locks hl) ?_ (covers_of_not_work hreq) hw
    (fun x _ _ w' _ _ _ _ _ _ h => herr x w' h) ?_ ?_
  · decide
  · intro _ w w' s e facts _ _ _ _ ho
    exact hok _ w' (ho.mono (fun _ h => h) (fun _ h => h ▸ facts.known) fun _ _ h => h)
  · intro w w' s e old facts _ hs finds hkeep ho
    exact hok _ w' (ho.mono (fun _ _ => trivial) (fun _ h => h ▸ facts.known) fun s' _ h => h ▸ hs.write finds hkeep)

theorem does_commitCancelled {executionId : String} {now' : Int} {w : World Pg} {r : Option Execution}
    (h : Open t now' (fun _ => True) (fun _ => True) (Cancels now') w) :
    Does g (.cancelExecution schemaName executionId) t
      (fun _ w' => Does g (.cancelExecution schemaName executionId) t (fun _ _ => True) (fun _ _ => True)
        (match r with
          | none => throw (.executionNotCancellable "Could not cancel")
          | some cancelled => return .executionCancelled cancelled : Try Pg AppError Reply) w')
      (fun _ _ => True) (commitTx : Try Pg DbError Unit) w := by
  refine does_commit lasting_true rfl trivial h (fun s hs => hs.1)
    (fun w₄ s e facts hs => hs.commit facts.sound facts.session) (fun _ _ _ _ _ _ _ => trivial) ?_
  intro _ w₅ _ _ _ _ _
  cases r with
  | none => exact tries_throw trivial
  | some c => exact tries_pure trivial

theorem does_cancelExecution (hw : Idle t (fun _ => True) (fun _ => True) w₀) :
    Does g (.cancelExecution schemaName executionId) t (fun _ _ => True) (fun _ _ => True)
      (ExecutionsApi.cancel env schemaName executionId) w₀ := by
  unfold ExecutionsApi.cancel
  refine tries_bind (does_connect closed_true lasting_true rfl hw (fun _ _ _ _ _ _ _ => trivial) fun w₁ hi₁ => ?_)
  refine tries_bind (tries_adapt ?_)
  unfold Executions.get
  rw [execute_alone rfl]
  refine does_read closed_true lasting_true rfl hi₁ (fun _ _ _ _ _ _ _ _ => trivial)
    fun w e now here => ⟨_, lasting_true, trivial, fun w₂ hi₂ => ?_⟩
  split
  next => exact tries_throw trivial
  next exec _ =>
    split
    next =>
      refine tries_bind (tries_adapt ?_)
      unfold Executions.cancel
      rw [execute_alone rfl]
      refine does_tx closed_true.begin lasting_true rfl hi₂ (fun _ _ _ _ _ _ _ => trivial) fun now' w₃ ho₃ => ?_
      have quit : ∀ {Q w}, Open t now' (fun _ => True) (fun _ => True) Q w →
          Runs g (.cancelExecution schemaName executionId) t (fun _ _ => True) rollbackTx w :=
        fun h => runs_rollback lasting_true rfl h fun _ _ => trivial
      refine does_cancelled lasting_true rfl (ho₃.mono (fun _ h => h) (fun _ h => h) fun s _ h => cancels_started h)
        (fun _ _ h => quit h) fun _ _ h => does_commitCancelled h
    next => exact tries_throw trivial

theorem runs_cancelExecution {w : World Pg} (h : w.view t = (none, [])) :
    Runs g (.cancelExecution schemaName executionId) t ((base g).post (.cancelExecution schemaName executionId) t)
      ((service env).program (.cancelExecution schemaName executionId)) w := by
  refine holds_run (Tries.mono (does_cancelExecution ⟨[], h, trivial, trivial⟩) (fun r w' _ => ?_) fun x w' _ => ?_)
  · exact Prog.holds_pure.mpr ⟨trivial, trivial⟩
  · exact Prog.holds_pure.mpr ⟨trivial, trivial⟩

end execution

end Invokr
