import Invokr.Inserts

namespace Invokr

open TxLib

variable {env : Setup} {g : Guard (service env)} {t : Nat} {now : Int} {H : List (Entry Pg) → Prop}
  {K : Rows Pg → Prop} {w₀ : World Pg} {schemaName : String} {body : CreateJob}

section obstacles

theorem Clear.fails {w : World Pg} {e : Env Pg} {o : Op Pg} (here : Here g (.createJob schemaName body) t H K w e o)
    (ob : Obstacle env schemaName body w t e o) : ¬Clear g schemaName body :=
  fun clear => clear w t e o here.allowed ob

theorem idle_history {w : World Pg} (h : Idle t H K w) : H (w.history t) := by
  obtain ⟨l, hv, hl, _⟩ := h
  have : w.history t = l := congrArg Prod.snd hv
  rwa [this]

theorem idle_rows {w : World Pg} (h : Idle t H K w) : K w.rows := by
  obtain ⟨_, _, _, hk⟩ := h
  exact hk

/-- A step that meets an obstacle answers with an error and leaves nothing behind. -/
theorem created_error {w w' : World Pg} {e : Env Pg} {o : Op Pg} {K' : Rows Pg → Prop} {x : AppError}
    (here : Here g (.createJob schemaName body) t H K w e o)
    (ob : body.idempotencyKey ≠ none → Obstacle env schemaName body w t e o) (hi : Idle t Silent K' w') :
    Created g schemaName body t w' (.error x) :=
  ⟨idle_history hi, fun _ hk _ => Clear.fails here (ob hk)⟩

/-- The job's `INSERT` is rejected for a reason that is an obstacle. -/
theorem obstacle_insertJob {build : Uuid → Int → Key × Job} {w : World Pg} {s : Session Pg} {e : Env Pg}
    (facts : At g (.createJob schemaName body) t now H K w s e (.insert .insertJob .jobs false build))
    (hf : InsertFails w s e .jobs (build e.fresh now)) (hs : Started s)
    (hschema : (build e.fresh now).1.schema = schemaName) (hep : (build e.fresh now).2.endpoint = body.endpoint)
    (hkey : (build e.fresh now).2.idempotencyKey = body.idempotencyKey) (hne : body.idempotencyKey ≠ none) :
    Obstacle env schemaName body w t e (.insert .insertJob .jobs false build) := by
  have hnow := facts.now
  subst hnow
  have hv := visible_started (D := w.rows) hs
  rcases hf with h | h | h | h | h
  · rw [hs.1] at h
    cases h
  · exact Or.inl (Or.inl h)
  · exact Or.inr (Or.inr ⟨s, facts.session, Or.inl h⟩)
  · obtain ⟨k', j', hr, hk | ⟨hu, hu'⟩⟩ := clash_cases h
    · rw [hv, or_self] at hr
      subst hk
      exact Or.inl (Or.inr ⟨s, j', facts.session, Or.inl hr⟩)
    · rw [hv, or_self] at hr
      cases hid : body.idempotencyKey with
      | none => exact (hne hid).elim
      | some key =>
        cases hid' : j'.idempotencyKey with
        | none => simp [Table.unique, hid', hkey, hid] at hu'
        | some key' =>
          simp only [Table.unique, hid', hkey, hid, Option.map_some, Option.some.injEq,
            UniqueIndex.jobsIdempotency.injEq] at hu'
          obtain ⟨h1, h2, h3⟩ := hu'
          exact Or.inr (Or.inr ⟨s, facts.session, Or.inr (Or.inr ⟨k', j', hr, h1.trans hschema, h2.trans hep,
            by rw [hid', hid, h3], by simp [hid]⟩)⟩)
  · refine Or.inr (Or.inr ⟨s, facts.session, Or.inr (Or.inl ?_)⟩)
    rw [hv] at h
    simpa [refsVisible, Table.refs, hschema, hep] using h

theorem obstacle_insertExecution {kj : Key} {j : Job} {build : Uuid → Int → Key × Execution} {w : World Pg}
    {s : Session Pg} {e : Env Pg}
    (facts : At g (.createJob schemaName body) t now H K w s e (.insert .insertExecution .executions false build))
    (hf : InsertFails w s e .executions (build e.fresh now)) (hs : Inserted .jobs kj j s)
    (new : NewExecution kj j (build e.fresh now).1 (build e.fresh now).2) :
    Obstacle env schemaName body w t e (.insert .insertExecution .executions false build) := by
  have hnow := facts.now
  subst hnow
  obtain ⟨ha, only, rest⟩ := hs
  have hv : s.visible w.rows .executions = w.rows .executions :=
    facts.sound.visible_quiet facts.session (quiet_of_none (rest .executions (by decide)))
  rcases hf with h | h | h | h | h
  · rw [ha] at h
    cases h
  · exact Or.inl (Or.inl h)
  · exact Or.inr (Or.inr ⟨s, facts.session, h⟩)
  · obtain ⟨k', e', hr, hk | ⟨hu, hu'⟩⟩ := clash_cases h
    · rw [hv, or_self] at hr
      subst hk
      exact Or.inl (Or.inr ⟨s, e', facts.session, Or.inl hr⟩)
    · rw [hv, or_self] at hr
      exfalso
      have hjob : jobKey k' e' = kj := by
        rw [← new.job]
        cases hid : (build e.fresh s.now).2.idempotencyKey with
        | none => simp [Table.unique, hid] at hu
        | some key =>
          cases hid' : e'.idempotencyKey with
          | none => simp [Table.unique, hid', hid] at hu'
          | some key' =>
            simp only [Table.unique, hid', hid, Option.map_some, Option.some.injEq,
              UniqueIndex.executionsCronDedup.injEq] at hu'
            simp [jobKey, hu'.1, hu'.2.1]
      obtain ⟨_, j', hj', _⟩ := facts.inv.linked.execution k' e' hr
      rw [hjob, (facts.sound.visible_only facts.session only).1] at hj'
      cases hj'
  · exfalso
    have hk : (⟨(build e.fresh s.now).1.schema, (build e.fresh s.now).2.jobId⟩ : Key) = kj := new.job
    simp [refsVisible, Table.refs, hk, only.visible] at h

end obstacles

section transactions

theorem does_scoped {ε : Type} {req : Request env} {x : Try Pg AppError ε} {ok : ε → World Pg → Prop}
    {err : AppError → World Pg → Prop} (hreq : isWork req = false)
    (h : Does g req t ok err (transaction fromDb x) w₀) : Does g req t ok err (scopedTransaction schemaName x) w₀ := by
  unfold scopedTransaction
  split
  next => exact tries_bind (tries_lift (holds_halt (free_pre hreq trivial)))
  next => exact h

theorem silent_abort {w' : World Pg} (h : Idle t (fun l => ∃ l₀, Silent l₀ ∧ l = l₀ ++ [.abort]) K w') : Idle t Silent K w' :=
  h.mono (fun _ => closed_silent.aborted) fun _ h => h

/-- What `create` puts into the job it inserts. -/
structure Wanted (g : Guard (service env)) (schemaName : String) (body : CreateJob) (new : Key × Job) : Prop where
  schema : new.1.schema = schemaName
  endpoint : new.2.endpoint = body.endpoint
  job : NewJob new.1 new.2 none
  asked : Asked g (.createJob schemaName body) new.1 new.2
  key : body.idempotencyKey ≠ none → new.2.idempotencyKey = body.idempotencyKey

theorem Wanted.created {new : Key × Job} (h : Wanted g schemaName body new) {s : Session Pg} {w' : World Pg}
    {e : Option (String × ExecutionStatus × Time)} (only : Only (M := Pg) .jobs new.1 none (some new.2) s)
    (hi : Idle t (fun l => ∃ l₀, Silent l₀ ∧ l = l₀ ++ [.commit s]) K w') :
    Created g schemaName body t w' (.ok (.jobCreated new.2 e)) := by
  obtain ⟨l, hl, he⟩ := idle_history hi
  have hk : (⟨schemaName, new.2.jobId⟩ : Key) = new.1 := by rw [h.job.jobId, ← h.schema]
  refine ⟨l, s, he, hl, ?_, h.endpoint, h.key⟩
  rw [hk]
  exact only.1

theorem does_oneShot {f : DbError → AppError} {p : Uuid → Int → Key × Job} {q : Job → Uuid → Int → Key × Execution}
    (h₁ : ∀ id now, Wanted g schemaName body (p id now) ∧ (p id now).2.triggerType ≠ .cron)
    (h₂ : ∀ id now id' now', NewExecution (p id now).1 (p id now).2 (q (p id now).2 id' now').1
      (q (p id now).2 id' now').2 ∧ Twin (p id now).2 (q (p id now).2 id' now').2)
    (hK : Lasting K) (hw : Idle t Silent K w₀) :
    Does g (.createJob schemaName body) t
      (fun r w' => Created g schemaName body t w' (.ok (.jobCreated r.job (JobsApi.executionOf r))))
      (fun x w' => Created g schemaName body t w' (.error x))
      (scopedTransaction schemaName (ExceptT.adapt f (do
        let job ← insertOne .insertJob .jobs p
        let exec ← insertOne .insertExecution .executions (q job)
        return Jobs.result job exec))) w₀ := by
  refine does_scoped rfl (does_tx closed_silent.begin hK rfl hw ?_ fun now w hopen => tries_adapt ?_)
  · intro x w e w' here hf hi
    exact created_error here (fun _ => Or.inl (Or.inl hf)) hi
  refine tries_bind (does_insertFirst hK rfl (by decide) hopen ?_ fun id w₁ ho => tries_bind (does_insertExecution hK rfl ho ?_ ?_))
  · intro x w₁ w₂ s e facts hf hs ho
    refine runs_rollback hK rfl ho fun w₃ hi => created_error facts.toMoment (fun hne => ?_) (silent_abort hi)
    have want := (h₁ e.fresh now).1
    exact obstacle_insertJob facts hf hs want.schema want.endpoint (want.key hne) hne
  · intro x w₁ w₂ s e facts hf hs ho
    refine runs_rollback hK rfl ho fun w₃ hi => created_error facts.toMoment (fun hne => ?_) (silent_abort hi)
    exact obstacle_insertExecution facts hf hs (h₂ id now e.fresh now).1
  · intro id' w₂ ho₂
    have want := (h₁ id now).1
    refine tries_pure (does_commit hK rfl trivial ho₂ (fun s hs => hs.1) ?_ ?_ ?_)
    · intro w₃ s e facts hs
      exact hs.commit facts.sound facts.session want.asked want.job (h₁ id now).2 (h₂ id now id' now).1 (h₂ id now id' now).2
    · intro x w₃ w₄ e here hf hi
      exact created_error here (fun _ => Or.inl (Or.inl hf)) (silent_abort hi)
    · intro w₃ w₄ s e _ hs hi
      exact want.created hs.2.1 hi

theorem does_scheduled {ep : Endpoint} {cron tz : String} {startsAt nextRun : Time} (user : ep.endpointType ≠ .internal)
    (hK : Lasting K)
    (hw : Idle t Silent K w₀) :
    Does g (.createJob schemaName body) t
      (fun j w' => Created g schemaName body t w' (.ok (.jobCreated j none)))
      (fun x w' => Created g schemaName body t w' (.error x))
      (scopedTransaction schemaName (JobsApi.insertCron env schemaName body ep cron tz startsAt nextRun)) w₀ := by
  refine does_scoped rfl (does_tx closed_silent.begin hK rfl hw ?_ fun now w hopen => ?_)
  · intro x w e w' here hf hi
    exact created_error here (fun _ => Or.inl (Or.inl hf)) hi
  have want : ∀ id : Uuid, Wanted g schemaName body (⟨schemaName, id.val⟩,
      { Jobs.newJob id now body.endpoint ep.endpointType .cron body.idempotencyKey body.input with
        cronExpression := some cron, cronTimezone := some tz, cronStartsAt := some startsAt,
        cronEndsAt := body.endsAt, cronNextRunAt := some nextRun }) := fun id =>
    ⟨rfl, rfl, ⟨rfl, id.property, rfl, rfl, rfl, fun _ => rfl⟩, ⟨rfl, rfl, user, Or.inl rfl⟩, fun _ => rfl⟩
  refine tries_bind (tries_adapt (does_insertFirst hK rfl (by decide) hopen ?_ fun id w₁ ho =>
    tries_bind (tries_adapt (does_register_ready (k := ⟨schemaName, id.val⟩) hK rfl
      (ho.mono (fun _ h => h) (fun _ h => h) fun _ _ h => h.ready) rfl ?_ fun w₂ ho₂ => ?_))))
  · intro x w₁ w₂ s e facts hf hs ho
    refine runs_rollback hK rfl ho fun w₃ hi => created_error facts.toMoment (fun hne => ?_) (silent_abort hi)
    exact obstacle_insertJob facts hf hs rfl rfl rfl hne
  · intro x w₁ w₂ e here hf ho
    exact runs_rollback hK rfl ho fun w₃ hi => created_error here (fun _ => Or.inl (Or.inl hf)) (silent_abort hi)
  · refine tries_pure (does_commit hK rfl trivial ho₂ (fun s hs => hs.1) ?_ ?_ ?_)
    · intro w₃ s e facts hs
      exact hs.commit facts.sound facts.session (want id).asked (want id).job rfl rfl
    · intro x w₃ w₄ e here hf hi
      exact created_error here (fun _ => Or.inl (Or.inl hf)) (silent_abort hi)
    · intro w₃ w₄ s e _ hs hi
      exact (want id).created hs.2.1 hi

end transactions

end Invokr
