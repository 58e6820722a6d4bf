import Invokr.JobCreation

namespace Invokr

open TxLib

variable {env : Setup} {g : Guard (service env)} {t : Nat} {K : Rows Pg → Prop} {w₀ : World Pg} {schemaName : String}
  {body : CreateJob}

/-- The answers of `create`, as the outline has them. -/
def Answers (g : Guard (service env)) (schemaName : String) (body : CreateJob) (t : Nat) (r : Reply) (w : World Pg) :
    Prop := Created g schemaName body t w (.ok r)

def Errors (g : Guard (service env)) (schemaName : String) (body : CreateJob) (t : Nat) (x : AppError) (w : World Pg) :
    Prop := Created g schemaName body t w (.error x)

/-- A check of the request fails. -/
theorem errors_invalid {x : AppError} {w : World Pg} (hi : Idle t Silent K w)
    (h : body.idempotencyKey ≠ none → ∀ trigger, ¬Passes env schemaName body trigger) :
    Errors g schemaName body t x w :=
  ⟨idle_history hi, fun trigger hk hp => (h hk trigger hp).elim⟩

theorem does_get {α : Type} {tp : String} {stmt : Statement} {f : Snapshot Pg → α} {ok : α → World Pg → Prop}
    (hK : Lasting K) (hw : Idle t Silent K w₀)
    (hok : ∀ w e now, Here g (.createJob schemaName body) t Silent K w e (.snapshot stmt) → ∃ K', Lasting K' ∧
      K' w.rows ∧ ∀ w', Idle t Silent K' w' → ok (f ⟨now, w.rows, w.keys⟩) w') :
    Does g (.createJob schemaName body) t ok (fun x w' => Errors g schemaName body t x w')
      (ExceptT.adapt fromDb (DbContext.execute ⟨schemaName, tp, false⟩
        (do let snap ← query (M := Pg) stmt; return f snap))) w₀ := by
  refine tries_adapt ?_
  rw [execute_alone rfl]
  refine does_read closed_silent hK rfl hw (fun x o w e w' here hf hi => ?_) hok
  exact created_error here (fun _ => Or.inl (Or.inl hf)) hi

theorem does_checkInput {ep : Endpoint} {tp : String} {ok : Unit → World Pg → Prop} (hK : Lasting K)
    (hw : Idle t Silent K w₀) (hok : ∀ w', Idle t Silent K w' → ok () w') :
    Does g (.createJob schemaName body) t ok (fun x w' => Errors g schemaName body t x w')
      (JobsApi.checkInput env ⟨schemaName, tp, false⟩ ep body) w₀ := by
  unfold JobsApi.checkInput
  split
  next name input href hinput =>
    refine tries_bind (does_get hK hw fun w e now here => ⟨K, hK, here.known, fun w' hi => ?_⟩)
    have refused : (∀ p : PayloadSpec, w.rows .payloadSpecs ⟨schemaName, name⟩ = some p →
        JobsApi.validateInput env input p.schemaJson ≠ .ok ()) → ∀ x, Errors g schemaName body t x w' := fun h x =>
      created_error here (fun _ => Or.inr (Or.inl ⟨input, hinput, h⟩)) hi
    split
    next hn =>
      refine tries_throw (refused (fun p hp => ?_) _)
      rw [show w.rows .payloadSpecs ⟨schemaName, name⟩ = none from hn] at hp
      cases hp
    next spec hs =>
      change Tries _ _ _ _ (ExceptT.mk (pure (JobsApi.validateInput env input spec.schemaJson))) w'
      cases hv : JobsApi.validateInput env input spec.schemaJson with
      | ok u => exact tries_pure (hok w' hi)
      | error x =>
        refine tries_throw (refused (fun p hp => ?_) x)
        rw [show w.rows .payloadSpecs ⟨schemaName, name⟩ = some spec from hs] at hp
        cases hp
        rw [hv]
        exact fun h => by cases h
  next => exact tries_pure (hok w₀ hw)

/-- A row that `get_by_idempotency` finds. -/
theorem mem_matching_row (snap : Snapshot Pg) {schema : String} {tb : Table} {keep : Int → tb.Row → Bool} {r : tb.Row}
    (h : r ∈ (matching snap schema tb keep).filterMap (snap.row tb)) :
    ∃ k, snap.row tb k = some r ∧ k.schema = schema ∧ keep snap.now r = true := by
  obtain ⟨k, hk, hr⟩ := List.mem_filterMap.mp h
  have := (List.mem_filter.mp hk).2
  simp only [Bool.and_eq_true, decide_eq_true_eq, hr, Option.any_some] at this
  exact ⟨k, hr, this.1, this.2⟩

theorem does_findDuplicate {tp : String} {ok : Option Reply → World Pg → Prop} (hK : Lasting K)
    (hw : Idle t Silent K w₀) (hnone : ∀ w', Idle t Silent K w' → ok none w')
    (hsome : ∀ r w', Answers g schemaName body t r w' → ok (some r) w') :
    Does g (.createJob schemaName body) t ok (fun x w' => Errors g schemaName body t x w')
      (JobsApi.findDuplicate ⟨schemaName, tp, false⟩ body) w₀ := by
  unfold JobsApi.findDuplicate
  split
  next => exact tries_pure (hnone w₀ hw)
  next key hkey =>
    refine tries_bind (does_get hK hw fun w e now here => ?_)
    simp only
    cases hf : ((matching ⟨now, w.rows, w.keys⟩ schemaName .jobs fun _ (j : Job) =>
        j.endpoint = body.endpoint && j.idempotencyKey = some key).filterMap (w.rows .jobs)).head? with
    | none =>
      refine ⟨K, hK, here.known, fun w' hi => ?_⟩
      exact tries_pure (hnone w' hi)
    | some j =>
      obtain ⟨k, hr, hs, hj⟩ := mem_matching_row ⟨now, w.rows, w.keys⟩ (List.mem_of_mem_head? hf)
      simp only [Bool.and_eq_true, decide_eq_true_eq] at hj
      have hk : (⟨schemaName, j.jobId⟩ : Key) = k := by
        rw [(here.inv.linked.job k j hr).1, ← hs]
      have lasting : Lasting fun D => ∃ j' : Job, D .jobs ⟨schemaName, j.jobId⟩ = some j' ∧ SameJob j j' :=
        lasting_job fun _ _ same h => h.trans same
      refine ⟨_, lasting, ⟨j, by rw [hk]; exact hr, sameJob_refl j⟩, fun w' hi => ?_⟩
      refine tries_bind (does_get lasting hi fun w₁ e₁ now₁ here₁ => ⟨_, lasting, here₁.known, fun w₂ hi₂ => ?_⟩)
      refine tries_pure (hsome _ w₂ ⟨idle_history hi₂, idle_rows hi₂, hj.1, ?_, ?_⟩)
      · rw [hkey, hj.2]
      · rw [hkey]
        exact Option.some_ne_none key

theorem does_createImmediate {ep : Endpoint} {maxAttempts : Int} (user : ep.endpointType ≠ .internal) (hK : Lasting K) (hw : Idle t Silent K w₀) :
    Does g (.createJob schemaName body) t (Answers g schemaName body t) (Errors g schemaName body t)
      (JobsApi.createImmediate env schemaName body ep maxAttempts) w₀ := by
  have pair : ∀ key w, Idle t Silent K w →
      (body.idempotencyKey = some key ∨ (body.idempotencyKey = none ∧ ∃ w t e,
        g.step (.createJob schemaName body) w t e (.ext .newUuid) ∧ key = (e.answer .newUuid : Uuid).val)) →
      Does g (.createJob schemaName body) t (Answers g schemaName body t) (Errors g schemaName body t) (do
        let r ← scopedTransaction schemaName (ExceptT.adapt JobsApi.immediateError
          (Jobs.createImmediate (JobsApi.txContext env schemaName) body.endpoint ep.endpointType key body.input
            maxAttempts))
        return .jobCreated r.job (JobsApi.executionOf r)) w := by
    intro key w hi hkey
    refine tries_bind (Tries.mono (does_oneShot
      (p := fun id now => (⟨schemaName, id.val⟩,
        Jobs.newJob id now body.endpoint ep.endpointType .immediate (some key) body.input))
      (q := fun job id now => (⟨schemaName, id.val⟩,
        Jobs.newExecution id now { job with endpoint := body.endpoint, endpointType := ep.endpointType } .queued key
          body.input now maxAttempts)) (fun id now => ⟨⟨rfl, rfl, ⟨rfl, id.property, rfl, rfl, rfl, fun _ => rfl⟩, ?_, fun hne => ?_⟩, ?_⟩)
      (fun _ _ _ _ => ⟨⟨rfl, rfl, rfl, rfl, Option.some_ne_none _, rfl, rfl, rfl⟩, ⟨rfl, rfl, rfl, rfl⟩⟩) hK hi)
      (fun r w' h => tries_pure h) fun _ _ h => h)
    · refine ⟨rfl, rfl, user, hkey.imp (fun h => h.symm) ?_⟩
      rintro ⟨hn, w, t, e, hs, rfl⟩
      exact ⟨hn, w, t, e, hs, rfl⟩
    · rcases hkey with h | ⟨h, _⟩
      · exact h.symm
      · exact (hne h).elim
    · exact fun h => by cases h
  unfold JobsApi.createImmediate
  cases hk : body.idempotencyKey with
  | some key => exact pair key w₀ hw (Or.inl hk)
  | none =>
    refine tries_bind (tries_bind (does_ext_idle (x := .newUuid) closed_silent hK rfl trivial hw fun w e w' here hi => ?_))
    exact tries_pure (pair _ w' hi (Or.inr ⟨hk, w, t, e, here.allowed, rfl⟩))

theorem does_createDelayed {ep : Endpoint} {maxAttempts : Int} (user : ep.endpointType ≠ .internal)
    (hp : TriggerType.fromStrVal body.trigger = some .delayed) (hK : Lasting K) (hw : Idle t Silent K w₀) :
    Does g (.createJob schemaName body) t (Answers g schemaName body t) (Errors g schemaName body t)
      (JobsApi.createDelayed env schemaName body ep maxAttempts) w₀ := by
  have invalid : (body.idempotencyKey = none ∨ body.runAt = none) → ∀ x, Errors g schemaName body t x w₀ := by
    refine fun h x => errors_invalid hw fun hk trigger passes => ?_
    have ht : trigger = .delayed := Option.some.inj (passes.parses.symm.trans hp)
    exact h.elim hk (passes.delayed ht).2
  unfold JobsApi.createDelayed
  split
  next hk => exact tries_throw (invalid (Or.inl hk) _)
  next key hk =>
    split
    next hr => exact tries_throw (invalid (Or.inr hr) _)
    next runAt hr =>
      refine tries_bind (Tries.mono (does_oneShot
        (p := fun id now => (⟨schemaName, id.val⟩,
          { Jobs.newJob id now body.endpoint ep.endpointType .delayed (some key) body.input with runAt := some runAt }))
        (q := fun job id now => (⟨schemaName, id.val⟩,
          Jobs.newExecution id now { job with endpoint := body.endpoint, endpointType := ep.endpointType } .pending key
            body.input runAt maxAttempts))
        (fun id now => ⟨⟨rfl, rfl, ⟨rfl, id.property, rfl, rfl, rfl, fun _ => rfl⟩, ⟨rfl, rfl, user, Or.inl hk.symm⟩, fun _ => hk.symm⟩, ?_⟩)
        (fun _ _ _ _ => ⟨⟨rfl, rfl, rfl, rfl, Option.some_ne_none _, rfl, rfl, rfl⟩, ⟨rfl, rfl, rfl, rfl⟩⟩) hK hw)
        (fun r w' h => tries_pure h) fun _ _ h => h)
      exact fun h => by cases h

theorem does_scheduleFrom {ep : Endpoint} {cron tz : String} {startsAt : Time} {w : World Pg}
    (user : ep.endpointType ≠ .internal) (hK : Lasting K) (hi : Idle t Silent K w)
    (hn : ∀ x, env.cronNext cron tz startsAt = none → Errors g schemaName body t x w) :
    Does g (.createJob schemaName body) t (Answers g schemaName body t) (Errors g schemaName body t)
      (match env.cronNext cron tz startsAt with
        | none => throw (.invalidCron "No upcoming run for this cron schedule")
        | some nextRun => do
          let job ← scopedTransaction schemaName (JobsApi.insertCron env schemaName body ep cron tz startsAt nextRun)
          return .jobCreated job none) w := by
  split
  next h => exact tries_throw (hn _ h)
  next nextRun _ =>
    exact tries_bind (Tries.mono (does_scheduled user hK hi) (fun j w' h => tries_pure h) fun _ _ h => h)

theorem does_createCron {ep : Endpoint} (user : ep.endpointType ≠ .internal)
    (hp : TriggerType.fromStrVal body.trigger = some .cron) (hK : Lasting K)
    (hw : Idle t Silent K w₀) :
    Does g (.createJob schemaName body) t (Answers g schemaName body t) (Errors g schemaName body t)
      (JobsApi.createCron env schemaName body ep) w₀ := by
  have invalid : ∀ {w} x, Idle t Silent K w → (∀ c tz, body.cron = some c → body.timezone = some tz →
      env.tzParse tz = true → (∀ s, body.startsAt = some s → env.cronNext c tz s ≠ none) → False) →
      Errors g schemaName body t x w := by
    refine fun x hi h => errors_invalid hi fun _ trigger passes => ?_
    obtain ⟨c, tz, hc, htz, hparse, hnext⟩ := passes.cron (Option.some.inj (passes.parses.symm.trans hp))
    exact h c tz hc htz hparse hnext
  unfold JobsApi.createCron
  split
  next hc => exact tries_throw (invalid _ hw fun c _ h => by rw [hc] at h; cases h)
  next cron hc =>
    split
    next htz => exact tries_throw (invalid _ hw fun _ tz _ h => by rw [htz] at h; cases h)
    next tz htz =>
      dsimp only
      by_cases hbad : (!env.tzParse tz) = true
      · rw [if_pos hbad]
        refine tries_bind (tries_throw (invalid _ hw fun c tz' _ h hparse _ => ?_))
        rw [htz] at h
        cases h
        simp [hparse] at hbad
      · rw [if_neg hbad]
        cases hs : body.startsAt with
        | some startsAt =>
          refine tries_bind (tries_pure (does_scheduleFrom user hK hw fun x hnone => invalid x hw fun c tz' h h' _ hnext => ?_))
          rw [hc] at h
          rw [htz] at h'
          cases h
          cases h'
          exact hnext startsAt hs hnone
        | none =>
          refine tries_bind (does_ext_idle (x := .now) closed_silent hK rfl trivial hw fun w e w' here hi => ?_)
          refine does_scheduleFrom user hK hi fun x hnone => ?_
          exact created_error here (fun _ => Or.inr (Or.inl ⟨cron, tz, hc, htz, hnone⟩)) hi

theorem does_create (hw : Idle t Silent K w₀) (hK : Lasting K) :
    Does g (.createJob schemaName body) t (Answers g schemaName body t) (Errors g schemaName body t)
      (JobsApi.create env schemaName body) w₀ := by
  unfold JobsApi.create
  split
  next hp =>
    refine tries_throw (errors_invalid hw fun _ trigger passes => ?_)
    have parses := passes.parses
    rw [hp] at parses
    cases parses
  next trigger hp =>
    refine tries_bind (does_connect closed_silent hK rfl hw ?_ fun w₁ hi₁ => ?_)
    · intro x w e w' here hfalse hi
      exact created_error here (fun _ => Or.inr (Or.inl hfalse)) hi
    refine tries_bind (does_get hK hi₁ fun w e now here => ⟨K, hK, here.known, fun w₂ hi₂ => ?_⟩)
    have unfit : (∀ ep : Endpoint, w.rows .endpoints ⟨schemaName, body.endpoint⟩ = some ep → ep.endpointType = .internal) →
        ∀ x, Errors g schemaName body t x w₂ := fun h x => created_error here (fun _ => Or.inr (Or.inl h)) hi₂
    split
    next hn =>
      refine tries_throw (unfit (fun ep h => ?_) _)
      rw [show w.rows .endpoints ⟨schemaName, body.endpoint⟩ = none from hn] at h
      cases h
    next ep hep =>
      split
      next hint =>
        refine tries_bind (tries_throw (unfit (fun ep' h => ?_) _))
        rw [show w.rows .endpoints ⟨schemaName, body.endpoint⟩ = some ep from hep] at h
        cases h
        exact hint
      next user =>
        refine tries_bind (does_checkInput hK hi₂ fun w₃ hi₃ => tries_bind (does_findDuplicate hK hi₃ ?_ ?_))
        · intro w₄ hi₄
          cases trigger with
          | immediate => exact does_createImmediate user hK hi₄
          | delayed => exact does_createDelayed user hp hK hi₄
          | cron => exact does_createCron user hp hK hi₄
        · intro r w₄ h
          exact tries_pure h

theorem idle_start {w : World Pg} (h : w.view t = (none, [])) : Idle t Silent (fun _ => True) w :=
  ⟨[], h, (fun _ hs => by cases hs), trivial⟩

theorem runs_createJob {w : World Pg} (h : w.view t = (none, [])) :
    Runs g (.createJob schemaName body) t ((base g).post (.createJob schemaName body) t)
      ((service env).program (.createJob schemaName body)) w := by
  refine holds_run (Tries.mono (does_create (idle_start h) lasting_true) (fun r w' hr => ?_) fun x w' hx => ?_)
  · exact Prog.holds_pure.mpr ⟨trivial, hr⟩
  · exact Prog.holds_pure.mpr ⟨trivial, hx⟩

end Invokr
