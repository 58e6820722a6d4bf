import Invokr.Kinds

namespace Invokr

open TxLib

variable {env : Setup} {g : Guard (service env)} {req : Request env} {now : Int} {D D' : Rows Pg}

/-- What a commit that is not an attempt makes of one execution. -/
inductive Unworked (now : Int) : Option Execution → Option Execution → Prop
  | same (x : Option Execution) : Unworked now x x
  | new {e : Execution} (waiting : Executions.cancellable e = true) (attemptCount : e.attemptCount = 0)
      (completedAt : e.completedAt = none) : Unworked now none (some e)
  | cancel {e e' : Execution} (step : CancelStep now e e') : Unworked now (some e) (some e')

/-- What a commit makes of one execution. -/
def ExecutionStep (now : Int) (x x' : Option Execution) : Prop :=
  Unworked now x x' ∨ ∃ (b e : Execution) (a : Attempt), x = some b ∧ x' = some e ∧ Worked now b e a

/-- The rows an attempt finds and leaves. -/
structure AttemptMade (now : Int) (D D' : Rows Pg) (ke ka : Key) (b e : Execution) (a : Attempt) : Prop where
  found : D .executions ke = some b
  attempt : Worked now b e a
  unused : D .attempts ka = none
  schema : ka.schema = ke.schema
  of : a.executionId = ke.id
  executions : D' .executions = Function.update (D .executions) ke (some e)
  attempts : D' .attempts = Function.update (D .attempts) ka (some a)

/-- The base of a new version: it is RETIRED once the version is there, and was ACTIVE until then
unless an update came too late. -/
structure Based (g : Guard (service env)) (D D' : Rows Pg) (ko kn : Key) (new : Job) : Prop where
  alone : ∀ k, k ≠ kn → D .jobs k = none → D' .jobs k = none
  succeeds : Succeeds D ko new
  retired : ∃ b : Job, D' .jobs ko = some b ∧ b.status = .retired
  active : Exact g → ∃ b : Job, D .jobs ko = some b ∧ b.status = .active

/-- What a commit makes of one job. -/
inductive JobStep (g : Guard (service env)) (D D' : Rows Pg) (k : Key) : Option Job → Option Job → Prop
  | same (x : Option Job) : JobStep g D D' k x x
  | new {j : Job} {previous : Option String} (job : NewJob k j previous)
      (base : ∀ p, previous = some p → Based g D D' ⟨k.schema, p⟩ k j) : JobStep g D D' k none (some j)
  | retire {j j' : Job} (active : j.status = .active) (same : SameJob j j') (retired : j'.status = .retired)
      (link : j'.replacedById = j.replacedById ∨ (j'.replacedById = some k.id ∧ ∃ kn, ∃ new : Job, kn.schema = k.schema ∧
        D' .jobs kn = some new ∧ new.previousVersionId = some k.id)) : JobStep g D D' k (some j) (some j')

theorem Frame.eq {tbs : List Table} (h : Frame D D' tbs) {tb : Table} (hm : tb ∈ tbs) : D' tb = D tb := h tb hm

theorem sameJob_refl (j : Job) : SameJob j j := ⟨rfl, id⟩

theorem SameJob.trans {j j' j'' : Job} (h : SameJob j j') (h' : SameJob j' j'') : SameJob j j'' := by
  refine ⟨?_, fun hr => h'.2 (h.2 hr)⟩
  rw [← h.1, ← h'.1]

theorem sameExecution_refl (e : Execution) : SameExecution e e :=
  ⟨rfl, rfl, rfl, rfl, rfl, rfl, rfl, rfl, id, fun _ => rfl⟩

theorem SameExecution.trans {e e' e'' : Execution} (h : SameExecution e e') (h' : SameExecution e' e'') :
    SameExecution e e'' where
  executionId := h'.executionId.trans h.executionId
  jobId := h'.jobId.trans h.jobId
  endpoint := h'.endpoint.trans h.endpoint
  endpointType := h'.endpointType.trans h.endpointType
  idempotencyKey := h'.idempotencyKey.trans h.idempotencyKey
  input := h'.input.trans h.input
  maxAttempts := h'.maxAttempts.trans h.maxAttempts
  createdAt := h'.createdAt.trans h.createdAt
  settled hc := h'.settled (h.settled hc)
  ended ht := by
    have he := h.ended ht
    subst he
    exact h'.ended ht

theorem later_refl (D : Rows Pg) : Later D D :=
  ⟨fun _ j h => ⟨j, h, sameJob_refl j⟩, fun _ e h => ⟨e, h, sameExecution_refl e⟩⟩

theorem Later.trans {D D' D'' : Rows Pg} (h : Later D D') (h' : Later D' D'') : Later D D'' := by
  refine ⟨fun k j hj => ?_, fun k e he => ?_⟩
  · obtain ⟨j₁, hj₁, s₁⟩ := h.job k j hj
    obtain ⟨j₂, hj₂, s₂⟩ := h'.job k j₁ hj₁
    exact ⟨j₂, hj₂, s₁.trans s₂⟩
  · obtain ⟨e₁, he₁, s₁⟩ := h.execution k e he
    obtain ⟨e₂, he₂, s₂⟩ := h'.execution k e₁ he₁
    exact ⟨e₂, he₂, s₁.trans s₂⟩

theorem Retired.same {j j' : Job} (h : Retired now j j') : SameJob j j' ∧ j'.status = .retired := by
  obtain ⟨ha, rfl⟩ := h
  exact ⟨⟨rfl, fun _ => rfl⟩, rfl⟩

theorem cancellable_iff {e : Execution} :
    Executions.cancellable e = true ↔ e.status = .pending ∨ e.status = .queued := by
  simp [Executions.cancellable]

theorem CancelStep.same {e e' : Execution} (h : CancelStep now e e') : SameExecution e e' := by
  obtain ⟨hc, rfl⟩ := h
  refine ⟨rfl, rfl, rfl, rfl, rfl, rfl, rfl, rfl, fun _ => rfl, fun ht => ?_⟩
  rcases cancellable_iff.mp hc with hs | hs <;> simp [hs, ExecutionStatus.terminal] at ht

theorem SameJob.columns {j j' : Job} (h : SameJob j j') :
    j'.jobId = j.jobId ∧ j'.endpoint = j.endpoint ∧ j'.endpointType = j.endpointType ∧
      j'.triggerType = j.triggerType ∧ j'.previousVersionId = j.previousVersionId ∧
      j'.idempotencyKey = j.idempotencyKey ∧ j'.input = j.input ∧ j'.cronExpression = j.cronExpression := by
  have hj := h.1
  rw [← hj]
  exact ⟨rfl, rfl, rfl, rfl, rfl, rfl, rfl, rfl⟩

theorem SameJob.version {j j' : Job} (h : SameJob j j') : j'.version = j.version := by
  have hj := h.1
  rw [← hj]

/-- A table in which one row is written: every row is as it was, or is that row. -/
theorem update_cases {β : Type} {f u : Key → Option β} {k₀ : Key} {v : Option β} (h : u = Function.update f k₀ v)
    (k : Key) : (k = k₀ ∧ u k = v) ∨ (k ≠ k₀ ∧ u k = f k) := by
  subst h
  by_cases hk : k = k₀
  · subst hk
    exact Or.inl ⟨rfl, Function.update_self ..⟩
  · exact Or.inr ⟨hk, Function.update_of_ne hk ..⟩

theorem NewExecution.step {kj k : Key} {j : Job} {e : Execution} (h : NewExecution kj j k e)
    {x x' : Option Execution} (hx : x = none) (hx' : x' = some e) : Unworked now x x' := by
  subst hx hx'
  exact .new h.waiting h.attemptCount h.completedAt

/-- A commit is one attempt, or changes neither the attempts nor any execution by an attempt. -/
theorem Commit.attempt_or (c : Commit g req now D D') :
    (D' .attempts = D .attempts ∧ ∀ k, Unworked now (D .executions k) (D' .executions k)) ∨
      ∃ ke ka b e a, AttemptMade now D D' ke ka b e a := by
  have insert : ∀ {kj ke : Key} {j : Job} {e : Execution}, NewExecution kj j ke e → D .executions ke = none →
      D' .executions = Function.update (D .executions) ke (some e) →
      ∀ k, Unworked now (D .executions k) (D' .executions k) := by
    intro kj ke j e hn hu he k
    rcases update_cases he k with ⟨rfl, hv⟩ | ⟨_, hv⟩
    · exact hn.step hu hv
    · rw [hv]
      exact .same _
  have cancel : (∀ k, D' .executions k = D .executions k ∨
      ∃ e e' : Execution, D .executions k = some e ∧ CancelStep now e e' ∧ D' .executions k = some e') →
      ∀ k, Unworked now (D .executions k) (D' .executions k) := by
    intro h k
    rcases h k with he | ⟨e, e', he, step, he'⟩
    · rw [he]
      exact .same _
    · rw [he, he']
      exact .cancel step
  have frame : ∀ {tbs}, Frame D D' tbs → Table.executions ∈ tbs →
      ∀ k, Unworked now (D .executions k) (D' .executions k) := by
    intro tbs h hm k
    rw [h.eq hm]
    exact .same _
  cases c with
  | quiet rest | jobAlone _ _ _ _ _ _ _ rest | scheduled _ _ _ _ _ _ _ rest | cronAlone _ _ _ _ _ _ rest
  | replaced _ _ _ _ _ _ _ _ _ _ rest | cancelledCron _ _ _ _ _ _ rest | retiredAlone _ _ _ _ rest
  | unscheduled _ _ rest => exact Or.inl ⟨rest.eq (by simp), frame rest (by simp)⟩
  | oneShot _ hu _ _ _ hn _ _ he rest => exact Or.inl ⟨rest.eq (by simp), insert hn hu he⟩
  | executionAlone _ _ _ hu hn _ he rest => exact Or.inl ⟨rest.eq (by simp), insert hn hu he⟩
  | ticked _ _ hu hn he rest => exact Or.inl ⟨rest.eq (by simp), insert hn hu he⟩
  | cancelled _ _ _ _ h rest => exact Or.inl ⟨rest.eq (by simp), cancel h⟩
  | cancelledExecutions h rest => exact Or.inl ⟨rest.eq (by simp), cancel h⟩
  | worked found attempt unused schema of he ha _ _ _ =>
    exact Or.inr ⟨_, _, _, _, _, found, attempt, unused, schema, of, he, ha⟩

theorem Commit.execution_step (c : Commit g req now D D') (k : Key) :
    ExecutionStep now (D .executions k) (D' .executions k) := by
  rcases c.attempt_or with ⟨_, h⟩ | ⟨ke, ka, b, e, a, h⟩
  · exact Or.inl (h k)
  · rcases update_cases h.executions k with ⟨rfl, hv⟩ | ⟨_, hv⟩
    · exact Or.inr ⟨b, e, a, h.found, hv, h.attempt⟩
    · rw [hv]
      exact Or.inl (.same _)

theorem Reaped.step {schemaName : String} {k : Key} {b n : Option Job} (h : Reaped now schemaName k b n) :
    JobStep g D D' k b n := by
  obtain ⟨_, j, rfl, _, hr, rfl⟩ := h
  exact .retire hr.1 hr.same.1 hr.same.2 (Or.inl rfl)

theorem Commit.job_step (c : Commit g req now D D') (k : Key) : JobStep g D D' k (D .jobs k) (D' .jobs k) := by
  have insert : ∀ {kj : Key} {j : Job}, NewJob kj j none → D .jobs kj = none →
      D' .jobs = Function.update (D .jobs) kj (some j) → JobStep g D D' k (D .jobs k) (D' .jobs k) := by
    intro kj j hn hf hj
    rcases update_cases hj k with ⟨rfl, hv⟩ | ⟨_, hv⟩
    · rw [hf, hv]
      exact .new hn fun p h => by cases h
    · rw [hv]
      exact .same _
  have retire : ∀ {kj : Key} {j j' : Job}, D .jobs kj = some j → Retired now j j' →
      D' .jobs = Function.update (D .jobs) kj (some j') → JobStep g D D' k (D .jobs k) (D' .jobs k) := by
    intro kj j j' hj hr hu
    rcases update_cases hu k with ⟨rfl, hv⟩ | ⟨_, hv⟩
    · rw [hj, hv]
      exact .retire hr.1 hr.same.1 hr.same.2 (Or.inl (by rw [hr.2]; rfl))
    · rw [hv]
      exact .same _
  have frame : ∀ {tbs}, Frame D D' tbs → Table.jobs ∈ tbs → JobStep g D D' k (D .jobs k) (D' .jobs k) := by
    intro tbs h hm
    rw [h.eq hm]
    exact .same _
  cases c with
  | quiet rest | executionAlone _ _ _ _ _ _ _ rest | ticked _ _ _ _ _ rest | cancelledExecutions _ rest
  | unscheduled _ _ rest => exact frame rest (by simp)
  | oneShot hf _ _ hn _ _ _ hj _ _ => exact insert hn hf hj
  | jobAlone _ _ hf _ hn _ hj _ => exact insert hn hf hj
  | scheduled hf _ hn _ _ hj _ _ => exact insert hn hf hj
  | cronAlone _ hf _ hn _ hj _ => exact insert hn hf hj
  | cancelled hj _ hr hu _ _ => exact retire hj hr.retired hu
  | cancelledCron hj _ hr hu _ _ _ => exact retire hj hr.retired hu
  | retiredAlone _ hj hr hu _ => exact retire hj hr hu
  | worked _ _ _ _ _ _ _ jobs _ _ =>
    rcases jobs k with h | h
    · rw [h]
      exact .same _
    · exact h.step
  | @replaced ko kn j _ hf _ hschema hn _ _ old _ _ succeeds _ =>
    have hko : (⟨kn.schema, ko.id⟩ : Key) = ko := by rw [hschema]
    have hne : ∀ {b : Job}, D .jobs ko = some b → ko ≠ kn := by
      rintro b hb rfl
      rw [hf] at hb
      cases hb
    have new : D' .jobs kn = some j → Based g D D' ko kn j → JobStep g D D' kn (D .jobs kn) (D' .jobs kn) := by
      intro hv based
      rw [hf, hv]
      refine .new hn fun p hp => ?_
      cases hp
      rw [hko]
      exact based
    rcases old with ⟨b, b', hb, ha, hs, hr, hj, _, link⟩ | ⟨loose, ⟨b, hb, hr⟩, hj⟩
    · have hb' : D' .jobs ko = some b' := by
        rw [hj, Function.update_of_ne (hne hb), Function.update_self]
      rcases update_cases hj k with ⟨rfl, hv⟩ | ⟨_, hv⟩
      · refine new hv ⟨fun k' hk hn' => ?_, succeeds, ⟨b', hb', hr⟩, fun _ => ⟨b, hb, ha⟩⟩
        have hk' : k' ≠ ko := by
          rintro rfl
          rw [hb] at hn'
          cases hn'
        rw [hj, Function.update_of_ne hk, Function.update_of_ne hk', hn']
      · rw [hv]
        rcases update_cases (u := Function.update (D .jobs) ko (some b')) rfl k with ⟨rfl, hv'⟩ | ⟨_, hv'⟩
        · rw [hv', hb]
          refine .retire ha hs hr (Or.inr ⟨link, kn, j, hschema, ?_, hn.previousVersionId⟩)
          rw [hj, Function.update_self]
        · rw [hv']
          exact .same _
    · rcases update_cases hj k with ⟨rfl, hv⟩ | ⟨_, hv⟩
      · refine new hv ⟨fun k' hk hn' => ?_, succeeds, ⟨b, ?_, hr⟩, fun exact => (loose exact).elim⟩
        · rw [hj, Function.update_of_ne hk, hn']
        · rw [hj, Function.update_of_ne (hne hb), hb]
      · rw [hv]
        exact .same _

theorem Commit.later (c : Commit g req now D D') : Later D D' := by
  refine ⟨fun k j hj => ?_, fun k e he => ?_⟩
  · have step := c.job_step k
    rw [hj] at step
    generalize D' .jobs k = x at step
    cases step with
    | same => exact ⟨j, rfl, sameJob_refl j⟩
    | retire _ hs _ _ => exact ⟨_, rfl, hs⟩
  · have step := c.execution_step k
    rw [he] at step
    generalize D' .executions k = x at step
    rcases step with step | ⟨b, e', a, hb, rfl, attempt⟩
    · cases step with
      | same => exact ⟨e, rfl, sameExecution_refl e⟩
      | cancel hs => exact ⟨_, rfl, hs.same⟩
    · cases hb
      exact ⟨e', rfl, attempt.same⟩

end Invokr
