import Invokr.Runs

namespace Invokr

open TxLib

variable {env : Setup} {g : Guard (service env)}

section machine

/-- The changes a committed execution may undergo. -/
inductive Transition (e e' : Execution) : Prop where
  | attempted (ready : e.status = .pending ∨ e.status = .queued ∨ e.status = .retrying)
      (outcome : e'.status = .success ∨ e'.status = .failed ∨ e'.status = .retrying)
      (counted : e'.attemptCount = e.attemptCount + 1)
  | cancelled (waiting : e.status = .pending ∨ e.status = .queued) (status : e'.status = .cancelled)
      (uncounted : e'.attemptCount = e.attemptCount)

theorem Worked.transition {now : Int} {b e : Execution} {a : Attempt} (h : Worked now b e a) : Transition b e := by
  refine .attempted ?_ ?_ h.counted
  · rcases (eligible_status h.eligible).1 with hs | hs | hs
    · exact Or.inr (Or.inl hs)
    · exact Or.inr (Or.inr hs)
    · exact Or.inl hs
  · rcases h.outcome with ⟨hs, _⟩ | ⟨hs, _⟩ | ⟨hs, _⟩
    · exact Or.inl hs
    · exact Or.inr (Or.inl hs)
    · exact Or.inr (Or.inr hs)

theorem Commit.transition {req : Request env} {now : Int} {D D' : Rows Pg} (c : Commit g req now D D') {k : Key}
    {e : Execution} (he : D .executions k = some e) :
    ∃ e' : Execution, D' .executions k = some e' ∧ (e' = e ∨ Transition e e') := by
  have step := c.execution_step k
  rw [he] at step
  generalize D' .executions k = y at step
  rcases step with step | ⟨b, e', a, hb, rfl, attempt⟩
  · cases step with
    | same => exact ⟨e, rfl, Or.inl rfl⟩
    | cancel hs =>
      obtain ⟨hc, rfl⟩ := hs
      exact ⟨_, rfl, Or.inr (.cancelled (cancellable_iff.mp hc) rfl rfl)⟩
  · cases hb
    exact ⟨e', rfl, Or.inr attempt.transition⟩

/-- The life of an execution: what holds of it between the actions of a run, what one action makes
of it, and that its end is final. -/
theorem execution_state_machine (acts : List (Action (service env))) (k : Key) (e : Execution)
    (he : (after acts).world.rows .executions k = some e) :
    Settled e ∧
      (∀ x, ∃ e' : Execution, (after (acts ++ [x])).world.rows .executions k = some e' ∧ (e' = e ∨ Transition e e')) ∧
      (e.status.terminal = true → ∀ later, (after (acts ++ later)).world.rows .executions k = some e) := by
  have keeps := keeps_all acts
  refine ⟨keeps.inv.ledger.settled k e he, fun x => ?_, fun ended later => ?_⟩
  · obtain ⟨_, _, c⟩ := act_commit keeps (x := x) (Pool.meets_all _ [x]).1 (.tick "")
    have hrun : after (acts ++ [x]) = (after acts).act x := by simp [after, Pool.run_append]
    rw [hrun]
    exact c.transition he
  · obtain ⟨e', he', same⟩ := (later_run keeps (Pool.meets_all _ later)).execution k e he
    rw [after, Pool.run_append, he', same.ended ended]

/-- The execution of a run in which the receiver refuses the first attempt. -/
theorem execution_state_machine_refused : ∃ k, ∃ e : Execution,
    (after (oneAttempt (.response 500 ""))).world.rows .executions k = some e ∧ e.status = .retrying ∧ Settled e := by
  have found : (((after (oneAttempt (.response 500 ""))).world.rows .executions ⟨"acme", sampleId 209⟩).map
      Execution.status) = some .retrying := by decide +kernel
  obtain ⟨e, he, hs⟩ := Option.map_eq_some_iff.mp found
  exact ⟨_, e, he, hs, (execution_state_machine _ _ e he).1⟩

end machine

section ledger

/-- The row is an attempt of the execution. -/
def AttemptOf (D : Rows Pg) (k ka : Key) (a : Attempt) : Prop :=
  D .attempts ka = some a ∧ ka.schema = k.schema ∧ a.executionId = k.id

theorem AttemptOf.within {D : Rows Pg} (l : Ledger D) {k ka : Key} {e : Execution} {a : Attempt}
    (he : D .executions k = some e) (h : AttemptOf D k ka a) : 1 ≤ a.attemptNumber ∧ a.attemptNumber ≤ e.attemptCount ∧
      (a.attemptNumber < e.attemptCount → a.status = .failed) ∧
      (a.attemptNumber = e.attemptCount → (a.status = .success ↔ e.status = .success)) := by
  obtain ⟨ha, hs, hid⟩ := h
  obtain ⟨e', he', rest⟩ := l.attempt ka a ha
  have hk : (⟨ka.schema, a.executionId⟩ : Key) = k := by rw [hs, hid]
  rw [hk, he] at he'
  cases he'
  exact rest

/-- The attempts of an execution are one for each number up to its count; all but the last have
failed, and the last has succeeded if the execution has. -/
theorem attempt_ledger (acts : List (Action (service env))) (k : Key) (e : Execution)
    (he : (after acts).world.rows .executions k = some e) :
    (∀ n : Int, 1 ≤ n ∧ n ≤ e.attemptCount ↔
        ∃ ka, ∃ a : Attempt, AttemptOf (after acts).world.rows k ka a ∧ a.attemptNumber = n) ∧
      (∀ ka ka', ∀ a a' : Attempt, AttemptOf (after acts).world.rows k ka a → AttemptOf (after acts).world.rows k ka' a' →
        a.attemptNumber = a'.attemptNumber → ka = ka') ∧
      (∀ ka, ∀ a : Attempt, AttemptOf (after acts).world.rows k ka a → a.attemptNumber ≠ e.attemptCount →
        a.status = .failed) ∧
      ∀ ka, ∀ a : Attempt, AttemptOf (after acts).world.rows k ka a → a.attemptNumber = e.attemptCount →
        (a.status = .success ↔ e.status = .success) := by
  have keeps := keeps_all acts
  have l := keeps.inv.ledger
  refine ⟨fun n => ⟨fun ⟨h₁, h₂⟩ => ?_, ?_⟩, ?_, fun ka a h hne => ?_, fun ka a h => (h.within l he).2.2.2⟩
  · obtain ⟨ka, a, ha, hs, hid, hn⟩ := l.complete k e he n h₁ h₂
    exact ⟨ka, a, ⟨ha, hs, hid⟩, hn⟩
  · rintro ⟨ka, a, h, rfl⟩
    exact ⟨(h.within l he).1, (h.within l he).2.1⟩
  · rintro ka ka' a a' ⟨ha, hs, hid⟩ ⟨ha', hs', hid'⟩ hn
    refine keeps.sound.unique .attempts ka ka' a a' (Or.inl ha) (Or.inl ha') ?_ (Option.some_ne_none _)
    simp only [Table.unique, hs, hs', hid, hid', hn]
  · have hw := h.within l he
    exact hw.2.2.1 (by omega)

/-- A run whose only attempt succeeds. -/
theorem attempt_ledger_success : ∃ k ka, ∃ a : Attempt,
    AttemptOf (after (oneAttempt (.response 200 ""))).world.rows k ka a ∧ a.attemptNumber = 1 ∧ a.status = .success := by
  have found : (((after (oneAttempt (.response 200 ""))).world.rows .executions ⟨"acme", sampleId 209⟩).map
      fun (e : Execution) => (e.status, e.attemptCount)) = some (.success, 1) := by decide +kernel
  obtain ⟨e, he, hs⟩ := Option.map_eq_some_iff.mp found
  obtain ⟨hstatus, hcount⟩ := Prod.mk.inj hs
  have ledger := attempt_ledger _ _ e he
  obtain ⟨ka, a, ha, hn⟩ := (ledger.1 1).mp ⟨by omega, by omega⟩
  exact ⟨_, ka, a, ha, hn, (ledger.2.2.2 ka a ha (by omega)).mpr hstatus⟩

end ledger

end Invokr
