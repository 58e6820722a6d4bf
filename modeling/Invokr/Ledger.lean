import Invokr.Steps

namespace Invokr

open TxLib

variable {env : Setup} {g : Guard (service env)} {req : Request env} {now : Int} {D D' : Rows Pg}

/-- What holds of a committed execution between its attempts. -/
structure Settled (e : Execution) : Prop where
  notRunning : e.status ≠ .running
  nonneg : 0 ≤ e.attemptCount
  untried : e.status = .pending ∨ e.status = .queued ∨ e.status = .cancelled → e.attemptCount = 0
  retrying : e.status = .retrying → e.attemptCount < e.maxAttempts
  bound : e.attemptCount ≤ max 1 e.maxAttempts
  completed : e.completedAt.isSome = e.status.terminal

/-- The attempts of an execution are numbered 1 to its count, all but the last have failed, and the
last one is a success if the execution is. -/
structure Ledger (D : Rows Pg) : Prop where
  settled : ∀ k (e : Execution), D .executions k = some e → Settled e
  attempt : ∀ k (a : Attempt), D .attempts k = some a → ∃ e : Execution,
    D .executions ⟨k.schema, a.executionId⟩ = some e ∧ 1 ≤ a.attemptNumber ∧ a.attemptNumber ≤ e.attemptCount ∧
      (a.attemptNumber < e.attemptCount → a.status = .failed) ∧
      (a.attemptNumber = e.attemptCount → (a.status = .success ↔ e.status = .success))
  complete : ∀ k (e : Execution), D .executions k = some e → ∀ n : Int, 1 ≤ n → n ≤ e.attemptCount →
    ∃ ka, ∃ a : Attempt, D .attempts ka = some a ∧ ka.schema = k.schema ∧ a.executionId = k.id ∧ a.attemptNumber = n

theorem eligible_status {e : Execution} (h : Executions.eligible now e = true) :
    (e.status = .queued ∨ e.status = .retrying ∨ e.status = .pending) ∧ e.runAt ≤ now := by
  simp only [Executions.eligible, Bool.and_eq_true, Bool.or_eq_true, decide_eq_true_eq] at h
  exact ⟨by tauto, h.2⟩

theorem Worked.settled {b e : Execution} {a : Attempt} (h : Worked now b e a) (hb : Settled b) : Settled e := by
  have hm := h.same.maxAttempts
  have hc := h.counted
  have hn := hb.nonneg
  have hbound : e.attemptCount ≤ max 1 e.maxAttempts := by
    rcases (eligible_status h.eligible).1 with hs | hs | hs
    · have := hb.untried (by simp [hs])
      omega
    · have := hb.retrying hs
      omega
    · have := hb.untried (by simp [hs])
      omega
  rcases h.outcome with ⟨hs, _, hd⟩ | ⟨hs, _, hd⟩ | ⟨hs, _, hd, hl⟩
  · exact ⟨by simp [hs], by omega, by simp [hs], by simp [hs], hbound, by simp [hs, hd, ExecutionStatus.terminal]⟩
  · exact ⟨by simp [hs], by omega, by simp [hs], by simp [hs], hbound, by simp [hs, hd, ExecutionStatus.terminal]⟩
  · exact ⟨by simp [hs], by omega, by simp [hs], fun _ => hl, hbound, by simp [hs, hd, ExecutionStatus.terminal]⟩

theorem CancelStep.settled {e e' : Execution} (h : CancelStep now e e') (he : Settled e) : Settled e' := by
  obtain ⟨hc, rfl⟩ := h
  have zero : e.attemptCount = 0 := he.untried (by rcases cancellable_iff.mp hc with hs | hs <;> simp [hs])
  exact ⟨by simp [Executions.cancelPatch], he.nonneg, fun _ => zero, by simp [Executions.cancelPatch], he.bound, rfl⟩

theorem Unworked.settled {x x' : Option Execution} (h : Unworked now x x')
    (hx : ∀ e, x = some e → Settled e) {e : Execution} (he : x' = some e) : Settled e := by
  cases h with
  | same => exact hx e he
  | new hw ha hd =>
    cases he
    rcases cancellable_iff.mp hw with hs | hs
    · exact ⟨by simp [hs], by omega, fun _ => ha, by simp [hs], by omega, by simp [hs, hd, ExecutionStatus.terminal]⟩
    · exact ⟨by simp [hs], by omega, fun _ => ha, by simp [hs], by omega, by simp [hs, hd, ExecutionStatus.terminal]⟩
  | cancel step =>
    cases he
    exact step.settled (hx _ rfl)

/-- Counts and successes change by attempts only. -/
theorem Unworked.uncounted {x x' : Option Execution} (h : Unworked now x x') {e' : Execution} (he' : x' = some e') :
    (x = none ∧ e'.attemptCount = 0) ∨ ∃ e : Execution, x = some e ∧ e'.attemptCount = e.attemptCount ∧
      (e'.status = .success ↔ e.status = .success) := by
  cases h with
  | same => exact Or.inr ⟨e', he', rfl, Iff.rfl⟩
  | new _ hz _ =>
    cases he'
    exact Or.inl ⟨rfl, hz⟩
  | @cancel e _ step =>
    cases he'
    obtain ⟨hc, rfl⟩ := step
    refine Or.inr ⟨e, rfl, rfl, ⟨fun h => by simp [Executions.cancelPatch] at h, fun h => ?_⟩⟩
    rcases cancellable_iff.mp hc with hs | hs <;> simp [hs] at h

theorem Ledger.unworked (l : Ledger D) (later : Later D D') (ha : D' .attempts = D .attempts)
    (h : ∀ k, Unworked now (D .executions k) (D' .executions k)) : Ledger D' where
  settled k e he := (h k).settled (l.settled k) he
  attempt k a hk := by
    rw [ha] at hk
    obtain ⟨e, he, h1, h2, h3, h4⟩ := l.attempt k a hk
    obtain ⟨e', he', _⟩ := later.execution _ e he
    obtain ⟨hn, _⟩ | ⟨e₀, he₀, hc, hs⟩ := (h _).uncounted he'
    · rw [he] at hn
      cases hn
    · rw [he] at he₀
      cases he₀
      exact ⟨e', he', h1, hc ▸ h2, fun hlt => h3 (hc ▸ hlt), fun heq => (h4 (hc ▸ heq)).trans hs.symm⟩
  complete k e' he' n h1 hn := by
    rw [ha]
    obtain ⟨_, hz⟩ | ⟨e, he, hc, _⟩ := (h k).uncounted he'
    · omega
    · exact l.complete k e he n h1 (hc ▸ hn)

theorem Ledger.attemptMade (l : Ledger D) {ke ka : Key} {b e : Execution} {a : Attempt}
    (h : AttemptMade now D D' ke ka b e a) : Ledger D' where
  settled k x hx := by
    rcases update_cases h.executions k with ⟨rfl, hv⟩ | ⟨_, hv⟩
    · rw [hv] at hx
      cases hx
      exact h.attempt.settled (l.settled k b h.found)
    · exact l.settled k x (hv ▸ hx)
  attempt k x hx := by
    rcases update_cases h.attempts k with ⟨rfl, hv⟩ | ⟨_, hv⟩
    · rw [hv] at hx
      cases hx
      have hk : (⟨k.schema, a.executionId⟩ : Key) = ke := by rw [h.schema, h.of]
      have hn := h.attempt.number
      have hc := h.attempt.counted
      have h0 := (l.settled ke b h.found).nonneg
      refine ⟨e, by rw [hk, h.executions, Function.update_self], by omega, by omega, by omega, fun _ => ?_⟩
      rcases h.attempt.outcome with ⟨hs, hs', _⟩ | ⟨hs, hs', _⟩ | ⟨hs, hs', _⟩ <;> simp [hs, hs']
    · rw [hv] at hx
      obtain ⟨x', hx', h1, h2, h3, h4⟩ := l.attempt k x hx
      rcases update_cases h.executions ⟨k.schema, x.executionId⟩ with ⟨hk, hv'⟩ | ⟨_, hv'⟩
      · have hb : x' = b := by
          rw [hk, h.found] at hx'
          exact (Option.some.inj hx').symm
        subst hb
        have hc := h.attempt.counted
        refine ⟨e, hv', h1, by omega, fun _ => ?_, fun _ => by omega⟩
        rcases Int.lt_or_eq_of_le h2 with hlt | heq
        · exact h3 hlt
        · have hne : x'.status ≠ .success := by
            rcases (eligible_status h.attempt.eligible).1 with hs | hs | hs <;> simp [hs]
          cases hst : x.status with
          | failed => rfl
          | success => exact absurd ((h4 heq).mp hst) hne
      · exact ⟨x', hv'.trans hx', h1, h2, h3, h4⟩
  complete k x hx n h1 hn := by
    have keep : ∀ k' (y : Attempt), D .attempts k' = some y → D' .attempts k' = some y := by
      intro k' y hy
      rcases update_cases h.attempts k' with ⟨rfl, _⟩ | ⟨_, hv⟩
      · rw [h.unused] at hy
        cases hy
      · exact hv.trans hy
    rcases update_cases h.executions k with ⟨rfl, hv⟩ | ⟨_, hv⟩
    · rw [hv] at hx
      cases hx
      have hc := h.attempt.counted
      by_cases hlast : n = e.attemptCount
      · exact ⟨ka, a, by rw [h.attempts, Function.update_self], h.schema, h.of, h.attempt.number.trans hlast.symm⟩
      · obtain ⟨k', y, hy, rest⟩ := l.complete k b h.found n h1 (by omega)
        exact ⟨k', y, keep k' y hy, rest⟩
    · obtain ⟨k', y, hy, rest⟩ := l.complete k x (hv ▸ hx) n h1 hn
      exact ⟨k', y, keep k' y hy, rest⟩

theorem Ledger.commit (l : Ledger D) (c : Commit g req now D D') : Ledger D' := by
  rcases c.attempt_or with ⟨ha, h⟩ | ⟨ke, ka, b, e, a, h⟩
  · exact l.unworked c.later ha h
  · exact l.attemptMade h

end Invokr
