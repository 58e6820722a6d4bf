import Invokr.Runs

namespace Invokr

open TxLib

variable {env : Setup} {g : Guard (service env)}

/-- The thread's transaction is open and has claimed the execution. -/
def HoldsClaim (w : World Pg) (t : Nat) (k : Key) : Prop :=
  ∃ s b, w.sessions t = some s ∧ s.aborted = false ∧
    Entry.updated (M := Pg) .claim .executions k b ∈ current (w.history t)

theorem logged_run (acts : List (Action (service env))) (t : Nat) : Logged ((after acts).world.view t) := by
  induction acts using List.reverseRecOn generalizing t with
  | nil =>
    intro stmt tb k b hm
    cases hm
  | append_singleton acts x ih =>
    have hrun : after (acts ++ [x]) = (after acts).act x := by simp [after, Pool.run_append]
    rw [hrun]
    exact Pool.logged_act (keeps_all acts).sound ih t

theorem HoldsClaim.held {acts : List (Action (service env))} {t : Nat} {k : Key} (h : HoldsClaim (after acts).world t k) :
    (after acts).world.locks .executions k = some t := by
  obtain ⟨s, b, hs, ha, hm⟩ := h
  obtain ⟨s', hs', held⟩ := logged_run acts t .claim .executions k b hm
  have hs'' : (after acts).world.sessions t = some s' := hs'
  rw [hs] at hs''
  cases hs''
  obtain ⟨x, hx, _⟩ := held ha
  exact ((keeps_all acts).sound.held t s .executions k x hs hx).1

/-- The action is the claim of the execution by the thread, which finds the committed row `b`. -/
structure Claims (before : List (Action (service env))) (x : Action (service env)) (t : Nat) (k : Key) (s : Session Pg)
    (b : Execution) : Prop where
  session : (after before).world.sessions t = some s
  found : (after before).world.rows .executions k = some b
  status : b.status = .queued ∨ b.status = .retrying ∨ b.status = .pending
  due : b.runAt ≤ s.now
  logged : (after (before ++ [x])).world.history t =
    (after before).world.history t ++ [.updated .claim .executions k (some b)]

theorem claims_of_logs {before : List (Action (service env))} {x : Action (service env)} {t : Nat} {k : Key}
    {b : Execution} (h : (after before).Logs t x (.updated .claim .executions k (some b)))
    (hl : (after (before ++ [x])).world.history t =
      (after before).world.history t ++ [.updated .claim .executions k (some b)]) :
    ∃ s, Claims before x t k s b := by
  have keeps := keeps_all before
  cases h with
  | @call e th o next w r _ hth ha hp he hes =>
    obtain ⟨skip, keep, patch, rfl⟩ := entries_updated hes
    obtain ⟨w₀, _, hv, pre⟩ := keeps_pre keeps hth ha hp
    obtain ⟨s, row, old, hs, hlive, hy, _, hvis, hkeep⟩ := entries_update hes
    obtain ⟨_, rfl, s₀, l, hv₀, quiet⟩ := pre.2
    obtain rfl : s₀ = s := by
      have : some s₀ = some s := by rw [← hs]; exact (congrArg Prod.fst (hv.trans hv₀)).symm
      exact Option.some.inj this
    have quiet' : Quiet (M := Pg) .executions s₀ := quiet.resolve_left (by simp [hlive])
    have hrow : (after before).world.rows .executions k = some old := by
      rw [← keeps.sound.quiet_visible hs quiet' k]
      exact hvis
    have hbase : s₀.baseOf (after before).world.rows .executions k = some old := by
      unfold Session.baseOf
      cases hh : s₀.held .executions k with
      | none => exact hrow
      | some x => exact (keeps.sound.held t s₀ .executions k x hs hh).2.symm.trans hrow
    have hb : b = old := by
      have := (Entry.updated.inj hy).2.2
      exact Option.some.inj ((eq_of_heq this.2).trans hbase)
    subst hb
    obtain ⟨hst, hdue⟩ := eligible_status hkeep
    exact ⟨s₀, hs, hrow, hst, hdue, hl⟩

/-- No two open transactions hold a claim on one execution. Every dispatch follows, in one
transaction, a claim that found the execution waiting and due, and at no moment up to that claim had
the execution come to its end. -/
theorem claim_exclusive_and_eligible (acts : List (Action (service env))) :
    (∀ t t' k, HoldsClaim (after acts).world t k → HoldsClaim (after acts).world t' k → t = t') ∧
      ∀ t req d, (after acts).next t = some (req, .ext (.dispatch d)) →
        ∃ before x rest s b l, acts = before ++ x :: rest ∧ Claims before x t d.key s b ∧
          (after acts).world.history t = (after (before ++ [x])).world.history t ++ l ∧ (∀ y ∈ l, y.inside = true) ∧
          ∀ earlier between, before = earlier ++ between → ∀ e : Execution,
            (after earlier).world.rows .executions d.key = some e → e.status.terminal = false := by
  refine ⟨fun t t' k h h' => Option.some.inj (h.held.symm.trans h'.held), fun t req d hnext => ?_⟩
  obtain ⟨th, next, hth, ha, _, hp⟩ := Pool.waits hnext
  obtain ⟨w₀, _, hv, pre⟩ := keeps_pre (keeps_all acts) hth ha hp
  obtain ⟨_, s, l, b, hv₀, hm, _⟩ := pre.2
  have hist : (after acts).world.history t = l := congrArg Prod.snd (hv.trans hv₀)
  obtain ⟨l₁, l₂, hl, inside⟩ := current_split hm
  obtain ⟨before, x, rest, hacts, hbefore, hafter, logs⟩ := Pool.log_origin (hist.trans hl)
  obtain ⟨s₁, claims⟩ := claims_of_logs logs (by rw [hbefore]; exact hafter)
  refine ⟨before, x, rest, s₁, b, l₂, hacts, claims, ?_, inside, ?_⟩
  · rw [hist, hl, hafter]
    simp
  · intro earlier between hb e he
    cases hterm : e.status.terminal with
    | false => rfl
    | true =>
      have later := later_run (keeps_all earlier) (Pool.meets_all _ between)
      obtain ⟨e', he', same⟩ := later.execution d.key e he
      rw [← Pool.run_append, ← hb] at he'
      have hsame : b = e := (Option.some.inj (claims.found.symm.trans he')).trans (same.ended hterm)
      have hst := claims.status
      rw [hsame] at hst
      rcases hst with h | h | h <;> simp [h, ExecutionStatus.terminal] at hterm

/-- The dispatch of a run with one attempt has its claim. -/
theorem claim_exclusive_and_eligible_one : ∃ t req d before x rest s b,
    (after ((oneAttempt (.response 200 "")).take 32)).next t = some (req, .ext (.dispatch d)) ∧
      (oneAttempt (.response 200 "")).take 32 = before ++ x :: rest ∧ Claims before x t d.key s b := by
  have waits : (nextDispatch (after ((oneAttempt (.response 200 "")).take 32)) 3).isSome = true := by decide +kernel
  obtain ⟨d, hd⟩ := Option.isSome_iff_exists.mp waits
  obtain ⟨req, hn⟩ := nextDispatch_next hd
  obtain ⟨before, x, rest, s, b, _, hacts, claims, _⟩ := (claim_exclusive_and_eligible _).2 3 req d hn
  exact ⟨3, req, d, before, x, rest, s, b, hn, hacts, claims⟩

end Invokr
