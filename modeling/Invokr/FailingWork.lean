import Invokr.Ongoing
import Invokr.UsesWork

namespace Invokr

open TxLib

/-- The execution that the call has claimed. -/
def claimsOf : Exchange Pg → Option Key
  | ⟨.update .claim .executions k _ _ _, _, .ok (some (e : Execution)), _⟩ => if e.executionId = k.id then some k else none
  | _ => none

/-- The call begins to mark an execution failed. -/
def marksFailed : Op Pg → Bool
  | .snapshot .completeFailed => true
  | _ => false

def HasClaimed (xs : List (Exchange Pg)) (k : Key) : Prop := ∃ x ∈ xs, claimsOf x = some k

def HasDecided (xs : List (Exchange Pg)) : Prop := ∃ x ∈ xs, marksFailed x.op = true

/-- The calls have claimed such executions only, and have marked one failed only if `d`. -/
def Marks (c : Key → Prop) (d : Prop) (xs : List (Exchange Pg)) : Prop :=
  (∀ k, HasClaimed xs k → c k) ∧ (HasDecided xs → d)

/-- The transaction holds the execution with this status. -/
def HoldsIn (k : Key) (status : ExecutionStatus) (s : Session Pg) : Prop :=
  ∃ b, ∃ e : Execution, s.held .executions k = some ⟨b, some e⟩ ∧ e.status = status

/-- What a worker knows as it ends a transaction in which it has marked an execution failed. -/
def Verdict (m : Memory Pg) (o : Op Pg) : Prop :=
  (o = .commit ∨ o = .rollback) → ∀ k, HasClaimed (sinceBegin m.2) k → HasDecided (sinceBegin m.2) →
    ∃ s, m.1 = some s ∧ s.aborted = (sinceBegin m.2).any Exchange.rejected ∧
      (s.aborted = false → o = .commit ∧ HoldsIn k .failed s)

/-- The worker's transaction has claimed the execution `k`, if that is its own, and marked it failed only if `d`. -/
def Stage (own : Prop) (k : Key) (d : Prop) (Q : Session Pg → Prop) : Memory Pg → Prop :=
  Ongoing (Marks (fun k' => k' = k ∧ own) d) fun s => own → Q s

abbrev InHand (own : Prop) (k : Key) : Memory Pg → Prop := Stage own k False (HoldsIn k .running)

abbrev Doomed (own : Prop) (k : Key) : Memory Pg → Prop := Stage own k True (HoldsIn k .failed)

abbrev Dealt (own : Prop) (k : Key) : Memory Pg → Prop := Stage own k False fun _ => True

section marks

variable {c c' : Key → Prop} {d d' : Prop} {xs : List (Exchange Pg)} {x : Exchange Pg} {o : Op Pg}

theorem marks_nil : Marks c d [] :=
  ⟨fun _ ⟨_, hx, _⟩ => absurd hx List.not_mem_nil, fun ⟨_, hx, _⟩ => absurd hx List.not_mem_nil⟩

theorem Marks.snoc (h : Marks c d xs) (hc : ∀ k, claimsOf x = some k → c' k) (hd : marksFailed x.op = true → d')
    (wider : ∀ k, c k → c' k) (later : d → d') : Marks c' d' (xs ++ [x]) := by
  constructor
  · rintro k ⟨y, hy, hk⟩
    rcases List.mem_append.mp hy with hy | hy
    · exact wider k (h.1 k ⟨y, hy, hk⟩)
    · rw [List.mem_singleton.mp hy] at hk
      exact hc k hk
  · rintro ⟨y, hy, hf⟩
    rcases List.mem_append.mp hy with hy | hy
    · exact later (h.2 ⟨y, hy, hf⟩)
    · rw [List.mem_singleton.mp hy] at hf
      exact hd hf

/-- A call that neither claims an execution nor marks one failed. -/
def Uneventful (o : Op Pg) : Prop := (∀ env r D, claimsOf ⟨o, env, r, D⟩ = none) ∧ marksFailed o = false

theorem Uneventful.admitted (h : Uneventful o) : Admitted (Marks c d) o := by
  rintro xs ⟨op, env, r, D⟩ rfl made
  refine made.snoc (fun k hk => ?_) (fun hf => ?_) (fun _ => id) id
  · rw [h.1 env r D] at hk
    cases hk
  · rw [h.2] at hf
    cases hf

theorem uneventful_update {stmt : Statement} {tb : Table} {k : Key} {skip : Bool} {keep : Int → tb.Row → Bool}
    {patch : Patch Pg tb} (h : stmt ≠ .claim) : Uneventful (.update stmt tb k skip keep patch) := by
  refine ⟨fun env r D => ?_, rfl⟩
  unfold claimsOf
  split
  next hx => 
    cases hx
    exact (h rfl).elim
  next => rfl

theorem uneventful_snapshot {stmt : Statement} (h : stmt ≠ .completeFailed) : Uneventful (.snapshot stmt) := by
  refine ⟨fun _ _ _ => rfl, ?_⟩
  unfold marksFailed
  split
  next hx =>
    cases hx
    exact (h rfl).elim
  next => rfl

/-- Beside the executions a worker writes to any table. -/
theorem within_uneventful : Within fun o => o.Inside (fun tb : Table => tb ≠ .executions) (fun _ => True) ∧ Uneventful o where
  ext _ := ⟨trivial, fun _ _ _ => rfl, rfl⟩
  halt := ⟨trivial, fun _ r => r.elim, rfl⟩
  read _ h := ⟨trivial, uneventful_snapshot h⟩
  attempt _ := ⟨nofun, fun _ _ _ => rfl, rfl⟩
  log _ := ⟨nofun, fun _ _ _ => rfl, rfl⟩
  retire _ _ := ⟨nofun, uneventful_update (by decide)⟩
  drop _ := ⟨nofun, fun _ _ _ => rfl, rfl⟩

end marks

section stages

variable {env : Setup} {db : DbContext} {own : Prop} {k : Key} {d : Prop} {Q : Session Pg → Prop} {m : Memory Pg}
  {α : Type}

theorem verdict_begin : Verdict m .begin := by
  rintro (h | h)
  · cases h
  · cases h

theorem verdict_inside {T : Table → Prop} {E : External → Prop} {o : Op Pg} (ho : o.Inside T E) : Verdict m o := by
  rintro (rfl | rfl)
  · exact ho.elim
  · exact ho.elim

/-- A part of the work that neither claims nor decides. -/
theorem Stage.uneventful {p : Program Pg α} (hp : p.Uses fun o => o.Inside (fun tb : Table => tb ≠ .executions) (fun _ => True) ∧ Uneventful o)
    (apart : Apart (M := Pg) (fun tb : Table => tb ≠ .executions) Q) (h : Stage own k d Q m) :
    p.Holds Recalls Verdict (fun _ m' => Stage own k d Q m') m :=
  Ongoing.uses (hp.mono fun _ ho => ⟨ho.1, ho.2.admitted⟩) (fun s s' hn same hQ hown => apart s s' hn same (hQ hown))
    (fun _ _ ho => verdict_inside ho) h

theorem apart_holdsIn {status : ExecutionStatus} :
    Apart (M := Pg) (fun tb : Table => tb ≠ .executions) (HoldsIn k status) := by
  rintro s s' - same ⟨b, e, hh, he⟩
  exact ⟨b, e, by rw [same .executions fun h => h rfl]; exact hh, he⟩

theorem apart_true : Apart (M := Pg) (fun tb : Table => tb ≠ .executions) fun _ => True := fun _ _ _ _ _ => trivial

theorem Doomed.commit (h : Doomed own k m) : Verdict m .commit := by
  obtain ⟨s, hs, aborted, made, held⟩ := h
  intro _ k' claimed _
  obtain ⟨rfl, hown⟩ := made.1 k' claimed
  exact ⟨s, hs, aborted, fun live => ⟨rfl, held live hown⟩⟩

theorem Stage.undecided {o : Op Pg} (h : Stage own k False Q m) : Verdict m o := by
  obtain ⟨s, _, _, made, _⟩ := h
  exact fun _ _ _ decided => (made.2 decided).elim

/-- The end of a transaction that is aborted. -/
theorem Stage.lost {o : Op Pg} (h : Stage own k d (fun _ => False) m) : Verdict m o := by
  obtain ⟨s, hs, aborted, made, held⟩ := h
  exact fun _ k' claimed _ => ⟨s, hs, aborted, fun live => (held live (made.1 k' claimed).2).elim⟩

/-- The statement that marks the execution failed succeeds or aborts the transaction. -/
theorem walks_completeFailed {executionId : String} (inside : db.inTx = true) (hk : own → db.key executionId = k)
    (h : InHand own k m) :
    (Executions.completeFailed db executionId).run.Holds Recalls Verdict (fun _ m' => Doomed own k m') m := by
  have walk : Tries Recalls Verdict (fun _ m' => Doomed own k m') (fun _ m' => Doomed own k m')
      (updateOne .completeFailed .executions (db.key executionId) Executions.isRunning Executions.failedPatch) m := by
    refine tries_bind (ongoing_query (N := Marks (fun k' => k' = k ∧ own) True) h (fun xs x hx made => ?_)
      (verdict_inside (T := fun _ => True) (E := fun _ => True) trivial) (fun m₁ s D keys held h₁ => ?_) fun e m₁ h₁ => ?_)
    · obtain ⟨_, _, _, _⟩ := x
      cases hx
      exact made.snoc (fun _ hc => by cases hc) (fun _ => trivial) (fun _ => id) fun _ => trivial
    · have seen : own → ∃ e : Execution, s.visible D .executions (db.key executionId) = some e ∧ e.status = .running := by
        intro hown
        obtain ⟨b, e, hh, he⟩ := held hown
        exact ⟨e, by simp [hk hown, Session.visible, hh], he⟩
      have skipped (hn : ¬own) : Doomed own k m₁ := h₁.mono (fun _ => id) fun _ _ hown => (hn hown).elim
      dsimp only
      split
      next hv =>
        refine tries_pure (skipped fun hown => ?_)
        obtain ⟨e, he, -⟩ := seen hown
        rw [hv] at he
        cases he
      next e hv =>
        split
        next hkeep =>
          refine ongoing_update (N := fun _ => Marks (fun k' => k' = k ∧ own) True) h₁
            (fun xs env D r made => (uneventful_update (by decide)).admitted xs _ rfl made)
            (verdict_inside (T := fun _ => True) (E := fun _ => True) trivial) (fun m₂ s₂ D₂ old hs _ _ h₂ => ?_)
            (fun m₂ s₂ D₂ hs missed h₂ => ?_) fun e m₂ h₂ => ?_
          · refine h₂.mono (fun _ => id) fun s' hs' hown => ?_
            rw [hs', ← hk hown]
            exact ⟨_, _, Session.write_held_same .., rfl⟩
          · refine h₂.mono (fun _ => id) fun _ _ hown => ?_
            obtain ⟨b, e, hh, he⟩ := held hown
            rw [← hs] at hh
            have hv : s₂.visible D₂ .executions (db.key executionId) = some e := by simp [hk hown, Session.visible, hh]
            have := missed e rfl hv
            simp [Executions.isRunning, he] at this
          · exact h₂.mono (fun _ => id) fun _ hf => hf.elim
        next hkeep =>
          refine tries_pure (skipped fun hown => hkeep ?_)
          obtain ⟨e', he, running⟩ := seen hown
          rw [hv] at he
          cases he
          simpa [Executions.isRunning] using running
    · exact h₁.mono (fun _ => id) fun _ hf => hf.elim
  unfold Executions.completeFailed DbContext.execute
  rw [inside]
  exact Tries.holds (tries_bind (walk.mono (fun _ _ hm => hm) fun _ _ hm => hm))

/-- The other statements that finish an execution. -/
theorem walks_finish {stmt : Statement} {ke : Key} {keep : Int → Execution → Bool} {patch : Patch Pg .executions}
    (inside : db.inTx = true) (hs : stmt ≠ .claim) (hf : stmt ≠ .completeFailed) (h : Dealt own k m) :
    (db.execute (do let _ ← updateOne stmt .executions ke keep patch; return ())).run.Holds Recalls Verdict
      (fun _ m' => Dealt own k m') m := by
  have uses : (db.execute (do let _ ← updateOne stmt .executions ke keep patch; return ())).run.Uses
      fun o : Op Pg => o.Inside (fun _ => True) (fun _ => True) ∧ Uneventful o :=
    uses_inside inside (uses_try_bind (uses_updateOne ⟨trivial, uneventful_snapshot hf⟩ ⟨trivial, uneventful_update hs⟩)
      fun _ => uses_done _)
  exact Ongoing.uses (uses.mono fun _ ho => ⟨ho.1, ho.2.admitted⟩) (fun _ _ _ _ _ _ => trivial)
    (fun _ _ ho => verdict_inside ho) h

section process

variable {c : Pipeline.Call} (inside : db.inTx = true) (hk : own → db.key c.executionId = k)

include inside hk

theorem walks_failTemplate {startedAt : Time} {title message : String} (h : InHand own k m) :
    (Pipeline.failTemplate db c startedAt title message).Holds Recalls Verdict (fun _ m' => Doomed own k m') m := by
  refine Prog.holds_bind.mpr ((walks_completeFailed inside hk h).mono fun _ m₁ h₁ => ?_)
  refine Prog.holds_bind.mpr ((h₁.uneventful (uses_recordAttempt within_uneventful.asides within_uneventful.attempt inside _ _ _ _ _ _) apart_holdsIn).mono
    fun _ m₂ h₂ => ?_)
  exact h₂.uneventful (uses_logExecution (fun build _ => within_uneventful.log build) inside _ _ _) apart_holdsIn

theorem walks_prepare (h : InHand own k m) :
    (Pipeline.prepare env db c).Holds Recalls Verdict
      (fun r m' => match r with
        | none => Doomed own k m'
        | some _ => InHand own k m') m := by
  refine Prog.holds_bind.mpr ((h.uneventful (uses_call within_uneventful.asides _) apart_holdsIn).mono fun startedAt m₁ h₁ => ?_)
  refine Prog.holds_bind.mpr ((h₁.uneventful (uses_shown within_uneventful.asides inside (by decide)) apart_holdsIn).mono
    fun r m₂ h₂ => ?_)
  split
  next =>
    exact Prog.holds_bind.mpr ((walks_completeFailed inside hk h₂).mono fun _ _ h₃ => h₃)
  next =>
    refine Prog.holds_bind.mpr ((walks_completeFailed inside hk h₂).mono fun _ m₃ h₃ => ?_)
    exact Prog.holds_bind.mpr ((h₃.uneventful (uses_logExecution (fun build _ => within_uneventful.log build) inside _ _ _) apart_holdsIn).mono
      fun _ _ h₄ => h₄)
  next endpoint =>
    refine Prog.holds_bind.mpr ((h₂.uneventful (uses_loadConfigRef within_uneventful.asides inside _) apart_holdsIn).mono
      fun config m₃ h₃ => ?_)
    split
    next => exact Prog.holds_bind.mpr ((walks_failTemplate inside hk h₃).mono fun _ _ h₄ => h₄)
    next =>
      refine Prog.holds_bind.mpr ((h₃.uneventful (uses_loadEach within_uneventful.asides inside _ _) apart_holdsIn).mono
        fun secrets m₄ h₄ => ?_)
      split
      next => exact Prog.holds_bind.mpr ((walks_failTemplate inside hk h₄).mono fun _ _ h₅ => h₅)
      next =>
        split
        next => exact Prog.holds_bind.mpr ((walks_failTemplate inside hk h₄).mono fun _ _ h₅ => h₅)
        next => exact h₄

theorem walks_finalize {prepared : Pipeline.Prepared} {result : DispatchResult} (h : InHand own k m) :
    (Pipeline.finalize env db c prepared result).Holds Recalls Verdict
      (fun _ m' => Doomed own k m' ∨ Dealt own k m') m := by
  have dealt : ∀ {m'}, InHand own k m' → Dealt own k m' := fun h' => h'.mono (fun _ => id) fun _ _ _ => trivial
  have log : ∀ {d Q} {n : Int} {level : LogLevel} {message : String} {m' : Memory Pg},
      Apart (M := Pg) (fun tb : Table => tb ≠ .executions) Q → Stage own k d Q m' →
      (Pipeline.logExecution db c.executionId n level message).Holds Recalls Verdict (fun _ m' => Stage own k d Q m') m' :=
    fun apart h' => h'.uneventful (uses_logExecution (fun build _ => within_uneventful.log build) inside _ _ _) apart
  cases result with
  | success output =>
    refine Prog.holds_bind.mpr ((h.uneventful (uses_call within_uneventful.asides _) apart_holdsIn).mono fun _ m₁ h₁ => ?_)
    refine Prog.holds_bind.mpr ((h₁.uneventful (uses_recordAttempt within_uneventful.asides within_uneventful.attempt inside _ _ _ _ _ _) apart_holdsIn).mono
      fun _ m₂ h₂ => ?_)
    refine Prog.holds_bind.mpr ((walks_finish inside (by decide) (by decide) (dealt h₂)).mono fun _ m₃ h₃ => ?_)
    exact (log apart_true h₃).mono fun _ _ h₄ => Or.inr h₄
  | failure error =>
    refine Prog.holds_bind.mpr ((h.uneventful (uses_call within_uneventful.asides _) apart_holdsIn).mono fun _ m₁ h₁ => ?_)
    refine Prog.holds_bind.mpr ((h₁.uneventful (uses_recordAttempt within_uneventful.asides within_uneventful.attempt inside _ _ _ _ _ _) apart_holdsIn).mono
      fun _ m₂ h₂ => ?_)
    split
    next =>
      refine Prog.holds_bind.mpr ((h₂.uneventful (uses_backoffFor within_uneventful.asides _ _) apart_holdsIn).mono fun _ m₃ h₃ => ?_)
      refine Prog.holds_bind.mpr ((walks_finish inside (by decide) (by decide) (dealt h₃)).mono fun _ m₄ h₄ => ?_)
      exact (log apart_true h₄).mono fun _ _ h₅ => Or.inr h₅
    next =>
      refine Prog.holds_bind.mpr ((walks_completeFailed inside hk h₂).mono fun _ m₃ h₃ => ?_)
      exact (log apart_holdsIn h₃).mono fun _ _ h₄ => Or.inl h₄

theorem walks_processExecution (h : InHand own k m) :
    (Pipeline.processExecution env db c).Holds Recalls Verdict (fun _ m' => Doomed own k m' ∨ Dealt own k m') m := by
  refine Prog.holds_bind.mpr ((walks_prepare inside hk h).mono fun r m₁ h₁ => ?_)
  cases r with
  | none => exact Or.inl h₁
  | some prepared =>
    refine Prog.holds_bind.mpr ((h₁.uneventful (uses_logExecution (fun build _ => within_uneventful.log build) inside _ _ _) apart_holdsIn).mono
      fun _ m₂ h₂ => ?_)
    refine Prog.holds_bind.mpr ((h₂.uneventful (uses_dispatch within_uneventful.asides inside _) apart_holdsIn).mono
      fun _ m₃ h₃ => ?_)
    exact walks_finalize inside hk h₃

end process

/-- In an aborted transaction the statement is rejected. -/
theorem walks_lostFailed {executionId : String} (inside : db.inTx = true) (h : Stage own k False (fun _ => False) m) :
    (Executions.completeFailed db executionId).run.Holds Recalls Verdict (fun _ m' => Stage own k True (fun _ => False) m') m := by
  have uses : (Executions.completeFailed db executionId).run.Uses
      fun o : Op Pg => o.Inside (fun _ => True) (fun _ => True) ∧ Admitted (Marks (fun k' => k' = k ∧ own) True) o := by
    refine uses_inside inside (uses_try_bind (uses_updateOne ⟨trivial, ?_⟩ ⟨trivial, ?_⟩) fun _ => uses_done _)
    · rintro xs ⟨_, _, _, _⟩ rfl made
      exact made.snoc (fun _ hc => by cases hc) (fun _ => trivial) (fun _ => id) fun _ => trivial
    · exact (uneventful_update (by decide)).admitted
  have start : Stage own k True (fun _ => False) m := h.mono (fun _ hm => ⟨hm.1, fun _ => trivial⟩) fun _ => id
  exact Ongoing.uses uses (fun _ _ _ _ hQ hown => hQ hown) (fun _ _ ho => verdict_inside ho) start

end stages

section claim

variable {env : Setup} {workerId schemaName : String} {m : Memory Pg}

/-- The worker's transaction has claimed nothing yet. -/
abbrev Seeking : Memory Pg → Prop := Ongoing (Marks (fun _ => False) False) fun _ => True

/-- The worker's transaction has claimed this execution, if it has claimed any. -/
def ClaimFound (schemaName : String) (m : Memory Pg) : Option ClaimedExecution → Prop
  | none => Seeking m
  | some exec => ∃ own k, InHand own k m ∧ (own → ⟨schemaName, exec.executionId⟩ = k)

/-- What the calls have claimed when the claim of `k` has this reply. -/
def ClaimedBy (k : Key) : Except DbError (Option Execution) → List (Exchange Pg) → Prop
  | .ok (some e) => Marks (fun k' => k' = k ∧ e.executionId = k.id) False
  | _ => Marks (fun _ => False) False

theorem claimedBy_snoc {k : Key} {skip : Bool} {keep : Int → Execution → Bool} {patch : Patch Pg .executions}
    {xs : List (Exchange Pg)} {env : Env Pg} {D : Rows Pg} (r : Except DbError (Option Execution))
    (made : Marks (fun _ => False) False xs) :
    ClaimedBy k r (xs ++ [⟨.update .claim .executions k skip keep patch, env, r, D⟩]) := by
  match r with
  | .ok (some e) =>
    refine made.snoc (fun k' hk' => ?_) (fun hf => by cases hf) (fun _ => False.elim) id
    simp only [claimsOf, Option.ite_none_right_eq_some, Option.some.injEq] at hk'
    exact ⟨hk'.2.symm, hk'.1⟩
  | .ok none => exact made.snoc (fun _ hk' => by cases hk') (fun hf => by cases hf) (fun _ => id) id
  | .error _ => exact made.snoc (fun _ hk' => by cases hk') (fun hf => by cases hf) (fun _ => id) id

theorem walks_claimFrom {ks : List Key} (hks : ∀ k ∈ ks, k.schema = schemaName) (h : Seeking m) :
    Tries Recalls Verdict (fun r m' => ClaimFound schemaName m' r) (fun _ m' => Seeking m')
      (Executions.claimFrom workerId ks) m := by
  induction ks generalizing m with
  | nil => exact tries_pure h
  | cons k ks ih =>
    refine tries_bind (ongoing_update (N := ClaimedBy k) h (fun xs env D r made => claimedBy_snoc r made)
      (verdict_inside (T := fun _ => True) (E := fun _ => True) trivial) (fun m₁ s D old _ _ _ h₁ => ?_)
      (fun m₁ s D _ _ h₁ => ?_) fun e m₁ h₁ => ?_)
    · refine tries_pure ⟨_, k, h₁.mono (fun _ => id) fun s' hs' _ => ?_, fun hown => ?_⟩
      · rw [hs']
        exact ⟨_, _, Session.write_held_same .., rfl⟩
      · rw [← hks k List.mem_cons_self]
        exact congrArg (Key.mk k.schema) hown
    · exact ih (fun k' hk' => hks k' (List.mem_cons_of_mem _ hk')) h₁
    · exact h₁.mono (fun _ => id) fun _ hf => hf.elim

theorem walks_claim (h : Seeking m) :
    Tries Recalls Verdict (fun r m' => ClaimFound schemaName m' r) (fun _ m' => Seeking m')
      (Executions.claim ⟨schemaName, env.tablePrefix, true⟩ workerId) m := by
  refine tries_bind (ongoing_query (N := Marks (fun _ => False) False) h (fun xs x hx made => ?_)
    (verdict_inside (T := fun _ => True) (E := fun _ => True) trivial) (fun m₁ s D keys _ h₁ => ?_) fun e m₁ h₁ => ?_)
  · exact (uneventful_snapshot (by decide)).admitted xs x hx made
  · refine walks_claimFrom (fun k hk => ?_) (h₁.mono (fun _ => id) fun _ _ => trivial)
    have found := (List.mem_insertionSort _).mp hk
    simp only [matching, List.mem_filter, Bool.and_eq_true, decide_eq_true_eq] at found
    exact found.2.1
  · exact h₁.mono (fun _ => id) fun _ hf => hf.elim

theorem recalls_ends {m m' : Memory Pg} {o : Op Pg} {r : o.Reply} (ends : o = .commit ∨ o = .rollback)
    (h : Recalls m o r m') : m'.1 = none := by
  obtain ⟨D, keys, clock, foreign, env, he, _⟩ := h.eval
  rcases ends with rfl | rfl
  · simp only [Op.eval] at he
    split at he
    next => exact (Prod.mk.inj (Option.some.inj he)).2.symm
    next =>
      split at he
      next => exact (Prod.mk.inj (Option.some.inj he)).2.symm
      next => exact (Prod.mk.inj (Option.some.inj he)).2.symm
  · exact (Prod.mk.inj (Option.some.inj he)).2.symm

theorem walks_claimIn (hm : m.1 = none) :
    (Poller.claimIn env workerId schemaName).Holds Recalls Verdict (fun _ m' => m'.1 = none) m := by
  have giveUp : ∀ {m'}, Verdict m' .rollback → (do rollbackTx (M := Pg); return false : Program Pg Bool).Holds Recalls Verdict
      (fun _ m' => m'.1 = none) m' := fun verdict =>
    Prog.holds_bind.mpr ⟨verdict, fun r m' hr => recalls_ends (Or.inr rfl) hr⟩
  have seeking : ∀ {m' o}, Seeking m' → Verdict m' o := by
    rintro m' o ⟨s, _, _, made, _⟩ _ k claimed
    exact (made.1 k claimed).elim
  unfold Poller.claimIn
  split
  next =>
    refine Prog.holds_bind.mpr ⟨verdict_inside (o := .halt) (T := fun _ => True) (E := fun _ => True) trivial, ?_⟩
    exact fun r => r.elim
  next =>
    have begun := ongoing_begin (A := fun _ m' => Seeking m') (B := fun _ m' => m'.1 = none) hm marks_nil
      (fun _ => trivial) verdict_begin (fun _ h' => h') fun _ _ h' => h'
    refine holds_run (begun.mono (fun _ m₁ h₁ => ?_) fun _ m₁ h₁ => h₁)
    refine holds_run ((walks_claim h₁).mono (fun found m₂ h₂ => ?_) fun _ m₂ h₂ => giveUp (seeking h₂))
    cases found with
    | none => exact giveUp (seeking h₂)
    | some exec =>
      obtain ⟨own, k, h₂, hk⟩ := h₂
      have read : Tries Recalls Verdict (fun _ m' => InHand own k m') (fun _ m' => Stage own k False (fun _ => False) m')
          (Jobs.get ⟨schemaName, env.tablePrefix, true⟩ exec.jobId) m₂ := by
        refine tries_bind (ongoing_query (N := Marks (fun k' => k' = k ∧ own) False) h₂ (fun xs x hx made => ?_)
          (verdict_inside (T := fun _ => True) (E := fun _ => True) trivial) (fun m₃ s D keys held h₃ => ?_) fun e m₃ h₃ => ?_)
        · exact (uneventful_snapshot (by decide)).admitted xs x hx made
        · refine tries_pure (h₃.mono (fun _ => id) fun s' hs' hown => ?_)
          rw [hs']
          exact held hown
        · exact h₃.mono (fun _ => id) fun _ hf _ => hf
      refine holds_run (read.mono (fun job m₃ h₃ => ?_) fun _ m₃ h₃ => ?_)
      · cases job with
        | none => exact giveUp h₃.undecided
        | some job =>
          refine Prog.holds_bind.mpr ((walks_processExecution rfl hk h₃).mono fun _ m₄ h₄ => ?_)
          refine Prog.holds_bind.mpr ⟨?_, fun r m' hr => recalls_ends (Or.inl rfl) hr⟩
          rcases h₄ with h₄ | h₄
          · exact h₄.commit
          · exact h₄.undecided
      · exact Prog.holds_bind.mpr ((walks_lostFailed rfl h₃).mono fun _ m₄ h₄ => giveUp h₄.lost)

theorem walks_claimAndProcess {schemas : List String} (hm : m.1 = none) :
    (Poller.claimAndProcess env workerId schemas).Holds Recalls Verdict (fun _ m' => m'.1 = none) m := by
  induction schemas generalizing m with
  | nil => exact hm
  | cons schemaName schemas ih =>
    refine Prog.holds_bind.mpr ((walks_claimIn hm).mono fun b m₁ h₁ => ?_)
    split
    next => exact h₁
    next => exact ih h₁

end claim

end Invokr
