import Invokr.LogLines
import Invokr.FailingWork

namespace Invokr

open TxLib

variable {env : Setup} {schemaName executionId : String} {s : Session Pg} {D : Rows Pg} {m : Memory Pg} {α : Type}

/-- The transaction has claimed the execution. -/
def Grips (schemaName executionId : String) (s : Session Pg) : Prop :=
  ∃ ke, ∃ b e : Execution, ke.schema = schemaName ∧ b.executionId = executionId ∧
    s.held .executions ke = some ⟨some b, some e⟩ ∧ Executions.eligible s.now b = true ∧
    e.attemptCount = b.attemptCount + 1

/-- The execution is in hand, at its end or not to be tried again before this transaction's time. -/
def Deferred (now : Int) (e : Execution) : Prop := e.status = .running ∨ e.status.terminal = true ∨ now ≤ e.runAt

/-- What a worker's transaction has made of executions and log lines. -/
structure Handled (s : Session Pg) : Prop where
  execution : ∀ k h, ∀ e : Execution, s.held .executions k = some h → h.new = some e → h.new = h.base ∨ Deferred s.now e
  line : ∀ k h, s.held .executionLogs k = some h → ∃ l : ExecutionLog, h = ⟨none, some l⟩ ∧ l.logId = k.id ∧
    l.loggedAt = s.now ∧ Grips k.schema l.executionId s

/-- What it may do so. -/
def Lawful (line : (Uuid → Int → Key × ExecutionLog) → Prop) : Op Pg → Prop
  | .insert _ .executionLogs _ build => line build
  | .insert _ .executions _ _ | .update _ .executionLogs _ _ _ _ => False
  | .update _ .executions _ _ _ patch => ∀ now, ∀ e : Execution, Deferred now (patch.apply now e) ∧
      (patch.apply now e : Execution).attemptCount = e.attemptCount
  | .begin | .commit | .rollback | .deleteNow .. => False
  | _ => True

/-- A live transaction has this property. -/
def Unbroken (Q : Session Pg → Prop) (m : Memory Pg) : Prop := ∀ s, m.1 = some s → s.aborted = false → Q s

section writes

variable {o : Op Pg} {env : Env Pg} {tb : Table} {k : Key} {v : Option (Pg.Row tb)}

theorem Grips.other (h : Grips schemaName executionId s) (ht : tb ≠ .executions) :
    Grips schemaName executionId (s.write D tb k v) := by
  obtain ⟨ke, b, e, hs, hid, hheld, rest⟩ := h
  exact ⟨ke, b, e, hs, hid, by rw [Session.write_held_tbl s D v (Ne.symm ht)]; exact hheld, rest⟩

theorem Grips.set {e' : Execution} (h : Grips schemaName executionId s)
    (counted : ∀ e : Execution, s.visible D .executions k = some e → e'.attemptCount = e.attemptCount) :
    Grips schemaName executionId (s.write D .executions k (some e')) := by
  obtain ⟨ke, b, e, hs, hid, hheld, eligible, hcount⟩ := h
  by_cases hk : k = ke
  · subst hk
    refine ⟨k, b, e', hs, hid, ?_, eligible, (counted e (by simp [Session.visible, hheld])).trans hcount⟩
    rw [Session.write_held_same]
    simp [Session.baseOf, hheld]
  · exact ⟨ke, b, e, hs, hid, by rw [Session.write_held_key s D _ (Ne.symm hk)]; exact hheld, eligible, hcount⟩

theorem counts_patch {stmt : Statement} {skip : Bool} {keep : Int → Execution → Bool} {patch : Patch Pg .executions}
    {old : Execution} {line : (Uuid → Int → Key × ExecutionLog) → Prop} (hv : s.visible D .executions k = some old)
    (lawful : Lawful line (.update stmt .executions k skip keep patch)) (e₀ : Execution)
    (h₀ : s.visible D .executions k = some e₀) : (patch.apply s.now old : Execution).attemptCount = e₀.attemptCount := by
  rw [hv] at h₀
  cases h₀
  exact (lawful s.now old).2

theorem counts_lock {old : Execution} (hv : s.visible D .executions k = some old) (e₀ : Execution)
    (h₀ : s.visible D .executions k = some e₀) : old.attemptCount = e₀.attemptCount := by
  rw [hv] at h₀
  cases h₀
  rfl

theorem Grips.write {line : (Uuid → Int → Key × ExecutionLog) → Prop} (h : Grips schemaName executionId s)
    (lawful : Lawful line o) (written : Written D env s o tb k v) : Grips schemaName executionId (s.write D tb k v) := by
  by_cases ht : tb = .executions
  · subst ht
    cases written with
    | patch hv => exact h.set (counts_patch hv lawful)
    | lock hv => exact h.set (counts_lock hv)
    | insert => exact lawful.elim
    | put hplain => cases hplain
    | delete hplain => cases hplain
  · exact h.other ht

theorem Handled.other (h : Handled s) (he : tb ≠ .executions) (hl : tb ≠ .executionLogs) :
    Handled (s.write D tb k v) where
  execution k' x e hx := h.execution k' x e (by rw [← Session.write_held_tbl s D v (Ne.symm he)]; exact hx)
  line k' x hx := by
    rw [Session.write_held_tbl s D v (Ne.symm hl)] at hx
    obtain ⟨l, hl, hid, hlog, grips⟩ := h.line k' x hx
    exact ⟨l, hl, hid, hlog, grips.other he⟩

theorem Handled.set {e : Execution} (h : Handled s) (fits : some e = s.baseOf D .executions k ∨ Deferred s.now e)
    (counted : ∀ e₀ : Execution, s.visible D .executions k = some e₀ → e.attemptCount = e₀.attemptCount) :
    Handled (s.write D .executions k (some e)) where
  execution k' x e' hx hnew := by
    rcases Session.write_held_cases hx with ⟨_, rfl, rfl⟩ | old
    · cases hnew
      exact fits
    · exact h.execution k' x e' old hnew
  line k' x hx := by
    have apart : Table.executionLogs ≠ Table.executions := by decide
    rw [Session.write_held_tbl s D _ apart] at hx
    obtain ⟨l, hl, hid, hlog, grips⟩ := h.line k' x hx
    exact ⟨l, hl, hid, hlog, grips.set counted⟩

/-- A version that the transaction sees is the row's base or is deferred. -/
theorem Handled.seen {e : Execution} (h : Handled s) (hv : s.visible D .executions k = some e) :
    some e = s.baseOf D .executions k ∨ Deferred s.now e := by
  cases hh : s.held .executions k with
  | none =>
    left
    simpa [Session.visible, Session.baseOf, hh] using hv.symm
  | some x =>
    have new : x.new = some e := by simpa [Session.visible, hh] using hv
    rcases h.execution k x e hh new with same | deferred
    · left
      simpa [Session.baseOf, hh, new] using same
    · exact Or.inr deferred

theorem Handled.log {build : Uuid → Int → Key × ExecutionLog} {id : Uuid} (h : Handled s)
    (line : LineOf schemaName executionId build) (grips : Grips schemaName executionId s)
    (free : s.visible D .executionLogs (build id s.now).1 = none) :
    Handled (s.write D .executionLogs (build id s.now).1 (some (build id s.now).2)) where
  execution k' x e hx := by
    have apart : Table.executions ≠ Table.executionLogs := by decide
    rw [Session.write_held_tbl s D _ apart] at hx
    exact h.execution k' x e hx
  line k' x hx := by
    rcases Session.write_held_cases hx with ⟨_, rfl, rfl⟩ | old
    · have key := line.key id s.now
      have schema : (build id s.now).1.schema = schemaName := congrArg Key.schema key
      have base : s.baseOf D .executionLogs (build id s.now).1 = none := by
        cases hh : s.held .executionLogs (build id s.now).1 with
        | none => simpa [Session.visible, Session.baseOf, hh] using free
        | some y =>
          obtain ⟨l, rfl, _⟩ := h.line _ y hh
          simp [Session.visible, hh] at free
      refine ⟨_, congrArg (fun v => (⟨v, _⟩ : Held (Pg.Row .executionLogs))) base, (congrArg Key.id key).symm,
        line.loggedAt _ _, ?_⟩
      rw [line.executionId, schema]
      exact grips.other (by decide)
    · obtain ⟨l, hl, hid, hlog, grips'⟩ := h.line k' x old
      exact ⟨l, hl, hid, hlog, grips'.other (by decide)⟩

theorem Handled.write {line : (Uuid → Int → Key × ExecutionLog) → Prop} (h : Handled s) (written : Written D env s o tb k v)
    (lawful : Lawful line o) (lines : ∀ build, line build → ∃ schemaName executionId,
      LineOf schemaName executionId build ∧ Grips schemaName executionId s) : Handled (s.write D tb k v) := by
  by_cases he : tb = .executions
  · subst he
    cases written with
    | patch hv => exact h.set (Or.inr (lawful _ _).1) (counts_patch hv lawful)
    | lock hv => exact h.set (h.seen hv) (counts_lock hv)
    | insert => exact lawful.elim
    | put hplain => cases hplain
    | delete hplain => cases hplain
  · by_cases hl : tb = .executionLogs
    · subst hl
      cases written with
      | patch => exact lawful.elim
      | lock => exact lawful.elim
      | @insert stmt _ orIgnore build plain free refs =>
        obtain ⟨schemaName, executionId, lineOf, grips⟩ := lines build lawful
        exact h.log lineOf grips free
      | put hplain => cases hplain
      | delete hplain => cases hplain
    · exact h.other he hl

end writes

theorem Lawful.inside {line : (Uuid → Int → Key × ExecutionLog) → Prop} {o : Op Pg} (h : Lawful line o) :
    o.Inside (fun _ => True) (fun _ => True) := by
  cases o <;> trivial

/-- What the transaction knows of its claim, if it has one. -/
def Holding (line : (Uuid → Int → Key × ExecutionLog) → Prop) (s : Session Pg) : Prop :=
  Handled s ∧ ∀ build, line build → ∃ schemaName executionId, LineOf schemaName executionId build ∧
    Grips schemaName executionId s

theorem holding_none (h : Handled s) : Holding (fun _ => False) s := ⟨h, fun _ => False.elim⟩

theorem holding_line (h : Handled s) (grips : Grips schemaName executionId s) :
    Holding (LineOf schemaName executionId) s := ⟨h, fun _ hb => ⟨_, _, hb, grips⟩⟩

section walk

variable {line : (Uuid → Int → Key × ExecutionLog) → Prop} {pre : Memory Pg → Op Pg → Prop}

/-- What holds of a worker's transaction at each of its calls. -/
def Tended (m : Memory Pg) (_ : Op Pg) : Prop := Unbroken Handled m

/-- The worker is in a transaction of which it knows this. -/
def InTx (Q : Session Pg → Prop) (m : Memory Pg) : Prop := Unbroken Q m ∧ m.1 ≠ none

theorem InTx.call {Q Q' : Session Pg → Prop} {m' : Memory Pg} {o : Op Pg} {r : o.Reply} (h : InTx Q m)
    (inside : o.Inside (fun _ => True) (fun _ => True)) (hr : Recalls m o r m') (still : ∀ s, Q s → Q' s)
    (written : ∀ s D env tb k v, Q s → Written D env s o tb k v → Q' (s.write D tb k v)) : InTx Q' m' := by
  obtain ⟨s, hs⟩ := Option.ne_none_iff_exists'.mp h.2
  obtain ⟨s', hs', cases_⟩ := hr.written hs inside
  refine ⟨fun s₁ h₁ live => ?_, by rw [hs']; exact Option.some_ne_none s'⟩
  obtain rfl := Option.some.inj (hs'.symm.trans h₁)
  rcases cases_ with rfl | rfl | ⟨D, env, tb, k, v, rfl, hw⟩
  · exact still _ (h.1 _ hs live)
  · cases live
  · exact written s D env tb k v (h.1 s hs live) hw

theorem Holding.write {o : Op Pg} {env : Env Pg} {tb : Table} {k : Key} {v : Option (Pg.Row tb)} (h : Holding line s)
    (lawful : Lawful line o) (written : Written D env s o tb k v) : Holding line (s.write D tb k v) := by
  refine ⟨h.1.write written lawful h.2, fun build hb => ?_⟩
  obtain ⟨schemaName, executionId, lineOf, grips⟩ := h.2 build hb
  exact ⟨schemaName, executionId, lineOf, grips.write lawful written⟩

theorem InTx.mono {Q Q' : Session Pg → Prop} (h : InTx Q m) (hQ : ∀ s, Q s → Q' s) : InTx Q' m :=
  ⟨fun s hs live => hQ s (h.1 s hs live), h.2⟩

theorem InTx.tended {o : Op Pg} (h : InTx (Holding line) m) : Tended m o := fun s hs live => (h.1 s hs live).1

theorem InTx.uses {p : Program Pg α} (h : InTx (Holding line) m) (hp : p.Uses (Lawful line)) :
    p.Holds Recalls Tended (fun _ m' => InTx (Holding line) m') m :=
  Prog.Uses.holds hp h (fun _ _ _ hm => hm.tended) fun _ _ _ _ lawful hm hr =>
    hm.call lawful.inside hr (fun _ h => h) fun _ _ _ _ _ _ h hw => h.write lawful hw

theorem deferred_success (output : Json) (now : Int) (e : Execution) :
    Deferred now ((Executions.successPatch output).apply now e) := Or.inr (Or.inl rfl)

theorem deferred_failed (now : Int) (e : Execution) : Deferred now (Executions.failedPatch.apply now e) :=
  Or.inr (Or.inl rfl)

theorem deferred_retry {backoffMs : Int} (h : 0 ≤ backoffMs) (now : Int) (e : Execution) :
    Deferred now ((Executions.retryPatch backoffMs).apply now e) := by
  by_cases spent : e.attemptCount ≥ e.maxAttempts
  · exact Or.inr (Or.inl (by simp [Executions.retryPatch, spent, ExecutionStatus.terminal]))
  · refine Or.inr (Or.inr ?_)
    simp only [Executions.retryPatch, if_neg spent]
    omega

theorem processes_lawful : Processes (Lawful (LineOf schemaName executionId)) schemaName executionId where
  ext _ := trivial
  halt := trivial
  read _ _ := trivial
  retire _ _ := trivial
  drop _ := trivial
  attempt _ := trivial
  line _ h := h
  finish := trivial
  success output now e := ⟨deferred_success output now e, rfl⟩
  retry _ h now e := ⟨deferred_retry h now e, rfl⟩
  failed now e := ⟨deferred_failed now e, rfl⟩

/-- The worker has locked rows of executions without changing them. -/
def Unclaimed (s : Session Pg) : Prop :=
  (∀ k, s.held .executionLogs k = none) ∧ ∀ k h, s.held .executions k = some h → h.new = h.base

theorem Unclaimed.handled (h : Unclaimed s) : Handled s where
  execution k x e hx _ := Or.inl (h.2 k x hx)
  line k x hx := by
    rw [h.1 k] at hx
    cases hx

theorem Unclaimed.base {k : Key} {old : Execution} (h : Unclaimed s) (hv : s.visible D .executions k = some old) :
    s.baseOf D .executions k = some old := by
  cases hh : s.held .executions k with
  | none => simpa [Session.visible, Session.baseOf, hh] using hv
  | some x =>
    have new : x.new = some old := by simpa [Session.visible, hh] using hv
    simpa [Session.baseOf, hh, h.2 k x hh] using new

theorem Unclaimed.unlogged {k : Key} {v : Option Execution} (h : Unclaimed s) (k' : Key) :
    (s.write D .executions k v).held .executionLogs k' = none := by
  have apart : Table.executionLogs ≠ Table.executions := by decide
  rw [Session.write_held_tbl s D v apart]
  exact h.1 k'

theorem Unclaimed.lock {k : Key} {old : Execution} (h : Unclaimed s) (hv : s.visible D .executions k = some old) :
    Unclaimed (s.write D .executions k (some old)) := by
  refine ⟨h.unlogged, fun k' x hx => ?_⟩
  rcases Session.write_held_cases hx with ⟨_, rfl, rfl⟩ | before
  · exact (h.base hv).symm
  · exact h.2 k' x before

/-- The worker claims an execution. -/
theorem Unclaimed.claim {k : Key} {old : Execution} {workerId : String} (h : Unclaimed s)
    (hv : s.visible D .executions k = some old) (eligible : Executions.eligible s.now old = true) :
    Handled (s.write D .executions k (some ((Executions.claimPatch workerId).apply s.now old))) ∧
      Grips k.schema old.executionId (s.write D .executions k (some ((Executions.claimPatch workerId).apply s.now old))) := by
  refine ⟨⟨fun k' x e hx hnew => ?_, fun k' x hx => ?_⟩, k, old, (Executions.claimPatch workerId).apply s.now old, rfl, rfl, ?_,
    eligible, rfl⟩
  · rcases Session.write_held_cases hx with ⟨_, rfl, rfl⟩ | before
    · cases hnew
      exact Or.inr (Or.inl rfl)
    · exact Or.inl (h.2 k' x before)
  · rw [h.unlogged k'] at hx
    cases hx
  · rw [Session.write_held_same, h.base hv]

/-- The execution that the worker has claimed, if it has claimed any. -/
def FoundIn (schemaName : String) : Option ClaimedExecution → Session Pg → Prop
  | none, s => Unclaimed s
  | some exec, s => Handled s ∧ Grips schemaName exec.executionId s

theorem tends_claimFrom {workerId : String} {ks : List Key} (hks : ∀ k ∈ ks, k.schema = schemaName) (h : InTx Unclaimed m) :
    Tries Recalls Tended (fun r m' => InTx (FoundIn schemaName r) m') (fun _ m' => InTx (fun _ => False) m')
      (Executions.claimFrom workerId ks) m := by
  induction ks generalizing m with
  | nil => exact tries_pure h
  | cons k ks ih =>
    obtain ⟨s, hs⟩ := Option.ne_none_iff_exists'.mp h.2
    refine tries_bind (recalls_update hs (fun s hs live => (h.1 s hs live).handled) (fun m' D old hv hk live hs' => ?_)
      (fun m' s' hs' cases_ => ?_) fun e m' s' hs' aborted => ?_)
    · have unclaimed := h.1 s hs live
      refine tries_pure ⟨fun s₁ h₁ _ => ?_, by rw [hs']; exact Option.some_ne_none _⟩
      obtain rfl := Option.some.inj (hs'.symm.trans h₁)
      have claim : Handled _ ∧ Grips _ _ (s.write D .executions k (some ((Executions.claimPatch workerId).apply s.now old))) :=
        unclaimed.claim hv hk
      rw [hks k List.mem_cons_self] at claim
      exact claim
    · refine ih (fun k' hk' => hks k' (List.mem_cons_of_mem _ hk')) ⟨fun s₁ h₁ live => ?_, by rw [hs']; exact Option.some_ne_none _⟩
      obtain rfl := Option.some.inj (hs'.symm.trans h₁)
      rcases cases_ with rfl | ⟨D, old, hv, rfl⟩
      · exact h.1 _ hs live
      · exact (h.1 s hs live).lock hv
    · refine ⟨fun s₁ h₁ live => ?_, by rw [hs']; exact Option.some_ne_none _⟩
      obtain rfl := Option.some.inj (hs'.symm.trans h₁)
      rw [aborted] at live
      cases live

theorem tends_claim {workerId tp : String} (h : InTx Unclaimed m) :
    Tries Recalls Tended (fun r m' => InTx (FoundIn schemaName r) m') (fun _ m' => InTx Unclaimed m')
      (Executions.claim ⟨schemaName, tp, true⟩ workerId) m := by
  have read : ∀ {m' : Memory Pg} {r : (Op.snapshot Statement.claim : Op Pg).Reply}, Recalls m (.snapshot .claim) r m' →
      InTx Unclaimed m' := fun hr => h.call (o := .snapshot .claim) trivial hr (fun _ h => h) fun _ _ _ _ _ _ _ hw => by cases hw
  refine tries_bind ⟨fun s hs live => (h.1 s hs live).handled, fun r m' hr => ?_⟩
  cases r with
  | error e => exact read hr
  | ok snap =>
    refine (tends_claimFrom (fun k hk => ?_) (read hr)).mono (fun _ _ h => h) fun _ _ h => h.mono fun _ => False.elim
    have found := (List.mem_insertionSort _).mp hk
    simp only [matching, List.mem_filter, Bool.and_eq_true, decide_eq_true_eq] at found
    exact found.2.1

theorem tends_claimIn {workerId : String} (hm : m.1 = none) :
    (Poller.claimIn env workerId schemaName).Holds Recalls Tended (fun _ m' => m'.1 = none) m := by
  have idle : ∀ {m' : Memory Pg} {o : Op Pg}, m'.1 = none → Tended m' o := fun h s hs => by rw [h] at hs; cases hs
  have giveUp : ∀ {m' : Memory Pg} {line}, InTx (Holding line) m' →
      (do rollbackTx (M := Pg); return false : Program Pg Bool).Holds Recalls Tended (fun _ m' => m'.1 = none) m' :=
    fun h => Prog.holds_bind.mpr ⟨h.tended, fun r m' hr => recalls_ends (Or.inr rfl) hr⟩
  unfold Poller.claimIn
  split
  next => exact Prog.holds_bind.mpr ⟨idle hm, fun r => r.elim⟩
  next =>
    have begun : Tries Recalls Tended (fun _ m' => InTx Unclaimed m') (fun _ m' => m'.1 = none)
        (beginTx : Try Pg DbError Unit) m :=
      recalls_begin (l := []) ⟨hm, List.nil_prefix⟩ (idle hm) (fun m' now hs _ _ =>
        ⟨fun s h _ => by
          obtain rfl := Option.some.inj (hs.symm.trans h)
          exact ⟨fun _ => rfl, fun _ _ h => by cases h⟩, by rw [hs]; exact Option.some_ne_none _⟩) fun _ _ out _ => out.1
    refine holds_run (begun.mono (fun _ m₁ h₁ => ?_) fun _ m₁ h₁ => h₁)
    refine holds_run ((tends_claim h₁).mono (fun found m₂ h₂ => ?_) fun _ m₂ h₂ => giveUp (h₂.mono fun _ h => holding_none h.handled))
    cases found with
    | none => exact giveUp (h₂.mono fun _ h => holding_none h.handled)
    | some exec =>
      have held : InTx (Holding (LineOf schemaName exec.executionId)) m₂ := h₂.mono fun _ h => holding_line h.1 h.2
      have processes : Processes (Lawful (LineOf schemaName exec.executionId)) schemaName exec.executionId := processes_lawful
      refine Prog.holds_bind.mpr ((held.uses (uses_shown processes.toAsides rfl (by decide))).mono fun job m₃ h₃ => ?_)
      split
      next => exact giveUp h₃
      next =>
        refine Prog.holds_bind.mpr ((h₃.uses (uses_inside rfl (uses_try_bind (uses_updateOne processes.finish processes.failed)
          fun _ => uses_done _))).mono fun _ m₄ h₄ => giveUp h₄)
      next job =>
        refine Prog.holds_bind.mpr ((h₃.uses (uses_processExecution processes rfl)).mono fun _ m₄ h₄ => ?_)
        exact Prog.holds_bind.mpr ⟨h₄.tended, fun r m' hr => recalls_ends (Or.inl rfl) hr⟩

theorem tends_claimAndProcess {workerId : String} {schemas : List String} (hm : m.1 = none) :
    (Poller.claimAndProcess env workerId schemas).Holds Recalls Tended (fun _ m' => m'.1 = none) m := by
  induction schemas generalizing m with
  | nil => exact hm
  | cons schemaName schemas ih =>
    refine Prog.holds_bind.mpr ((tends_claimIn hm).mono fun b m₁ h₁ => ?_)
    split
    next => exact h₁
    next => exact ih h₁

end walk

end Invokr
