import Invokr.Grips
import Invokr.Spared

namespace Invokr

open TxLib

variable {env : Setup} {acts : List (Action (service env))} {req : Request env} {s : Session Pg} {t : Nat} {k : Key}

/-- What is known of the transaction of a request. -/
def Kept (req : Request env) (s : Option (Session Pg)) : Prop := ∀ s', s = some s' → s'.aborted = false →
  (isWork req = true → Handled s') ∧
    (isWork req = false → ∀ k, s'.held .executionLogs k = none ∧ s'.held .attempts k = none)

theorem unlogged_spares {o : Op Pg} (h : Unlogged o) :
    Spares (M := Pg) .executionLogs o ∧ Spares (M := Pg) .attempts o := by
  unfold Unlogged at h
  cases o with
  | update stmt tb k skip keep patch => cases tb <;> simp_all [Spares]
  | insert stmt tb orIgnore build => cases tb <;> simp_all [Spares]
  | put stmt tb k row => cases tb <;> simp [Spares, Pg]
  | delete stmt tb k => cases tb <;> simp [Spares, Pg]
  | _ => exact ⟨trivial, trivial⟩

theorem kept_all (req : Request env) :
    req.program.Holds Recalls (fun m _ => Kept req m.1) (fun _ m => Kept req m.1) (none, []) := by
  cases hw : isWork req with
  | false =>
    have spared : req.program.Holds Recalls
        (fun m _ => Unheld (M := Pg) .executionLogs m.1 ∧ Unheld (M := Pg) .attempts m.1)
        (fun _ m => Unheld (M := Pg) .executionLogs m.1 ∧ Unheld (M := Pg) .attempts m.1) (none, []) := by
      refine (unlogged_all hw).holds ⟨?_, ?_⟩ (fun _ _ _ hm => hm) fun m o r m' ho hm hr => ?_
      · exact fun s hs => by cases hs
      · exact fun s hs => by cases hs
      · exact ⟨hr.free (unlogged_spares ho).1 hm.1, hr.free (unlogged_spares ho).2 hm.2⟩
    have kept : ∀ m : Memory Pg, Unheld (M := Pg) .executionLogs m.1 ∧ Unheld (M := Pg) .attempts m.1 → Kept req m.1 :=
      fun m hm s hs _ => ⟨fun h => (Bool.false_ne_true (hw.symm.trans h)).elim, fun _ k => ⟨hm.1 s hs k, hm.2 s hs k⟩⟩
    exact (spared.pre_mono fun m _ hm => kept m hm).mono fun _ m hm => kept m hm
  | true =>
    cases req with
    | work workerId schemas =>
      have kept : ∀ m : Memory Pg, Unbroken Handled m → Kept (Request.work workerId schemas : Request env) m.1 := fun m hm s hs live =>
        ⟨fun _ => hm s hs live, fun h => by cases h⟩
      have none : ∀ m : Memory Pg, m.1 = none → Unbroken Handled m := fun m hm s hs => by
        rw [hm] at hs
        cases hs
      refine Prog.holds_bind.mpr (((tends_claimAndProcess rfl).pre_mono fun m _ hm => kept m hm).mono fun _ m hm => ?_)
      exact kept m (none m hm)
    | _ => cases hw

/-- An open transaction is one of a request that is known. -/
theorem session_kept (hs : (after acts).world.sessions t = some s) : ∃ th, (after acts).threads t = some th ∧
    Kept th.req (some s) ∧ Void (some s) := by
  have keeps := keeps_all acts
  cases ht : (after acts).threads t with
  | none =>
    have idle := congrArg Prod.fst (keeps.idle t ht)
    rw [World.view, hs] at idle
    cases idle
  | some th =>
    cases ha : th.alive with
    | false =>
      rw [(keeps.dead t th ht ha).1] at hs
      cases hs
    | true =>
      have kept := Pool.session_known kept_all ht ha
      have void := Pool.void ht ha
      rw [hs] at kept void
      exact ⟨th, rfl, kept, void⟩

/-- Only a worker's transaction has written log lines. -/
theorem logging_handled {x : Held ExecutionLog} (hs : (after acts).world.sessions t = some s)
    (hx : s.held .executionLogs k = some x) : Handled s := by
  obtain ⟨th, _, kept, void⟩ := session_kept hs
  have live : s.aborted = false := by
    cases ha : s.aborted with
    | false => rfl
    | true =>
      rw [void s rfl ha] at hx
      cases hx
  cases hw : isWork th.req with
  | true => exact (kept s rfl live).1 hw
  | false =>
    rw [((kept s rfl live).2 hw k).1] at hx
    cases hx

/-- No line of a committed execution that is to be tried again is later than its next attempt. -/
structure Timed (D : Rows Pg) : Prop where
  line : ∀ k, ∀ l : ExecutionLog, D .executionLogs k = some l → l.logId = k.id
  before : ∀ k, ∀ l : ExecutionLog, D .executionLogs k = some l → ∀ e : Execution,
    D .executions ⟨k.schema, l.executionId⟩ = some e → e.status.terminal = true ∨ l.loggedAt ≤ e.runAt

/-- The execution of which a transaction has written a line, as it found it and as it leaves it. -/
theorem Handled.gripped {l : ExecutionLog} {x : Held ExecutionLog} (h : Handled s)
    (hx : s.held .executionLogs k = some x) (hl : x.new = some l) : l.logId = k.id ∧ l.loggedAt = s.now ∧
      Grips k.schema l.executionId s := by
  obtain ⟨l', rfl, hid, hlog, grips⟩ := h.line k x hx
  cases hl
  exact ⟨hid, hlog, grips⟩

section steps

variable {x : Action (service env)} {l : ExecutionLog}

/-- The execution that a transaction has claimed is the one that its key and its schema name. -/
theorem grips_row {schemaName executionId : String} (hs : (after acts).world.sessions t = some s)
    (grips : Grips schemaName executionId s) : ∃ b e : Execution,
      (after acts).world.rows .executions ⟨schemaName, executionId⟩ = some b ∧
      s.held .executions ⟨schemaName, executionId⟩ = some ⟨some b, some e⟩ ∧ Executions.eligible s.now b = true ∧
      e.attemptCount = b.attemptCount + 1 := by
  obtain ⟨ke, b, e, rfl, rfl, hheld, eligible, counted⟩ := grips
  have hb : (after acts).world.rows .executions ke = some b := ((keeps_all acts).sound.held t s .executions ke _ hs hheld).2
  have hid : b.executionId = ke.id := ((keeps_all acts).inv.linked.execution ke b hb).1
  have hke : (⟨ke.schema, b.executionId⟩ : Key) = ke := by rw [hid]
  exact ⟨b, e, by rw [hke]; exact hb, by rw [hke]; exact hheld, eligible, counted⟩

theorem settled_after {e : Execution} (he : (after acts).world.rows .executions k = some e) (now : Int)
    (h : Deferred now e) : e.status.terminal = true ∨ now ≤ e.runAt := by
  rcases h with running | terminal | later
  · exact absurd running ((keeps_all acts).inv.ledger.settled k e he).notRunning
  · exact Or.inl terminal
  · exact Or.inr later

/-- A line is committed together with the attempt that it is about. -/
theorem timed_new {y : Held ExecutionLog} (hs : (after acts).world.sessions t = some s)
    (hy : s.held .executionLogs k = some y) (hl : y.new = some l)
    (rows : (after (acts ++ [x])).world.rows = s.visible (after acts).world.rows) {e : Execution}
    (he : (after (acts ++ [x])).world.rows .executions ⟨k.schema, l.executionId⟩ = some e) :
    e.status.terminal = true ∨ l.loggedAt ≤ e.runAt := by
  have handled := logging_handled hs hy
  obtain ⟨_, hlog, grips⟩ := handled.gripped hy hl
  obtain ⟨b, e', _, hheld, _, counted⟩ := grips_row hs grips
  have same : s.visible (after acts).world.rows .executions ⟨k.schema, l.executionId⟩ = some e' := by
    simp [Session.visible, hheld]
  rw [← rows, he] at same
  cases same
  rw [hlog]
  refine settled_after he s.now ?_
  rcases handled.execution _ _ e hheld rfl with unchanged | deferred
  · cases unchanged
    omega
  · exact deferred

/-- Only a worker's transaction records an attempt. -/
theorem handled_attempt {th : Thread (service env)} {ke ka : Key} {b e : Execution} {a : Attempt}
    (c : Commits (.all _) (after acts) x t th s) (rows : (after (acts ++ [x])).world.rows = s.visible (after acts).world.rows)
    (made : AttemptMade s.now (after acts).world.rows (after (acts ++ [x])).world.rows ke ka b e a) : Handled s := by
  obtain ⟨th', _, kept, _⟩ := session_kept c.session
  cases hw : isWork th'.req with
  | true => exact (kept s rfl c.live).1 hw
  | false =>
    have there : (after (acts ++ [x])).world.rows .attempts ka = some a := by rw [made.attempts, Function.update_self]
    have free := ((kept s rfl c.live).2 hw ka).2
    have absent : s.visible (after acts).world.rows .attempts ka = none := by
      simpa [Session.visible, free] using made.unused
    rw [rows, absent] at there
    cases there

/-- An execution that an attempt has ended or put off is deferred. -/
theorem Handled.worked {ke ka : Key} {b e : Execution} {a : Attempt} (h : Handled s)
    (hs : (after acts).world.sessions t = some s) (rows : (after (acts ++ [x])).world.rows = s.visible (after acts).world.rows)
    (made : AttemptMade s.now (after acts).world.rows (after (acts ++ [x])).world.rows ke ka b e a) : Deferred s.now e := by
  have there : (after (acts ++ [x])).world.rows .executions ke = some e := by rw [made.executions, Function.update_self]
  have counted := made.attempt.counted
  have changed : ∀ b' : Execution, some b' = some b → some e ≠ some b' := by
    rintro b' same he
    cases same
    cases he
    omega
  rw [rows] at there
  cases hx : s.held .executions ke with
  | none =>
    have same : (after acts).world.rows .executions ke = some e := by simpa [Session.visible, hx] using there
    rw [made.found] at same
    exact absurd same.symm (changed b rfl)
  | some y =>
    have new : y.new = some e := by simpa [Session.visible, hx] using there
    have base : (after acts).world.rows .executions ke = y.base := ((keeps_all acts).sound.held t s .executions ke y hs hx).2
    rcases h.execution ke y e hx new with same | deferred
    · rw [made.found, ← same, new] at base
      exact absurd base.symm (changed b rfl)
    · exact deferred

theorem timed_old (timed : Timed (after acts).world.rows) (hl : (after acts).world.rows .executionLogs k = some l)
    {e' : Execution} (he' : (after (acts ++ [x])).world.rows .executions ⟨k.schema, l.executionId⟩ = some e') :
    e'.status.terminal = true ∨ l.loggedAt ≤ e'.runAt := by
  have keeps := keeps_all acts
  have there := List.all_eq_true.mp (keeps.sound.refs .executionLogs k l hl) _ (List.mem_singleton.mpr rfl)
  obtain ⟨e, he⟩ := Option.isSome_iff_exists.mp there
  have known := timed.before k l hl e he
  have step (now : Int) (h : Unworked now (some e) (some e')) : e'.status.terminal = true ∨ l.loggedAt ≤ e'.runAt := by
    cases h with
    | same => exact known
    | cancel cancelled =>
      obtain ⟨_, rfl⟩ := cancelled
      exact Or.inl rfl
  rcases act_rows keeps (Pool.meets_all _ [x]).1 with frame | ⟨u, th, s, c⟩
  · have same : (after (acts ++ [x])).world.rows .executions = (after acts).world.rows .executions := by
      rw [after_snoc]
      exact frame .executions (by simp)
    rw [same, he] at he'
    cases he'
    exact known
  · have rows : (after (acts ++ [x])).world.rows = s.visible (after acts).world.rows := by rw [after_snoc, c.rows]
    have commit := c.commit
    rw [← after_snoc] at commit
    rcases commit.attempt_or with ⟨_, unworked⟩ | ⟨ke, ka, b, e₁, a, made⟩
    · have moved := unworked ⟨k.schema, l.executionId⟩
      rw [he, he'] at moved
      exact step _ moved
    · have handled := handled_attempt c rows made
      rcases update_cases made.executions ⟨k.schema, l.executionId⟩ with ⟨hk, hv⟩ | ⟨_, hv⟩
      · rw [he'] at hv
        rw [hk, made.found] at he
        cases hv
        cases he
        obtain ⟨hstatus, due⟩ := eligible_status made.attempt.eligible
        have earlier : l.loggedAt ≤ s.now := by
          rcases known with ended | later
          · rcases hstatus with hs | hs | hs <;> simp [hs, ExecutionStatus.terminal] at ended
          · exact le_trans later due
        rw [hk] at he'
        refine (settled_after he' s.now (handled.worked c.session rows made)).imp_right fun later => le_trans earlier later
      · rw [he', he] at hv
        cases hv
        exact known

theorem timed_run (acts : List (Action (service env))) : Timed (after acts).world.rows := by
  induction acts using List.reverseRecOn with
  | nil => exact ⟨fun _ _ h => (by cases h), fun _ _ h => (by cases h)⟩
  | append_singleton acts x ih =>
    have arrives : ∀ k, ∀ l : ExecutionLog, (after (acts ++ [x])).world.rows .executionLogs k = some l →
        (after acts).world.rows .executionLogs k = some l ∨ ∃ t s y, (after acts).world.sessions t = some s ∧
          s.held .executionLogs k = some y ∧ y.new = some l ∧
          (after (acts ++ [x])).world.rows = s.visible (after acts).world.rows := by
      intro k l hl
      rw [after_snoc] at hl ⊢
      exact Pool.rows_act (keeps_all acts).sound x hl
    refine ⟨fun k l hl => ?_, fun k l hl e he => ?_⟩
    · rcases arrives k l hl with old | ⟨t, s, y, hs, hy, new, _⟩
      · exact ih.line k l old
      · exact ((logging_handled hs hy).gripped hy new).1
    · rcases arrives k l hl with old | ⟨t, s, y, hs, hy, new, rows⟩
      · exact timed_old ih old he
      · exact timed_new hs hy new rows he

end steps

section arrivals

variable {k' : Key} {l l' : ExecutionLog} {n n' : Nat}

theorem works_keep : Works (Op.Keeps (M := Pg) .executionLogs) where
  ext _ := trivial
  halt := trivial
  read _ _ := trivial
  attempt _ := trivial
  log _ := trivial
  retire _ _ := fun h => by cases h
  drop _ := trivial
  finish := trivial
  execution _ _ _ _ _ _ := fun h => by cases h
  claim _ _ _ _ := fun h => by cases h
  begin := trivial
  commit := trivial
  rollback := trivial

/-- No call changes a log line. -/
theorem lines_keep (acts : List (Action (service env))) (t : Nat) (req : Request env) (o : Op Pg)
    (h : (after acts).next t = some (req, o)) : Op.Keeps (M := Pg) .executionLogs o := by
  have uses : ∀ req : Request env, req.program.Uses (Op.Keeps (M := Pg) .executionLogs) := by
    intro req
    cases hw : isWork req with
    | false =>
      refine (unlogged_all hw).mono fun o ho => ?_
      cases o with
      | update stmt tb k skip keep patch =>
        rintro rfl
        exact ho
      | _ => trivial
    | true =>
      cases req with
      | work => exact Prog.Uses.bind (uses_work works_keep _ _) fun _ => trivial
      | _ => cases hw
  have holds : ∀ req : Request env, req.program.Holds Recalls (fun _ o => Op.Keeps (M := Pg) .executionLogs o)
      (fun _ _ => True) (none, []) := fun req =>
    (uses req).holds (P := fun _ => True) trivial (fun _ _ ho _ => ho) fun _ _ _ _ _ _ _ => trivial
  obtain ⟨_, _, keeps⟩ := Pool.recalled holds h
  exact keeps

/-- The step of the run that writes the line. -/
abbrev WrittenAt (acts : List (Action (service env))) (n : Nat) (k : Key) (l : ExecutionLog) : Prop :=
  @Entered Pg (service env) .executionLogs acts n k l

/-- The line is written in a transaction that has claimed the execution and began at the line's time. -/
theorem line_session (h : (after acts).world.Uncommitted .executionLogs k l) : ∃ t s, (after acts).world.sessions t = some s ∧
    l.loggedAt = s.now ∧ Grips k.schema l.executionId s := by
  obtain ⟨t, s, y, hs, hy, hl⟩ := h
  obtain ⟨_, hlog, grips⟩ := (logging_handled hs hy).gripped hy hl
  exact ⟨t, s, hs, hlog, grips⟩

/-- A line is not earlier than those of the execution that came before it. -/
theorem lines_weakly_ordered (h : WrittenAt acts n k l) (h' : WrittenAt acts n' k' l') (earlier : n < n')
    (schema : k.schema = k'.schema) (execution : l.executionId = l'.executionId) : l.loggedAt ≤ l'.loggedAt := by
  obtain ⟨t', s', hs', hlog', grips'⟩ := line_session (h'.pending rfl lines_keep)
  have there := h.since (n' + 1) (by omega) h'.inRun
  rw [hlog']
  obtain ⟨b, e, hb, hheld, eligible, counted⟩ := grips_row hs' grips'
  rcases there with committed | uncommitted
  · rw [← schema, ← execution] at hb
    obtain ⟨hstatus, due⟩ := eligible_status eligible
    rcases (timed_run _).before k l committed b hb with ended | later
    · rcases hstatus with hs | hs | hs <;> simp [hs, ExecutionStatus.terminal] at ended
    · exact le_trans later due
  · obtain ⟨t, s, hs, hlog, grips⟩ := line_session uncommitted
    obtain ⟨_, _, _, hheld₁, _, _⟩ := grips_row hs grips
    rw [schema, execution] at hheld₁
    have lock := ((keeps_all (acts.take (n' + 1))).sound.held t s .executions _ _ hs hheld₁).1
    have lock' := ((keeps_all (acts.take (n' + 1))).sound.held t' s' .executions _ _ hs' hheld).1
    rw [lock] at lock'
    cases lock'
    rw [hs] at hs'
    cases hs'
    exact le_of_eq hlog

end arrivals

end Invokr
