import Invokr.Working

namespace Invokr

open TxLib

variable {env : Setup} {g : Guard (service env)} {workerId : String} {schemas : List String} {t : Nat} {now : Int}
  {K : Rows Pg → Prop} {w₀ : World Pg} {ke : Key} {b e : Execution} {o : Option Dispatch}
  {a : Option (Key × Attempt)} {rest : List String}

/-- The worker's transaction after its claim, unless it is lost. -/
abbrev Claimed (g : Guard (service env)) (t : Nat) (now : Int) (K : Rows Pg → Prop) (ke : Key) (b e : Execution)
    (o : Option Dispatch) (a : Option (Key × Attempt)) (rest : List String) (w : World Pg) : Prop :=
  Open t now (Past ke b o) K (Unless (Lost g o) (Working g now ke b e a rest)) w

/-- What is known of the claimed execution and of the dispatch, if there is one. -/
structure Claim (ke : Key) (b e : Execution) (o : Option Dispatch) : Prop where
  dispatched : ∀ d, o = some d → d.key = ke
  counted : e.attemptCount = b.attemptCount + 1

theorem drawn_used {w : World Pg} {s : Session Pg} {e₁ : Env Pg} {stmt : Statement} {tb : Table} {orIgnore : Bool}
    {build : Uuid → Int → Key × tb.Row} {r : tb.Row} (hs : w.sessions t = some s)
    (h : w.rows tb (build e₁.fresh s.now).1 = some r ∨ s.visible w.rows tb (build e₁.fresh s.now).1 = some r) :
    Unlucky w t e₁ (.insert stmt tb orIgnore build) := by
  refine Or.inr ⟨s, r, hs, ?_⟩
  rcases h with h | h
  · exact Or.inl h
  · exact World.visible_version hs h

theorem runs_ext {α : Type} {x : External} {f : External.Answer x → Program Pg α} {post : α → World Pg → Prop}
    (hx : Free (.ext x)) (claim : Claim ke b e o) (hK : Lasting K) (hw : Claimed g t now K ke b e o a rest w₀)
    (h : ∀ w e₁ w', Here g (.work workerId schemas) t (Past ke b o) K w e₁ (.ext x) → Claimed g t now K ke b e o a rest w' →
      Runs g (.work workerId schemas) t post (f (e₁.answer x)) w') :
    Runs g (.work workerId schemas) t post (ext (M := Pg) x >>= f) w₀ := by
  refine holds_ext hK.stable (covers_working claim.dispatched claim.counted _ _ hx hw) hw fun w s e₁ w' facts _ ho => ?_
  refine h w e₁ w' facts.toMoment (ho.mono ?_ (fun _ h => h) fun _ _ h => h)
  rintro l ⟨l₀, hl, rfl⟩
  refine extends_past l₀ _ rfl ?_ hl
  cases x with
  | dispatch d => exact hx.elim
  | _ => rfl

section attempts

variable {number : Int} {status : AttemptStatus} {output error : Option Json}

theorem attempt_lost {w : World Pg} {s : Session Pg} {e₁ : Env Pg} {build : Uuid → Int → Key × Attempt}
    (hbuild : ∀ id now, (build id now).1.schema = ke.schema ∧ (build id now).2.executionId = ke.id ∧
      (build id now).2.attemptNumber = b.attemptCount + 1 ∧ (build id now).2.output = output ∧
      (build id now).2.error = error)
    (accepts : Lost g o ∨ (output.all jsonbAccepts = true ∧ error.all jsonbAccepts = true))
    (facts : At g (.work workerId schemas) t now (Past ke b o) K w s e₁ (.insert .insertAttempt .attempts false build))
    (hf : InsertFails w s e₁ .attempts (build e₁.fresh now))
    (hs : Unless (Lost g o) (Working g now ke b e none rest) s) : Lost g o := by
  have hnow := facts.now
  subst hnow
  by_cases ha : s.aborted = true
  · exact lost_of_aborted hs ha
  have working := unless_live hs (by simpa using ha)
  obtain ⟨hschema, hid, hnum, hout, herr⟩ := hbuild e₁.fresh s.now
  have quiet : Quiet (M := Pg) .attempts s := working.attempt
  have hv := facts.sound.visible_quiet facts.session quiet
  rcases hf with h | h | h | h | h
  · exact (ha h).elim
  · exact lost_of_unlucky facts.toMoment (Or.inl h)
  · rcases accepts with lost | ⟨h₁, h₂⟩
    · exact lost
    · simp [Table.storable, hout, herr, h₁, h₂] at h
  · obtain ⟨k', r', hr, hk⟩ := clash_cases h
    rcases hk with rfl | ⟨_, hu⟩
    · exact lost_of_unlucky facts.toMoment (drawn_used facts.session hr)
    · rw [hv, or_self] at hr
      simp only [Table.unique, Option.some.injEq, UniqueIndex.attemptsExecNumber.injEq, hschema, hid, hnum] at hu
      obtain ⟨e₀, he₀, _, hle, _⟩ := facts.inv.ledger.attempt k' r' hr
      have hke : (⟨k'.schema, r'.executionId⟩ : Key) = ke := by rw [hu.1, hu.2.1]
      rw [hke, (facts.sound.visible_only facts.session working.execution).1] at he₀
      cases he₀
      omega
  · have hke : (⟨(build e₁.fresh s.now).1.schema, (build e₁.fresh s.now).2.executionId⟩ : Key) = ke := by
      rw [hschema, hid]
    simp [refsVisible, Table.refs, hke, working.execution.visible] at h

theorem does_insertAttempt {build : Uuid → Int → Key × Table.Row .attempts} {P : World Pg → Prop}
    (claim : Claim ke b e o) (hK : Lasting K)
    (hbuild : ∀ id now, (build id now).1.schema = ke.schema ∧ (build id now).2.executionId = ke.id ∧
      (build id now).2.attemptNumber = b.attemptCount + 1 ∧ (build id now).2.output = output ∧
      (build id now).2.error = error)
    (hstatus : ∀ id now, (build id now).2.status = status)
    (accepts : Lost g o ∨ (output.all jsonbAccepts = true ∧ error.all jsonbAccepts = true))
    (hw : Claimed g t now K ke b e o none rest w₀)
    (h : ∀ ka x w', ka.schema = ke.schema → x.executionId = ke.id → x.attemptNumber = b.attemptCount + 1 →
      x.status = status → Claimed g t now K ke b e o (some (ka, x)) rest w' → P w') :
    Does g (.work workerId schemas) t (fun _ w' => P w') (fun _ w' => P w') (insertOne .insertAttempt .attempts build) w₀ := by
  refine does_insertOne hK (by decide) (covers_working claim.dispatched claim.counted) hw ?_ ?_
  · intro x w w' s e₁ facts hf hs ho'
    obtain ⟨hschema, hid, hnum, _⟩ := hbuild e₁.fresh now
    refine h (build e₁.fresh now).1 (build e₁.fresh now).2 w' hschema hid hnum (hstatus _ _) (open_lost ho' ?_)
    exact attempt_lost hbuild accepts facts hf hs
  · intro w w' s e₁ facts ha hs hfree hheld ho'
    obtain ⟨hschema, hid, hnum, _⟩ := hbuild e₁.fresh now
    refine h (build e₁.fresh now).1 (build e₁.fresh now).2 w' hschema hid hnum (hstatus _ _)
      (ho'.mono (fun _ h => h) (fun _ h => h ▸ facts.known) fun s' _ h => ?_)
    subst h
    exact Or.inr ⟨ha, (unless_live hs ha).record hheld hfree⟩

/-- `record_attempt`: the attempt is there afterwards, or the transaction is lost. -/
theorem runs_recordAttempt {α : Type} {tp : String} {startedAt : Time} {f : Unit → Program Pg α}
    {post : α → World Pg → Prop} (claim : Claim ke b e o) (hK : Lasting K) (hn : number = b.attemptCount + 1)
    (accepts : Lost g o ∨ (output.all jsonbAccepts = true ∧ error.all jsonbAccepts = true))
    (hw : Claimed g t now K ke b e o none rest w₀)
    (h : ∀ ka x w', ka.schema = ke.schema → x.executionId = ke.id → x.attemptNumber = number → x.status = status →
      Claimed g t now K ke b e o (some (ka, x)) rest w' → Runs g (.work workerId schemas) t post (f ()) w') :
    Runs g (.work workerId schemas) t post
      (Pipeline.recordAttempt ⟨ke.schema, tp, true⟩ ke.id number status startedAt output error >>= f) w₀ := by
  unfold Pipeline.recordAttempt
  refine Prog.holds_bind.mpr ?_
  refine runs_ext (x := .now) trivial claim hK hw fun _ e₀ w₁ _ ho => ?_
  refine holds_run (does_insertAttempt claim hK (fun _ _ => ⟨rfl, rfl, hn, rfl, rfl⟩) (fun _ _ => rfl) accepts ho ?_)
  intro ka x w₂ hschema hid hnum hst hc
  exact Prog.holds_pure.mpr (h ka x w₂ hschema hid (hnum.trans hn.symm) hst hc)

end attempts

section logs

theorem log_lost {w : World Pg} {s : Session Pg} {e₁ : Env Pg} {build : Uuid → Int → Key × ExecutionLog}
    {message : String} {T : Prop}
    (hbuild : ∀ id now, (build id now).1.schema = ke.schema ∧ (build id now).2.executionId = ke.id ∧
      (build id now).2.message = message)
    (unlucky : Unlucky w t e₁ (.insert .insertLog .executionLogs false build) → T)
    (accepts : T ∨ textAccepts message = true)
    (facts : At g (.work workerId schemas) t now (Past ke b o) K w s e₁ (.insert .insertLog .executionLogs false build))
    (hf : InsertFails w s e₁ .executionLogs (build e₁.fresh now))
    (hs : Unless T (Working g now ke b e a rest) s) : T := by
  have hnow := facts.now
  subst hnow
  rcases hs with ⟨_, lost⟩ | ⟨ha, working⟩
  · exact lost
  obtain ⟨hschema, hid, hmess⟩ := hbuild e₁.fresh s.now
  rcases hf with h | h | h | h | h
  · rw [ha] at h
    cases h
  · exact unlucky (Or.inl h)
  · rcases accepts with lost | h₁
    · exact lost
    · simp [Table.storable, hmess, h₁] at h
  · obtain ⟨k', r', hr, rfl | ⟨hu, _⟩⟩ := clash_cases h
    · exact unlucky (drawn_used facts.session hr)
    · exact (hu rfl).elim
  · have hke : (⟨(build e₁.fresh s.now).1.schema, (build e₁.fresh s.now).2.executionId⟩ : Key) = ke := by
      rw [hschema, hid]
    simp [refsVisible, Table.refs, hke, working.execution.visible] at h

theorem does_insertLog {build : Uuid → Int → Key × Table.Row .executionLogs} {message : String} {P : World Pg → Prop}
    (claim : Claim ke b e o) (hK : Lasting K)
    (hbuild : ∀ id now, (build id now).1.schema = ke.schema ∧ (build id now).2.executionId = ke.id ∧
      (build id now).2.message = message)
    (accepts : Lost g o ∨ textAccepts message = true) (hw : Claimed g t now K ke b e o a rest w₀)
    (h : ∀ w', Claimed g t now K ke b e o a rest w' → P w') :
    Does g (.work workerId schemas) t (fun _ w' => P w') (fun _ w' => P w') (insertOne .insertLog .executionLogs build) w₀ := by
  refine does_insertOne hK (by decide) (covers_working claim.dispatched claim.counted) hw ?_ ?_
  · intro x w w' s e₁ facts hf hs ho'
    exact h w' (open_lost ho' (log_lost hbuild (lost_of_unlucky facts.toMoment) accepts facts hf hs))
  · intro w w' s e₁ facts ha hs _ _ ho'
    refine h w' (ho'.mono (fun _ h => h) (fun _ h => h ▸ facts.known) fun s' _ h => ?_)
    subst h
    exact Or.inr ⟨ha, (unless_live hs ha).log⟩

/-- `log_execution`: the transaction goes on as it was, or is lost. -/
theorem runs_logExecution {α : Type} {tp message : String} {number : Int} {level : LogLevel} {f : Unit → Program Pg α}
    {post : α → World Pg → Prop} (claim : Claim ke b e o) (hK : Lasting K)
    (accepts : Lost g o ∨ textAccepts message = true) (hw : Claimed g t now K ke b e o a rest w₀)
    (h : ∀ w', Claimed g t now K ke b e o a rest w' → Runs g (.work workerId schemas) t post (f ()) w') :
    Runs g (.work workerId schemas) t post
      (Pipeline.logExecution ⟨ke.schema, tp, true⟩ ke.id number level message >>= f) w₀ := by
  refine Prog.holds_bind.mpr (holds_run (tries_bind ?_))
  refine Tries.mono (does_insertLog claim hK (fun _ _ => ⟨rfl, rfl, rfl⟩) accepts hw h) (fun _ _ h => ?_) fun _ _ h => ?_
  · exact tries_pure (Prog.holds_pure.mpr h)
  · exact Prog.holds_pure.mpr h

theorem runs_lastLog {tp message : String} {number : Int} {level : LogLevel} {post : Unit → World Pg → Prop}
    (claim : Claim ke b e o) (hK : Lasting K) (accepts : Lost g o ∨ textAccepts message = true)
    (hw : Claimed g t now K ke b e o a rest w₀) (h : ∀ w', Claimed g t now K ke b e o a rest w' → post () w') :
    Runs g (.work workerId schemas) t post (Pipeline.logExecution ⟨ke.schema, tp, true⟩ ke.id number level message) w₀ :=
  Prog.holds_bind.mp (runs_logExecution (f := pure) claim hK accepts hw fun w' hc => Prog.holds_pure.mpr (h w' hc))

end logs

section completion

variable {stmt : Statement} {p : Patch Pg .executions}

/-- A statement that ends the attempt, of a worker that still has its transaction. -/
theorem runs_complete {α : Type} {tp : String} {f : Except DbError Unit → Program Pg α} {post : α → World Pg → Prop}
    (claim : Claim ke b e o) (hK : Lasting K) (hstmt : stmt ≠ .claim) (running : e.status = .running)
    (hjob : (p.apply now e : Execution).jobId = e.jobId)
    (fits : ∀ w s e₁, At g (.work workerId schemas) t now (Past ke b o) K w s e₁
        (.update stmt .executions ke false Executions.isRunning p) → s.visible w.rows .executions ke = some e →
      Pg.storable .executions e = true → Lost g o ∨ Pg.storable .executions (p.apply now e) = true)
    (hw : Claimed g t now K ke b e o a rest w₀)
    (h : ∀ r w', Claimed g t now K ke b (p.apply now e) o a rest w' → Runs g (.work workerId schemas) t post (f r) w') :
    Runs g (.work workerId schemas) t post
      ((DbContext.execute ⟨ke.schema, tp, true⟩ (do
        let _ ← updateOne stmt .executions ke Executions.isRunning p
        return () : Try Pg DbError Unit)).run >>= f) w₀ := by
  refine holds_run (tries_bind ?_)
  refine does_updateOne hK (Q := Unless (Lost g o) (Working g now ke b e a rest)) ?_ hstmt
    (covers_working claim.dispatched claim.counted) hw ?_ ?_ ?_
  · intro s s' hl hs
    rcases hs with ⟨ha, lost⟩ | ⟨ha, working⟩
    · exact Or.inl ⟨hl.2.1.trans ha, lost⟩
    · exact Or.inr ⟨hl.2.1.trans ha, working.locks hl⟩
  · intro x op w w' s e₁ facts hop hf hs ho
    refine h _ w' (open_lost ho ?_)
    by_cases ha : s.aborted = true
    · exact lost_of_aborted hs ha
    have working := unless_live hs (by simpa using ha)
    have hv := working.execution.visible (D := w.rows)
    have hnow := facts.now
    rcases hf with hf | hf | ⟨rfl, old, hold, _, hbad⟩
    · exact (ha hf).elim
    · exact lost_of_unlucky facts.toMoment (Or.inl hf)
    · obtain rfl : e = old := Option.some.inj (hv.symm.trans hold)
      rw [hnow] at hbad
      rcases hbad with hbad | hbad
      · have stored : Pg.storable .executions e = true :=
          facts.sound.stored .executions ke e (World.visible_version facts.session hv)
        refine (fits w s e₁ facts hv stored).resolve_right fun hgood => ?_
        rw [hgood] at hbad
        cases hbad
      · have hrefs := facts.sound.refs_of_visible facts.session hv
        simp only [refsVisible, Table.refs, hjob] at hbad hrefs
        rw [hrefs] at hbad
        cases hbad
  · intro op w w' s e₁ facts _ ha hs hmiss _
    have working := unless_live hs ha
    have := hmiss e (working.execution.visible (D := w.rows))
    simp [Executions.isRunning, running] at this
  · intro w w' s e₁ old facts ha hs finds _ ho
    have working := unless_live hs ha
    obtain rfl : e = old := Option.some.inj ((working.execution.visible (D := w.rows)).symm.trans finds.visible)
    refine tries_pure (h _ w' (ho.mono ?_ (fun _ h => h ▸ facts.known) fun s' _ h => h ▸ Or.inr ⟨ha, working.patch⟩))
    rintro l ⟨l₀, hl, rfl⟩
    exact extends_past l₀ _ rfl rfl hl

end completion

section outcomes

/-- The attempt is recorded and the execution is at its end or set up for another attempt. -/
def Finished (g : Guard (service env)) (now : Int) (ke : Key) (b : Execution) (s : Session Pg) : Prop :=
  ∃ e ka x, Working g now ke b e (some (ka, x)) [] s ∧ Worked now b e x ∧ ka.schema = ke.schema ∧ x.executionId = ke.id

/-- The worker has done all it had to do, unless its transaction is lost. -/
abbrev Over (g : Guard (service env)) (t : Nat) (now : Int) (K : Rows Pg → Prop) (ke : Key) (b : Execution)
    (o : Option Dispatch) (w : World Pg) : Prop :=
  Open t now (Past ke b o) K (Unless (Lost g o) (Finished g now ke b)) w

/-- The version of the execution that the claim leaves. -/
def claimedRow (workerId : String) (now : Int) (b : Execution) : Execution := (Executions.claimPatch workerId).apply now b

theorem worked_of {e' : Execution} {x : Attempt} (heligible : Executions.eligible now b = true)
    (hid : e'.executionId = b.executionId ∧ e'.jobId = b.jobId ∧ e'.endpoint = b.endpoint ∧
      e'.endpointType = b.endpointType ∧ e'.idempotencyKey = b.idempotencyKey ∧ e'.input = b.input ∧
      e'.maxAttempts = b.maxAttempts ∧ e'.createdAt = b.createdAt)
    (hcount : e'.attemptCount = b.attemptCount + 1) (hnum : x.attemptNumber = b.attemptCount + 1)
    (hcan : Executions.cancellable e' = false)
    (outcome : (e'.status = .success ∧ x.status = .success ∧ e'.completedAt = some now) ∨
      (e'.status = .failed ∧ x.status = .failed ∧ e'.completedAt = some now) ∨
      (e'.status = .retrying ∧ x.status = .failed ∧ e'.completedAt = none ∧ e'.attemptCount < e'.maxAttempts))
    (started : e'.startedAt = some now) : Worked now b e' x := by
  obtain ⟨h₁, h₂, h₃, h₄, h₅, h₆, h₇, h₈⟩ := hid
  refine ⟨heligible, ⟨h₁, h₂, h₃, h₄, h₅, h₆, h₇, h₈, fun _ => hcan, fun hterm => ?_⟩, hcount, hnum.trans hcount.symm, outcome,
    started⟩
  rcases (eligible_status heligible).1 with h | h | h <;> simp [h, ExecutionStatus.terminal] at hterm

/-- The working transaction with a recorded attempt is over. -/
theorem Working.finished {e' : Execution} {ka : Key} {x : Attempt} {s : Session Pg}
    (h : Working g now ke b e' (some (ka, x)) [] s) (worked : Worked now b e' x) (hschema : ka.schema = ke.schema)
    (hid : x.executionId = ke.id) : Finished g now ke b s := ⟨e', ka, x, h, worked, hschema, hid⟩

theorem over_of {e' : Execution} {ka : Key} {x : Attempt} {w : World Pg}
    (h : Claimed g t now K ke b e' o (some (ka, x)) [] w) (worked : Worked now b e' x) (hschema : ka.schema = ke.schema)
    (hid : x.executionId = ke.id) : Over g t now K ke b o w :=
  h.mono (fun _ h => h) (fun _ h => h) fun _ _ h => h.imp_right fun h => ⟨h.1, h.2.finished worked hschema hid⟩

/-- What the pipeline is called with. -/
structure CallFor (ke : Key) (b : Execution) (c : Pipeline.Call) : Prop where
  schemaName : c.schemaName = ke.schema
  executionId : c.executionId = ke.id
  attemptCount : c.attemptCount = b.attemptCount + 1
  maxAttempts : c.maxAttempts = b.maxAttempts

variable {wid tp : String} {c : Pipeline.Call} {p : Pipeline.Prepared} {post : Unit → World Pg → Prop}

theorem runs_succeed {output : Json} (hc : CallFor ke b c) (dispatched : ∀ d, o = some d → d.key = ke) (hK : Lasting K)
    (heligible : Executions.eligible now b = true) (accepts : Lost g o ∨ jsonbAccepts output = true)
    (hw : Claimed g t now K ke b (claimedRow wid now b) o none [] w₀) (h : ∀ w', Over g t now K ke b o w' → post () w') :
    Runs g (.work workerId schemas) t post (Pipeline.finalize env ⟨ke.schema, tp, true⟩ c p (.success output)) w₀ := by
  unfold Pipeline.finalize
  rw [hc.executionId, hc.attemptCount]
  have claim : Claim ke b (claimedRow wid now b) o := ⟨dispatched, rfl⟩
  refine runs_ext (x := .now) trivial claim hK hw fun _ e₁ w₁ _ h₁ => ?_
  refine runs_recordAttempt claim hK rfl (accepts.imp_right fun h => ⟨h, rfl⟩) h₁ ?_
  intro ka x w₂ hschema hid hnum hst h₂
  refine runs_complete claim hK (by decide) rfl rfl ?_ h₂ ?_
  · intro w s e₁ _ _ stored
    refine accepts.imp_right fun hout => ?_
    simp only [Table.storable, Bool.and_eq_true, Executions.successPatch, Option.all_some] at stored ⊢
    exact ⟨⟨⟨⟨⟨stored.1.1.1.1.1, hout⟩, stored.1.1.1.2⟩, stored.1.1.2⟩, stored.1.2⟩, stored.2⟩
  · intro r w₃ h₃
    have claim' : Claim ke b ((Executions.successPatch output).apply now (claimedRow wid now b)) o := ⟨dispatched, rfl⟩
    refine runs_lastLog claim' hK (Or.inr ?_) h₃ fun w₄ h₄ => h w₄ (over_of h₄ ?_ hschema hid)
    · simp only [textAccepts_append, textAccepts_int, Bool.and_true, Bool.and_eq_true]
      decide
    exact worked_of heligible ⟨rfl, rfl, rfl, rfl, rfl, rfl, rfl, rfl⟩ rfl hnum rfl (Or.inl ⟨rfl, hst, rfl⟩) rfl

/-- A delay that a worker computes without a panic makes a retry whose time fits, or the transaction is lost. -/
theorem retry_fits {ms : Int} {w : World Pg} {s : Session Pg} {e₁ : Env Pg}
    (facts : At g (.work workerId schemas) t now (Past ke b o) K w s e₁
      (.update .completeRetry .executions ke false Executions.isRunning (Executions.retryPatch ms)))
    (hv : s.visible w.rows .executions ke = some e) (stored : Pg.storable .executions e = true) :
    Lost g o ∨ Pg.storable .executions ((Executions.retryPatch ms).apply now e) = true := by
  have hnow := facts.now
  subst hnow
  by_cases hfit : timeFits ((Executions.retryPatch ms).apply s.now e : Execution).runAt = true
  · right
    simp only [Table.storable, Bool.and_eq_true, Executions.retryPatch] at stored hfit ⊢
    exact ⟨⟨⟨⟨⟨stored.1.1.1.1.1, stored.1.1.1.1.2⟩, stored.1.1.1.2⟩, stored.1.1.2⟩, rfl⟩, hfit⟩
  · left
    cases o with
    | none => trivial
    | some d =>
      intro counted
      refine counted.1 workerId schemas w t e₁ _ facts.allowed (Or.inr (Or.inr (Or.inl ?_)))
      exact ⟨s, e, facts.session, hv, by simpa using hfit⟩

theorem runs_computed {attempt jitter : Int} {policy : RetryPolicy} {post : Int → World Pg → Prop} {w : World Pg}
    (claim : Claim ke b e o) (hc : Claimed g t now K ke b e o a rest w) (h : ∀ ms, post ms w) :
    Runs g (.work workerId schemas) t post
      (match Backoff.computeBackoff env.overflowChecks policy attempt jitter with
        | some ms => return ms
        | none => halt) w := by
  split
  next ms _ => exact Prog.holds_pure.mpr (h ms)
  next => exact holds_halt (covers_working claim.dispatched claim.counted _ _ trivial hc)

theorem runs_backoffFor {α : Type} {attempt : Int} {policy : RetryPolicy} {f : Int → Program Pg α}
    {post : α → World Pg → Prop} (claim : Claim ke b e o) (hK : Lasting K) (hw : Claimed g t now K ke b e o a rest w₀)
    (h : ∀ ms w', Claimed g t now K ke b e o a rest w' → Runs g (.work workerId schemas) t post (f ms) w') :
    Runs g (.work workerId schemas) t post (Pipeline.backoffFor env policy attempt >>= f) w₀ := by
  refine Prog.holds_bind.mpr ?_
  unfold Pipeline.backoffFor
  refine Prog.holds_bind.mpr ?_
  have undrawn : Pipeline.retryJitter env policy attempt = pure 0 → Runs g (.work workerId schemas) t (fun jitter w =>
      Runs g (.work workerId schemas) t (fun ms w' => Runs g (.work workerId schemas) t post (f ms) w')
        (match Backoff.computeBackoff env.overflowChecks policy attempt jitter with
          | some ms => return ms
          | none => halt) w) (Pipeline.retryJitter env policy attempt) w₀ := by
    intro hz
    rw [hz]
    exact Prog.holds_pure.mpr (runs_computed claim hw fun ms => h ms w₀ hw)
  cases hdelay : Backoff.delay env.overflowChecks policy attempt with
  | none => exact undrawn (by simp [Pipeline.retryJitter, hdelay])
  | some d =>
    by_cases hd : d.tdiv 4 > 0
    · have hjit : Pipeline.retryJitter env policy attempt = (ext (M := Pg) (.jitter (d.tdiv 4)) : Program Pg Int) := by
        simp only [Pipeline.retryJitter, hdelay]
        exact if_pos hd
      rw [hjit]
      exact Prog.holds_bind.mp (runs_ext (x := .jitter (d.tdiv 4)) (f := pure) trivial claim hK hw
        fun _ e₁ w₁ _ h₁ => Prog.holds_pure.mpr (runs_computed claim h₁ fun ms => h ms w₁ h₁))
    · refine undrawn ?_
      simp only [Pipeline.retryJitter, hdelay]
      exact if_neg hd

theorem runs_fail {error : Json} (hc : CallFor ke b c) (dispatched : ∀ d, o = some d → d.key = ke) (hK : Lasting K)
    (heligible : Executions.eligible now b = true) (accepts : Lost g o ∨ jsonbAccepts error = true)
    (hw : Claimed g t now K ke b (claimedRow wid now b) o none [] w₀) (h : ∀ w', Over g t now K ke b o w' → post () w') :
    Runs g (.work workerId schemas) t post (Pipeline.finalize env ⟨ke.schema, tp, true⟩ c p (.failure error)) w₀ := by
  unfold Pipeline.finalize
  rw [hc.executionId, hc.attemptCount, hc.maxAttempts]
  have claim : Claim ke b (claimedRow wid now b) o := ⟨dispatched, rfl⟩
  refine runs_ext (x := .now) trivial claim hK hw fun _ e₁ w₁ _ h₁ => ?_
  refine runs_recordAttempt claim hK rfl (accepts.imp_right fun h => ⟨rfl, h⟩) h₁ ?_
  intro ka x w₂ hschema hid hnum hst h₂
  split
  next hlt =>
    refine runs_backoffFor claim hK h₂ fun ms w₃ h₃ => ?_
    refine runs_complete claim hK (by decide) rfl rfl (fun w s e₁ facts hv stored => retry_fits facts hv stored) h₃ ?_
    intro r w₄ h₄
    have hge : ¬((claimedRow wid now b).attemptCount ≥ (claimedRow wid now b).maxAttempts) := by
      change ¬(b.attemptCount + 1 ≥ b.maxAttempts)
      omega
    have hstatus : ((Executions.retryPatch ms).apply now (claimedRow wid now b) : Execution).status = .retrying :=
      if_neg hge
    have hcompleted : ((Executions.retryPatch ms).apply now (claimedRow wid now b) : Execution).completedAt = none :=
      if_neg hge
    refine runs_lastLog ⟨dispatched, rfl⟩ hK (Or.inr ?_) h₄ fun w₅ h₅ => h w₅ (over_of h₅ ?_ hschema hid)
    · simp only [textAccepts_append, textAccepts_int, textAccepts_text, Bool.and_true, Bool.and_eq_true]
      decide
    · refine worked_of heligible ⟨rfl, rfl, rfl, rfl, rfl, rfl, rfl, rfl⟩ rfl hnum ?_
        (Or.inr (Or.inr ⟨hstatus, hst, hcompleted, hlt⟩)) rfl
      simp [Executions.cancellable, hstatus]
  next =>
    refine runs_complete claim hK (by decide) rfl rfl (fun w s e₁ _ _ stored => Or.inr ?_) h₂ ?_
    · simp only [Table.storable, Bool.and_eq_true, Executions.failedPatch] at stored ⊢
      exact ⟨⟨⟨⟨⟨stored.1.1.1.1.1, stored.1.1.1.1.2⟩, stored.1.1.1.2⟩, stored.1.1.2⟩, rfl⟩, stored.2⟩
    intro r w₃ h₃
    refine runs_lastLog ⟨dispatched, rfl⟩ hK (Or.inr ?_) h₃ fun w₄ h₄ => h w₄ (over_of h₄ ?_ hschema hid)
    · simp only [textAccepts_append, textAccepts_int, textAccepts_text, Bool.and_true, Bool.and_eq_true]
      decide
    · exact worked_of heligible ⟨rfl, rfl, rfl, rfl, rfl, rfl, rfl, rfl⟩ rfl hnum rfl (Or.inr (Or.inl ⟨rfl, hst, rfl⟩)) rfl

end outcomes

end Invokr
