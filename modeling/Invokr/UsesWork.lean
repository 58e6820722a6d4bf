import Invokr.Uses

namespace Invokr

open TxLib

variable {env : Setup} {p : Op Pg → Prop}

/-- The predicate admits what a worker does in its transaction, but for what it does to the execution. -/
structure Within (p : Op Pg → Prop) : Prop where
  ext : ∀ e, p (.ext e)
  halt : p .halt
  read : ∀ stmt, stmt ≠ .completeFailed → p (.snapshot stmt)
  attempt : ∀ build, p (.insert .insertAttempt .attempts false build)
  log : ∀ build, p (.insert .insertLog .executionLogs false build)
  retire : ∀ k keep, p (.update .retireExpired .jobs k false keep Jobs.retirePatch)
  drop : ∀ k, p (.delete .unschedule .cronJob k)

/-- The predicate admits what a worker does with an execution it has claimed. -/
structure Handles (p : Op Pg → Prop) : Prop extends Within p where
  finish : p (.snapshot .completeFailed)
  execution : ∀ stmt k skip keep patch, stmt ≠ .claim → p (.update stmt .executions k skip keep patch)

/-- The predicate admits the calls of a worker. -/
structure Works (p : Op Pg → Prop) : Prop extends Handles p where
  claim : ∀ k skip keep patch, p (.update .claim .executions k skip keep patch)
  begin : p .begin
  commit : p .commit
  rollback : p .rollback

/-- The predicate admits what a worker does in its transaction beside the execution and its records. -/
structure Asides (p : Op Pg → Prop) : Prop where
  ext : ∀ e, p (.ext e)
  halt : p .halt
  read : ∀ stmt, stmt ≠ .completeFailed → p (.snapshot stmt)
  retire : ∀ k keep, p (.update .retireExpired .jobs k false keep Jobs.retirePatch)
  drop : ∀ k, p (.delete .unschedule .cronJob k)

/-- The line is one of the execution's, logged in the transaction that inserts it. -/
structure LineOf (schemaName executionId : String) (build : Uuid → Int → Key × ExecutionLog) : Prop where
  key : ∀ id now, (build id now).1 = ⟨schemaName, (build id now).2.logId⟩
  executionId : ∀ id now, (build id now).2.executionId = executionId
  loggedAt : ∀ id now, (build id now).2.loggedAt = now

/-- The predicate admits what a worker does with the execution. -/
structure Processes (p : Op Pg → Prop) (schemaName executionId : String) : Prop extends Asides p where
  attempt : ∀ build, p (.insert .insertAttempt .attempts false build)
  line : ∀ build, LineOf schemaName executionId build → p (.insert .insertLog .executionLogs false build)
  finish : p (.snapshot .completeFailed)
  success : ∀ output, p (.update .completeSuccess .executions ⟨schemaName, executionId⟩ false Executions.isRunning
    (Executions.successPatch output))
  retry : ∀ backoffMs, 0 ≤ backoffMs → p (.update .completeRetry .executions ⟨schemaName, executionId⟩ false
    Executions.isRunning (Executions.retryPatch backoffMs))
  failed : p (.update .completeFailed .executions ⟨schemaName, executionId⟩ false Executions.isRunning Executions.failedPatch)

theorem Within.asides (hp : Within p) : Asides p := ⟨hp.ext, hp.halt, hp.read, hp.retire, hp.drop⟩

theorem Handles.processes (hp : Handles p) (schemaName executionId : String) : Processes p schemaName executionId where
  toAsides := hp.asides
  attempt := hp.attempt
  line build _ := hp.log build
  finish := hp.finish
  success _ := hp.execution _ _ _ _ _ (by decide)
  retry _ _ := hp.execution _ _ _ _ _ (by decide)
  failed := hp.execution _ _ _ _ _ (by decide)

theorem Handles.snapshot (hp : Handles p) (stmt : Statement) : p (.snapshot stmt) := by
  by_cases h : stmt = .completeFailed
  · rw [h]
    exact hp.finish
  · exact hp.read stmt h

theorem uses_unregister (hs : p (.snapshot .unschedule)) (drop : ∀ k, p (.delete .unschedule .cronJob k))
    (schemaName jobId : String) : (Jobs.unregisterPgCronConn schemaName jobId).run.Uses p := by
  refine uses_try_bind (Prog.uses_perform.mpr hs) fun snap => ?_
  split
  next => exact uses_try_bind (Prog.uses_perform.mpr (drop _)) fun _ => uses_done _
  next => exact uses_done _

/-- In a transaction a statement is run as it is. -/
theorem uses_inside {α : Type} {db : DbContext} {x : Try Pg DbError α} (inside : db.inTx = true) (hx : x.run.Uses p) :
    (db.execute x).run.Uses p := by
  unfold DbContext.execute
  rw [inside]
  exact hx

theorem uses_either {α : Type} {c : Prop} [Decidable c] {x y : Program Pg α} (hx : x.Uses p) (hy : y.Uses p) :
    (if c then x else y).Uses p := by
  split
  next => exact hx
  next => exact hy

section work

variable {db : DbContext}

section asides

variable (hp : Asides p)

include hp

theorem uses_call (e : External) : (ext (M := Pg) e : Program Pg (External.Answer e)).Uses p :=
  Prog.uses_perform.mpr (hp.ext e)

theorem uses_shown {α : Type} {stmt : Statement} {f : Snapshot Pg → α} (inside : db.inTx = true) (h : stmt ≠ .completeFailed) :
    (db.execute (do let snap ← query (M := Pg) stmt; return f snap)).run.Uses p :=
  uses_inside inside (uses_try_bind (Prog.uses_perform.mpr (hp.read stmt h)) fun _ => uses_done _)

theorem uses_unregisterEach (schemaName : String) (ids : List String) :
    (Reaper.unregisterEach schemaName ids).run.Uses p := by
  induction ids with
  | nil => exact uses_done _
  | cons id ids ih =>
    exact uses_try_bind (uses_unregister (hp.read _ (by decide)) hp.drop _ _) fun _ => ih

theorem uses_reapSchema (inside : db.inTx = true) (schemaName : String) : (Reaper.reapSchema db schemaName).run.Uses p := by
  refine uses_try_bind (uses_inside inside ?_) fun _ => uses_try_bind (uses_unregisterEach hp _ _) fun _ => uses_done _
  exact uses_try_bind (uses_updateWhere (hp.read _ (by decide)) fun k => hp.retire k _) fun _ => uses_done _

theorem uses_internalDispatch (inside : db.inTx = true) (schemaName : String) (spec : Json) :
    (Dispatcher.internalDispatch env db schemaName spec).Uses p := by
  unfold Dispatcher.internalDispatch
  split
  next => trivial
  next =>
    split
    next =>
      refine (uses_reapSchema hp inside schemaName).bind fun r => ?_
      cases r <;> trivial
    next => trivial

theorem uses_dispatch (inside : db.inTx = true) (d : Dispatch) : (Dispatcher.dispatch env db d).Uses p := by
  have announce : (ext (M := Pg) (.dispatch d)).Uses p := Prog.uses_perform.mpr (hp.ext _)
  unfold Dispatcher.dispatch
  split
  next => exact announce.bind fun _ => (uses_call hp _).bind fun _ => trivial
  next => exact announce.bind fun _ => uses_internalDispatch hp inside _ _
  next =>
    split
    next => exact announce.bind fun _ => (uses_call hp _).bind fun _ => trivial
    next => trivial
  next =>
    split
    next =>
      refine announce.bind fun _ => ?_
      unfold Dispatcher.redisDispatch
      split
      next => trivial
      next => exact (uses_call hp _).bind fun _ => trivial
    next => trivial

theorem uses_configGet (name : String) : (ConfigCache.get name).Uses p := by
  refine (uses_call hp _).bind fun r => ?_
  cases r with
  | live => trivial
  | expired => exact (uses_call hp _).bind fun _ => trivial
  | absent => exact (uses_call hp _).bind fun _ => trivial

theorem uses_secretGet (name : String) : (SecretCache.get name).Uses p := by
  refine (uses_call hp _).bind fun r => ?_
  cases r with
  | live => trivial
  | expired => exact (uses_call hp _).bind fun _ => trivial
  | absent => exact (uses_call hp _).bind fun _ => trivial

theorem uses_loadConfig (inside : db.inTx = true) (name : String) : (Pipeline.loadConfig env db name).run.Uses p := by
  refine uses_try_bind (uses_lift (uses_configGet hp name)) fun r => ?_
  split
  next => trivial
  next =>
    refine uses_try_bind (uses_adapt (uses_shown hp inside (by decide))) fun found => ?_
    split
    next => exact uses_throw _
    next => exact uses_try_bind (uses_lift (uses_call hp _)) fun _ => trivial

theorem uses_loadConfigRef (inside : db.inTx = true) (ref : Option String) : (Pipeline.loadConfigRef env db ref).run.Uses p := by
  cases ref with
  | none => exact uses_done _
  | some name => exact uses_loadConfig hp inside name

theorem uses_loadSingleSecret (inside : db.inTx = true) (name : String) : (Pipeline.loadSingleSecret env db name).run.Uses p := by
  refine uses_try_bind (uses_lift (uses_secretGet hp name)) fun r => ?_
  split
  next => exact uses_done _
  next =>
    refine uses_try_bind (uses_adapt (uses_shown hp inside (by decide))) fun found => ?_
    split
    next => exact uses_throw _
    next =>
      split
      next => exact uses_throw _
      next => exact uses_try_bind (uses_lift (uses_call hp _)) fun _ => uses_done _

theorem uses_loadEach (inside : db.inTx = true) (names : List String) (secrets : List (String × String)) :
    (Pipeline.loadEach env db names secrets).run.Uses p := by
  induction names generalizing secrets with
  | nil => exact uses_done _
  | cons name names ih =>
    unfold Pipeline.loadEach
    split
    next => exact ih _
    next => exact uses_try_bind (uses_loadSingleSecret hp inside name) fun _ => ih _

theorem uses_retryJitter (policy : RetryPolicy) (attempt : Int) : (Pipeline.retryJitter env policy attempt).Uses p := by
  unfold Pipeline.retryJitter
  split
  next => trivial
  next d _ => exact uses_either (uses_call hp _) trivial

/-- What follows the policy's delay, which is not negative. -/
theorem uses_delayed {α : Type} {policy : RetryPolicy} {attempt : Int} {f : Int → Program Pg α}
    (h : ∀ ms, 0 ≤ ms → (f ms).Uses p) : (Pipeline.backoffFor env policy attempt >>= f).Uses p := by
  unfold Pipeline.backoffFor
  rw [bind_assoc]
  refine (uses_retryJitter hp _ _).bind fun jitter => ?_
  split
  next ms hms => exact h ms (Backoff.computeBackoff_nonneg hms)
  next => exact ⟨hp.halt, fun r => r.elim⟩

theorem uses_backoffFor (policy : RetryPolicy) (attempt : Int) : (Pipeline.backoffFor env policy attempt).Uses p := by
  have delayed : (Pipeline.backoffFor env policy attempt >>= pure).Uses p := uses_delayed hp fun _ _ => trivial
  rwa [bind_pure] at delayed

end asides

section records

theorem uses_logExecution {executionId : String}
    (h : ∀ build, LineOf db.schema executionId build → p (.insert .insertLog .executionLogs false build))
    (inside : db.inTx = true) (n : Int) (level : LogLevel) (message : String) :
    (Pipeline.logExecution db executionId n level message).Uses p := by
  refine Prog.Uses.bind (uses_inside inside ?_) fun _ => trivial
  exact uses_try_bind (uses_insertOne (h _ ⟨fun _ _ => rfl, fun _ _ => rfl, fun _ _ => rfl⟩)) fun _ => uses_done _

theorem uses_recordAttempt (hp : Asides p) (h : ∀ build, p (.insert .insertAttempt .attempts false build))
    (inside : db.inTx = true) (executionId : String) (n : Int) (status : AttemptStatus) (startedAt : Time)
    (output error : Option Json) : (Pipeline.recordAttempt db executionId n status startedAt output error).Uses p :=
  (uses_call hp _).bind fun _ => Prog.Uses.bind (uses_inside inside (uses_insertOne (h _))) fun _ => trivial

end records

section process

variable {c : Pipeline.Call} (hp : Processes p db.schema c.executionId) (inside : db.inTx = true)

include hp inside

theorem uses_fail : (Executions.completeFailed db c.executionId).run.Uses p :=
  uses_inside inside (uses_try_bind (uses_updateOne hp.finish hp.failed) fun _ => uses_done _)

theorem uses_line (n : Int) (level : LogLevel) (message : String) :
    (Pipeline.logExecution db c.executionId n level message).Uses p := uses_logExecution hp.line inside n level message

theorem uses_attempt (n : Int) (status : AttemptStatus) (startedAt : Time) (output error : Option Json) :
    (Pipeline.recordAttempt db c.executionId n status startedAt output error).Uses p :=
  uses_recordAttempt hp.toAsides hp.attempt inside _ _ _ _ _ _

theorem uses_failTemplate (startedAt : Time) (title message : String) :
    (Pipeline.failTemplate db c startedAt title message).Uses p :=
  Prog.Uses.bind (uses_fail hp inside) fun _ => (uses_attempt hp inside _ _ _ _ _).bind fun _ => uses_line hp inside _ _ _

theorem uses_prepare : (Pipeline.prepare env db c).Uses p := by
  refine (uses_call hp.toAsides _).bind fun startedAt =>
    Prog.Uses.bind (uses_shown hp.toAsides inside (by decide)) fun r => ?_
  split
  next => exact Prog.Uses.bind (uses_fail hp inside) fun _ => trivial
  next => exact Prog.Uses.bind (uses_fail hp inside) fun _ => (uses_line hp inside _ _ _).bind fun _ => trivial
  next endpoint =>
    refine Prog.Uses.bind (uses_loadConfigRef hp.toAsides inside _) fun config => ?_
    split
    next => exact (uses_failTemplate hp inside _ _ _).bind fun _ => trivial
    next =>
      refine Prog.Uses.bind (uses_loadEach hp.toAsides inside _ _) fun secrets => ?_
      split
      next => exact (uses_failTemplate hp inside _ _ _).bind fun _ => trivial
      next =>
        split
        next => exact (uses_failTemplate hp inside _ _ _).bind fun _ => trivial
        next => trivial

theorem uses_finalize (prepared : Pipeline.Prepared) (result : DispatchResult) :
    (Pipeline.finalize env db c prepared result).Uses p := by
  cases result with
  | success output =>
    refine (uses_call hp.toAsides _).bind fun _ => (uses_attempt hp inside _ _ _ _ _).bind fun _ => ?_
    refine Prog.Uses.bind (uses_inside inside ?_) fun _ => uses_line hp inside _ _ _
    exact uses_try_bind (uses_updateOne (hp.read _ (by decide)) (hp.success _)) fun _ => uses_done _
  | failure error =>
    refine (uses_call hp.toAsides _).bind fun _ => (uses_attempt hp inside _ _ _ _ _).bind fun _ => ?_
    split
    next =>
      refine uses_delayed hp.toAsides fun ms hms => ?_
      refine Prog.Uses.bind (uses_inside inside ?_) fun _ => uses_line hp inside _ _ _
      exact uses_try_bind (uses_updateOne (hp.read _ (by decide)) (hp.retry _ hms)) fun _ => uses_done _
    next => exact Prog.Uses.bind (uses_fail hp inside) fun _ => uses_line hp inside _ _ _

theorem uses_processExecution : (Pipeline.processExecution env db c).Uses p := by
  refine (uses_prepare hp inside).bind fun r => ?_
  cases r with
  | none => trivial
  | some prepared =>
    refine (uses_line hp inside _ _ _).bind fun _ =>
      (uses_dispatch hp.toAsides inside _).bind fun _ => uses_finalize hp inside _ _

end process

variable (hp : Works p)

include hp

theorem uses_claimFrom (workerId : String) (ks : List Key) : (Executions.claimFrom workerId ks).run.Uses p := by
  induction ks with
  | nil => exact uses_done _
  | cons k ks ih =>
    refine uses_try_bind (Prog.uses_perform.mpr (hp.claim _ _ _ _)) fun r => ?_
    split
    next => exact uses_done _
    next => exact ih

theorem uses_claimIn (workerId schemaName : String) : (Poller.claimIn env workerId schemaName).Uses p := by
  unfold Poller.claimIn
  split
  next => exact ⟨hp.halt, fun r => r.elim⟩
  next =>
    have giveUp : (do rollbackTx (M := Pg); return false : Program Pg Bool).Uses p :=
      Prog.Uses.bind (Prog.uses_perform.mpr hp.rollback) fun _ => trivial
    refine Prog.Uses.bind (Prog.uses_perform.mpr hp.begin) fun r => ?_
    cases r with
    | error e => trivial
    | ok _ =>
      refine Prog.Uses.bind (uses_inside rfl (uses_try_bind (Prog.uses_perform.mpr (hp.snapshot _)) fun _ =>
        uses_claimFrom hp _ _)) fun claimed => ?_
      split
      next => exact giveUp
      next => exact giveUp
      next exec =>
        refine Prog.Uses.bind (uses_shown hp.asides rfl (by decide)) fun found => ?_
        have processes := hp.processes schemaName exec.executionId
        split
        next => exact giveUp
        next => exact Prog.Uses.bind (uses_inside rfl (uses_try_bind (uses_updateOne processes.finish processes.failed)
          fun _ => uses_done _)) fun _ => giveUp
        next job =>
          refine (uses_processExecution processes rfl).bind fun _ => ?_
          exact Prog.Uses.bind (Prog.uses_perform.mpr hp.commit) fun _ => trivial

theorem uses_work (workerId : String) (schemas : List String) : (Poller.claimAndProcess env workerId schemas).Uses p := by
  induction schemas with
  | nil => trivial
  | cons schemaName schemas ih =>
    refine (uses_claimIn hp workerId schemaName).bind fun b => ?_
    split
    next => trivial
    next => exact ih

end work

end Invokr
