import Invokr.Db
import Mathlib.Data.List.Sort

namespace Invokr

open TxLib

structure ClaimedExecution where
  executionId : String
  jobId : String
  endpoint : String
  endpointType : EndpointType
  input : Option Json
  attemptCount : Int
  maxAttempts : Int

/-- `numeric` to `BIGINT`: to the nearest, halves away from zero. -/
def roundMillis (micros : Int) : Int :=
  if 0 ≤ micros then (micros + 500) / 1000 else -((-micros + 500) / 1000)

namespace Executions

/-- The condition of the claim's subselect. -/
def eligible (now : Int) (e : Execution) : Bool :=
  (e.status = .queued || e.status = .retrying || e.status = .pending) && e.runAt ≤ now

def claimPatch (workerId : String) : Patch Pg .executions where
  apply now (e : Execution) :=
    { e with status := .running, workerId := some workerId, startedAt := some now, attemptCount := e.attemptCount + 1 }
  keeps _ _ _ := rfl

def claimed (e : Execution) : ClaimedExecution :=
  ⟨e.executionId, e.jobId, e.endpoint, e.endpointType, e.input, e.attemptCount, e.maxAttempts⟩

/-- The rows the subselect may take, in the order of their `run_at`. -/
def candidates (snap : Snapshot Pg) (schema : String) : List Key :=
  (matching snap schema .executions eligible).insertionSort fun k k' =>
    ((snap.row .executions k).elim 0 fun (e : Execution) => e.runAt) ≤
      ((snap.row .executions k').elim 0 fun (e : Execution) => e.runAt)

/-- `FOR UPDATE SKIP LOCKED LIMIT 1`: the first row that is not locked and still eligible. -/
def claimFrom (workerId : String) : List Key → Try Pg DbError (Option ClaimedExecution)
  | [] => return none
  | k :: ks => do
    match ← update (M := Pg) .claim .executions k true eligible (claimPatch workerId) with
    | some e => return some (claimed e)
    | none => claimFrom workerId ks

def claim (db : DbContext) (workerId : String) : Try Pg DbError (Option ClaimedExecution) := db.execute do
  let snap ← query (M := Pg) .claim
  claimFrom workerId (candidates snap db.schema)

def isRunning (_ : Int) (e : Execution) : Bool := e.status = .running

def duration (now : Int) (e : Execution) : Option Int := e.startedAt.map fun t => roundMillis (now - t)

def successPatch (output : Json) : Patch Pg .executions where
  apply now (e : Execution) :=
    { e with status := .success, output := some output, completedAt := some now, durationMs := duration now e }
  keeps _ _ _ := rfl

def completeSuccess (db : DbContext) (executionId : String) (output : Json) : Try Pg DbError Unit := db.execute do
  let _ ← updateOne .completeSuccess .executions (db.key executionId) isRunning (successPatch output)
  return ()

def retryPatch (backoffMs : Int) : Patch Pg .executions where
  apply now (e : Execution) :=
    { e with
      status := if e.attemptCount ≥ e.maxAttempts then .failed else .retrying
      runAt := if e.attemptCount ≥ e.maxAttempts then e.runAt else now + backoffMs * 1000
      workerId := none
      completedAt := if e.attemptCount ≥ e.maxAttempts then some now else none
      durationMs := if e.attemptCount ≥ e.maxAttempts then duration now e else none }
  keeps _ _ _ := rfl

def completeRetry (db : DbContext) (executionId : String) (backoffMs : Int) : Try Pg DbError Unit := db.execute do
  let _ ← updateOne .completeRetry .executions (db.key executionId) isRunning (retryPatch backoffMs)
  return ()

def failedPatch : Patch Pg .executions where
  apply now (e : Execution) :=
    { e with status := .failed, completedAt := some now, durationMs := duration now e, workerId := none }
  keeps _ _ _ := rfl

def completeFailed (db : DbContext) (executionId : String) : Try Pg DbError Unit := db.execute do
  let _ ← updateOne .completeFailed .executions (db.key executionId) isRunning failedPatch
  return ()

def get (db : DbContext) (executionId : String) : Try Pg DbError (Option Execution) := db.execute do
  let snap ← query (M := Pg) .getExecution
  return snap.row .executions (db.key executionId)

/-- The later of two rows; the first one where they were created at the same time. -/
def newer (best : Option Execution) (e : Execution) : Option Execution :=
  match best with
  | none => some e
  | some b => if b.createdAt < e.createdAt then some e else some b

def getForJob (db : DbContext) (jobId : String) : Try Pg DbError (Option Execution) := db.execute do
  let snap ← query (M := Pg) .getExecutionForJob
  let rows : List Execution :=
    (matching snap db.schema .executions fun _ (e : Execution) => e.jobId = jobId).filterMap (snap.row .executions)
  return rows.foldl newer none

def cancellable (e : Execution) : Bool := e.status = .pending || e.status = .queued

def cancelPatch : Patch Pg .executions where
  apply now (e : Execution) := { e with status := .cancelled, completedAt := some now }
  keeps _ _ _ := rfl

def cancel (db : DbContext) (executionId : String) : Try Pg DbError (Option Execution) := db.execute do
  updateOne .cancelExecution .executions (db.key executionId) (fun _ => cancellable) cancelPatch

def cancelPendingForJob (db : DbContext) (jobId : String) : Try Pg DbError Nat := db.execute do
  let rows ← updateWhere .cancelPending db.schema .executions
    (fun _ (e : Execution) => e.jobId = jobId && cancellable e) cancelPatch
  return rows.length

end Executions

namespace Attempts

def insert (db : DbContext) (executionId : String) (attemptNumber : Int) (status : AttemptStatus)
    (startedAt completedAt : Time) (durationMs : Int) (output error : Option Json) : Try Pg DbError Attempt :=
  db.execute do
    insertOne .insertAttempt .attempts fun id now =>
      (db.key id.val, Attempt.mk id.val executionId attemptNumber status startedAt (some completedAt)
        (some durationMs) output error now)

end Attempts

namespace ExecutionLogs

def insert (db : DbContext) (executionId : String) (attemptNumber : Int) (level : LogLevel) (message : String) :
    Try Pg DbError Unit := db.execute do
  let _ ← insertOne .insertLog .executionLogs fun id now =>
    (db.key id.val, ExecutionLog.mk id.val executionId attemptNumber level message now)
  return ()

end ExecutionLogs

end Invokr
