import Invokr.Changes
import Invokr.Service

namespace Invokr

open TxLib

/-- What the deployment's requests never change of a job. -/
def SameJob (j j' : Job) : Prop :=
  { j' with status := j.status, retiredAt := j.retiredAt, replacedById := j.replacedById } = j ∧
    (j.status = .retired → j'.status = .retired)

/-- What they never change of an execution; one that can no longer be cancelled stays so. -/
structure SameExecution (e e' : Execution) : Prop where
  executionId : e'.executionId = e.executionId
  jobId : e'.jobId = e.jobId
  endpoint : e'.endpoint = e.endpoint
  endpointType : e'.endpointType = e.endpointType
  idempotencyKey : e'.idempotencyKey = e.idempotencyKey
  input : e'.input = e.input
  maxAttempts : e'.maxAttempts = e.maxAttempts
  createdAt : e'.createdAt = e.createdAt
  settled : Executions.cancellable e = false → Executions.cancellable e' = false
  ended : e.status.terminal = true → e' = e

/-- Jobs and executions are never deleted, and change in few columns only. -/
structure Later (D D' : Rows Pg) : Prop where
  job : ∀ k (j : Job), D .jobs k = some j → ∃ j' : Job, D' .jobs k = some j' ∧ SameJob j j'
  execution : ∀ k (e : Execution), D .executions k = some e →
    ∃ e' : Execution, D' .executions k = some e' ∧ SameExecution e e'

def jobKey (k : Key) (e : Execution) : Key := ⟨k.schema, e.jobId⟩

/-- The name of the pg_cron entry of a job. -/
def entryKey (k : Key) : Key := Jobs.cronKey (Jobs.cronJobName k.schema k.id)

/-- Rows carry the identifiers of their keys, and what belongs to a job agrees with it. -/
structure Linked (D : Rows Pg) : Prop where
  job : ∀ k (j : Job), D .jobs k = some j → j.jobId = k.id ∧ isUuid k.id = true
  execution : ∀ k (e : Execution), D .executions k = some e → e.executionId = k.id ∧
    ∃ j : Job, D .jobs (jobKey k e) = some j ∧ e.endpoint = j.endpoint ∧ e.endpointType = j.endpointType
  entry : ∀ k (c : CronEntry), D .cronJob k = some c →
    ∃ j : Job, D .jobs ⟨c.command.schemaName, c.command.jobId⟩ = some j ∧ j.triggerType = .cron

structure NewJob (k : Key) (j : Job) (previous : Option String) : Prop where
  jobId : j.jobId = k.id
  uuid : isUuid k.id = true
  active : j.status = .active
  previousVersionId : j.previousVersionId = previous
  replacedById : j.replacedById = none
  version : previous = none → j.version = 1

/-- A row that has just been inserted for the job under `kj`. -/
structure NewExecution (kj : Key) (j : Job) (k : Key) (e : Execution) : Prop where
  executionId : e.executionId = k.id
  job : jobKey k e = kj
  endpoint : e.endpoint = j.endpoint
  endpointType : e.endpointType = j.endpointType
  keyed : e.idempotencyKey ≠ none
  waiting : Executions.cancellable e = true
  attemptCount : e.attemptCount = 0
  completedAt : e.completedAt = none

/-- The execution was made together with its one-shot job. -/
structure Twin (j : Job) (e : Execution) : Prop where
  endpoint : e.endpoint = j.endpoint
  endpointType : e.endpointType = j.endpointType
  idempotencyKey : e.idempotencyKey = j.idempotencyKey
  input : e.input = j.input

def Retired (now : Int) (j j' : Job) : Prop := j.status = .active ∧ j' = Jobs.retirePatch.apply now j

/-- An execution that waited for its first attempt is cancelled. -/
def CancelStep (now : Int) (e e' : Execution) : Prop :=
  Executions.cancellable e = true ∧ e' = Executions.cancelPatch.apply now e

/-- One whole attempt: the claim, its outcome and the row that records it. -/
structure Worked (now : Int) (b e : Execution) (a : Attempt) : Prop where
  eligible : Executions.eligible now b = true
  same : SameExecution b e
  counted : e.attemptCount = b.attemptCount + 1
  number : a.attemptNumber = e.attemptCount
  outcome : (e.status = .success ∧ a.status = .success ∧ e.completedAt = some now) ∨
    (e.status = .failed ∧ a.status = .failed ∧ e.completedAt = some now) ∨
    (e.status = .retrying ∧ a.status = .failed ∧ e.completedAt = none ∧ e.attemptCount < e.maxAttempts)
  started : e.startedAt = some now

end Invokr
