import Invokr.Pagination
import Invokr.Handlers
import Invokr.Like
import Mathlib.Data.List.Sort

namespace Invokr

open TxLib TextLib

/-- The filters of a listing, all of which a job has to pass. -/
structure JobFilters where
  jobId : Option String
  status : List JobStatus
  trigger : List TriggerType
  endpoint : Option String
  endpointType : List EndpointType
  createdAfter : Option Instant
  createdBefore : Option Instant
  deriving DecidableEq

/-- What a listing leaves to the database: the case of letters, and how instants become its timestamps. -/
structure PgRules where
  lower : Char → Char
  timestamptz : Instant → Time
  nearest : ∀ i, |1000 * timestamptz i - i| ≤ 500

namespace Jobs

/-- Escapes `\`, `%` and `_`. -/
def escapeLike : List Char → List Char
  | [] => []
  | c :: cs => if c = '\\' || c = '%' || c = '_' then '\\' :: c :: escapeLike cs else c :: escapeLike cs

/-- `ILIKE … ESCAPE '\'`. -/
def ilike (pg : PgRules) (text : String) (pattern : List Char) : Bool := fits pg.lower (wilds pattern) text.toList

/-- The conditions of `build_list_query`, without the cursor's. -/
def passes (pg : PgRules) (filters : JobFilters) (j : Job) : Bool :=
  (filters.status.isEmpty || j.status ∈ filters.status) &&
    (filters.trigger.isEmpty || j.triggerType ∈ filters.trigger) &&
    (filters.endpointType.isEmpty || j.endpointType ∈ filters.endpointType) &&
    filters.endpoint.all (fun e => ilike pg j.endpoint ('%' :: escapeLike e.toList ++ ['%'])) &&
    filters.createdAfter.all (fun t => j.createdAt ≥ pg.timestamptz t) &&
    filters.createdBefore.all (fun t => j.createdAt ≤ pg.timestamptz t) &&
    filters.jobId.all fun id => j.jobId = id

/-- `(created_at, job_id) < ((SELECT created_at FROM jobs WHERE job_id = $n), $n)`, which is not true
where there is no such job. -/
def beforeCursor (snap : Snapshot Pg) (schema cursor : String) (j : Job) : Bool :=
  match (snap.row .jobs ⟨schema, cursor⟩ : Option Job) with
  | none => false
  | some c => j.createdAt < c.createdAt || (j.createdAt = c.createdAt && j.jobId < cursor)

/-- `ORDER BY created_at DESC, job_id DESC`. -/
def newestFirst (a b : Job) : Bool := b.createdAt < a.createdAt || (b.createdAt = a.createdAt && b.jobId ≤ a.jobId)

/-- The result of the listing's statement on what it sees. -/
def listed (pg : PgRules) (snap : Snapshot Pg) (schema : String) (cursor : Option String) (limit : Int)
    (filters : JobFilters) : List Job :=
  let rows : List Job := (matching snap schema .jobs fun _ (j : Job) =>
    passes pg filters j && cursor.all fun c => beforeCursor snap schema c j).filterMap (snap.row .jobs)
  (rows.insertionSort fun a b => newestFirst a b = true).take limit.toNat

def list (pg : PgRules) (db : DbContext) (cursor : Option String) (limit : Int) (filters : JobFilters) :
    Try Pg DbError (List Job) := db.execute do
  let snap ← query (M := Pg) .listJobs
  return listed pg snap db.schema cursor limit filters

end Jobs

namespace Executions

/-- `created_at < (SELECT created_at FROM executions WHERE execution_id = $2)`. -/
def beforeCursor (snap : Snapshot Pg) (schema cursor : String) (e : Execution) : Bool :=
  match (snap.row .executions ⟨schema, cursor⟩ : Option Execution) with
  | none => false
  | some c => e.createdAt < c.createdAt

/-- `ORDER BY created_at DESC`. -/
def newestFirst (a b : Execution) : Bool := b.createdAt ≤ a.createdAt

def listed (snap : Snapshot Pg) (schema jobId : String) (cursor : Option String) (limit : Int) : List Execution :=
  let rows : List Execution := (matching snap schema .executions fun _ (e : Execution) =>
    e.jobId = jobId && cursor.all fun c => beforeCursor snap schema c e).filterMap (snap.row .executions)
  (rows.insertionSort fun a b => newestFirst a b = true).take limit.toNat

def listForJob (db : DbContext) (jobId : String) (cursor : Option String) (limit : Int) : Try Pg DbError (List Execution) :=
  db.execute do
    let snap ← query (M := Pg) .listForJob
    return listed snap db.schema jobId cursor limit

end Executions

namespace ExecutionLogs

/-- `ORDER BY logged_at ASC` of the rows in the order in which the database comes upon them. -/
def listed (scan : List ExecutionLog → List ExecutionLog) (snap : Snapshot Pg) (schema executionId : String) :
    List ExecutionLog :=
  let rows : List ExecutionLog := (matching snap schema .executionLogs fun _ (l : ExecutionLog) =>
    l.executionId = executionId).filterMap (snap.row .executionLogs)
  (scan rows).insertionSort fun a b => a.loggedAt ≤ b.loggedAt

def listForExecution (scan : List ExecutionLog → List ExecutionLog) (db : DbContext) (executionId : String) :
    Try Pg DbError (List ExecutionLog) := db.execute do
  let snap ← query (M := Pg) .listLogs
  return listed scan snap db.schema executionId

end ExecutionLogs

/-- The look-ahead row is dropped, and where there is one the last row of the page is the cursor. -/
def paginated {α : Type} (params : PaginationParams) (id : α → String) (items : List α) : PaginatedResponse α :=
  let limit := params.effectiveLimit
  let shown := items.take limit.toNat
  ⟨shown, if (items.length : Int) > limit then shown.getLast?.map fun r => encodeCursor (id r) else none⟩

namespace JobsApi

def list (env : Setup) (pg : PgRules) (schemaName : String) (params : PaginationParams) (filters : JobFilters) :
    Try Pg AppError (PaginatedResponse Job) := do
  scopedConnection schemaName
  let db : DbContext := ⟨schemaName, env.tablePrefix, false⟩
  let items ← ExceptT.adapt fromDb (Jobs.list pg db params.decodeCursor (params.effectiveLimit + 1) filters)
  return paginated params Job.jobId items

def listExecutions (env : Setup) (schemaName jobId : String) (params : PaginationParams) :
    Try Pg AppError (PaginatedResponse Execution) := do
  scopedConnection schemaName
  let db : DbContext := ⟨schemaName, env.tablePrefix, false⟩
  match ← ExceptT.adapt fromDb (Jobs.get db jobId) with
  | none => throw (.jobNotFound jobId)
  | some _ =>
    let items ← ExceptT.adapt fromDb
      (Executions.listForJob db jobId params.decodeCursor (params.effectiveLimit + 1))
    return paginated params Execution.executionId items

end JobsApi

namespace ExecutionsApi

def listLogs (env : Setup) (scan : List ExecutionLog → List ExecutionLog) (schemaName executionId : String) :
    Try Pg AppError (List ExecutionLog) := do
  scopedConnection schemaName
  let db : DbContext := ⟨schemaName, env.tablePrefix, false⟩
  match ← ExceptT.adapt fromDb (Executions.get db executionId) with
  | none => throw (.executionNotFound executionId)
  | some _ => ExceptT.adapt fromDb (ExecutionLogs.listForExecution scan db executionId)

end ExecutionsApi

end Invokr
