import Invokr.Pipeline

namespace Invokr

open TxLib

/-- The body of a successful answer. -/
inductive Reply where
  | jobCreated (job : Job) (execution : Option (String × ExecutionStatus × Time))
  | jobFound (job : Job) (execution : Option Execution)
  | jobUpdated (job : Job)
  | jobCancelled (job : Job)
  | executionCancelled (execution : Execution)
  | created
  | updated
  | deleted

def Reply.statusCode : Reply → Nat
  | .jobCreated _ _ => 201
  | .jobFound _ _ => 200
  | .jobUpdated _ => 200
  | .jobCancelled _ => 200
  | .executionCancelled _ => 200
  | .created => 201
  | .updated => 200
  | .deleted => 204

abbrev Response := Except AppError Reply

def statusCode : Response → Nat
  | .ok r => r.statusCode
  | .error e => e.statusCode

/-- `AppError::from(sqlx::Error)`. -/
def fromDb (_ : DbError) : AppError := .internal "Database error"

def isConstraint : DbError → Bool
  | .unique | .foreignKey => true
  | _ => false

/-- A pooled connection with its `search_path` set; an invalid schema name panics. -/
def scopedConnection (schemaName : String) : Try Pg AppError Unit := do
  if !validateSchemaName schemaName then (halt (M := Pg) : Program Pg Unit)
  let acquired : Bool ← (ext (M := Pg) .acquire : Program Pg Bool)
  if acquired then return () else throw (fromDb .closed)

/-- A transaction with its `search_path` set, committed when the body succeeds and dropped otherwise. -/
def scopedTransaction {α : Type} (schemaName : String) (body : Try Pg AppError α) : Try Pg AppError α := do
  if !validateSchemaName schemaName then (halt (M := Pg) : Program Pg Unit)
  transaction fromDb body

namespace JobsApi

def validateInput (env : Setup) (input schema : Json) : Except AppError Unit :=
  match env.schemaCompile schema with
  | .error e => .error (.invalidSchema e)
  | .ok () =>
    match env.schemaErrors schema input with
    | [] => .ok ()
    | errors => .error (.inputValidationFailed ("; ".intercalate errors))

def checkInput (env : Setup) (db : DbContext) (ep : Endpoint) (body : CreateJob) : Try Pg AppError Unit :=
  match ep.payloadSpecRef, body.input with
  | some name, some input => do
    match ← ExceptT.adapt fromDb (PayloadSpecs.get db name) with
    | none => throw (.invalidPayloadSpecRef name)
    | some spec => ExceptT.mk (pure (validateInput env input spec.schemaJson))
  | _, _ => return ()

/-- The job that already has the request's key, with its latest execution. -/
def findDuplicate (db : DbContext) (body : CreateJob) : Try Pg AppError (Option Reply) :=
  match body.idempotencyKey with
  | none => return none
  | some key => do
    match ← ExceptT.adapt fromDb (Jobs.getByIdempotency db body.endpoint key) with
    | none => return none
    | some existing =>
      let exec ← ExceptT.adapt fromDb (Executions.getForJob db existing.jobId)
      return some (.jobFound existing exec)

def alreadyExists : AppError := .conflict "Job with this idempotency key already exists"

def immediateError (e : DbError) : AppError := if isConstraint e then alreadyExists else fromDb e

def cronError (endpoint : String) : DbError → AppError
  | .unique => alreadyExists
  | .foreignKey => .endpointNotFound endpoint
  | e => fromDb e

def executionOf (r : Jobs.CreateJobResult) : Option (String × ExecutionStatus × Time) :=
  some (r.executionId, r.executionStatus, r.executionCreatedAt)

def txContext (env : Setup) (schemaName : String) : DbContext := ⟨schemaName, env.tablePrefix, true⟩

def createImmediate (env : Setup) (schemaName : String) (body : CreateJob) (ep : Endpoint) (maxAttempts : Int) :
    Try Pg AppError Reply := do
  let key : String ← match body.idempotencyKey with
    | some k => pure k
    | none => do
      let id : Uuid ← (ext (M := Pg) .newUuid : Program Pg Uuid)
      pure id.val
  let r ← scopedTransaction schemaName (ExceptT.adapt immediateError
    (Jobs.createImmediate (txContext env schemaName) body.endpoint ep.endpointType key body.input maxAttempts))
  return .jobCreated r.job (executionOf r)

def createDelayed (env : Setup) (schemaName : String) (body : CreateJob) (ep : Endpoint) (maxAttempts : Int) :
    Try Pg AppError Reply :=
  match body.idempotencyKey with
  | none => throw (.invalidRequest "idempotency_key required for DELAYED jobs")
  | some key =>
    match body.runAt with
    | none => throw (.invalidRequest "run_at required for DELAYED jobs")
    | some runAt => do
      let r ← scopedTransaction schemaName (ExceptT.adapt fromDb
        (Jobs.createDelayed (txContext env schemaName) body.endpoint ep.endpointType key body.input runAt maxAttempts))
      return .jobCreated r.job (executionOf r)

def insertCron (env : Setup) (schemaName : String) (body : CreateJob) (ep : Endpoint) (cron tz : String)
    (startsAt nextRun : Time) : Try Pg AppError Job := do
  let job ← ExceptT.adapt (cronError body.endpoint)
    (Jobs.createCron (txContext env schemaName) body.endpoint ep.endpointType body.idempotencyKey body.input cron tz
      (some startsAt) body.endsAt nextRun)
  ExceptT.adapt fromDb (Jobs.registerPgCronConn env.tablePrefix schemaName job.jobId cron)
  return job

def createCron (env : Setup) (schemaName : String) (body : CreateJob) (ep : Endpoint) : Try Pg AppError Reply :=
  match body.cron with
  | none => throw (.invalidRequest "cron required for CRON jobs")
  | some cron =>
    match body.timezone with
    | none => throw (.invalidRequest "timezone required for CRON jobs")
    | some tz => do
      if !env.tzParse tz then throw (.invalidRequest ("Invalid timezone: " ++ tz))
      let startsAt : Time ← match body.startsAt with
        | some t => pure t
        | none => (ext (M := Pg) .now : Program Pg Time)
      match env.cronNext cron tz startsAt with
      | none => throw (.invalidCron "No upcoming run for this cron schedule")
      | some nextRun =>
        let job ← scopedTransaction schemaName (insertCron env schemaName body ep cron tz startsAt nextRun)
        return .jobCreated job none

/-- The per-job override where it is positive, the endpoint's policy otherwise. -/
def maxAttemptsOf (body : CreateJob) (ep : Endpoint) : Int :=
  (body.maxAttempts.filter fun n => n > 0).getD ep.getRetryPolicy.maxAttempts

def createAs (env : Setup) (schemaName : String) (body : CreateJob) (ep : Endpoint) : TriggerType → Try Pg AppError Reply
  | .immediate => createImmediate env schemaName body ep (maxAttemptsOf body ep)
  | .delayed => createDelayed env schemaName body ep (maxAttemptsOf body ep)
  | .cron => createCron env schemaName body ep

def internalEndpoint (name : String) : AppError :=
  .invalidRequest ("Endpoint '" ++ name ++ "' is internal and cannot be used for user-created jobs")

def create (env : Setup) (schemaName : String) (body : CreateJob) : Try Pg AppError Reply :=
  match TriggerType.fromStrVal body.trigger with
  | none => throw (.invalidRequest ("Invalid trigger: " ++ body.trigger))
  | some trigger => do
    scopedConnection schemaName
    let db : DbContext := ⟨schemaName, env.tablePrefix, false⟩
    match ← ExceptT.adapt fromDb (Endpoints.get db body.endpoint) with
    | none => throw (.endpointNotFound body.endpoint)
    | some ep =>
      if ep.endpointType = .internal then throw (internalEndpoint body.endpoint)
      checkInput env db ep body
      match ← findDuplicate db body with
      | some existing => return existing
      | none => createAs env schemaName body ep trigger

def fieldCount (s : String) : Nat := ((s.toList.splitBy fun a b => isWhitespace a = isWhitespace b).filter fun w =>
  !(w.any isWhitespace)).length

/-- `PgCronExpr::try_from`. -/
def parsePgCron (env : Setup) (s : String) : Except AppError String :=
  if fieldCount s ≠ 5 then
    .error (.invalidCron ("Cron expression must have exactly 5 fields (min hour dom month dow), got " ++
      toString (fieldCount s)))
  else
    match env.cronParse ("0 " ++ s ++ " *") with
    | .error e => .error (.invalidCron e)
    | .ok () => .ok s

def cronOf (env : Setup) (body : UpdateJob) (old : Job) : Except AppError String :=
  match body.cron with
  | some c => .ok c
  | none =>
    match old.cronExpression with
    | none => .error (.invalidCron "Existing job has no cron expression")
    | some c => parsePgCron env c

/-- The clone of the old row that `retire_and_replace` takes its values from. -/
def replacementFor (old : Job) (body : UpdateJob) (cron tz : String) (nextRun : Time) : Job :=
  { old with
    cronExpression := some cron
    cronTimezone := some tz
    cronNextRunAt := some nextRun
    version := old.version + 1
    input := body.input.orElse fun _ => old.input
    cronStartsAt := body.startsAt.orElse fun _ => old.cronStartsAt
    cronEndsAt := body.endsAt.orElse fun _ => old.cronEndsAt }

def replaceIn (env : Setup) (schemaName jobId : String) (new : Job) (cron : String) : Try Pg AppError Job := do
  let created ← ExceptT.adapt fromDb (Jobs.retireAndReplace (txContext env schemaName) jobId new)
  ExceptT.adapt fromDb (Jobs.unregisterPgCronConn schemaName jobId)
  ExceptT.adapt fromDb (Jobs.registerPgCronConn env.tablePrefix schemaName created.jobId cron)
  return created

def checkUpdatable (old : Job) : Except AppError Unit :=
  if old.triggerType ≠ .cron then .error (.jobNotUpdatable "Only CRON jobs can be updated")
  else if old.status ≠ .active then .error (.jobNotUpdatable "Job is not active")
  else if old.endpointType = .internal then
    .error (.jobNotUpdatable "Internal invokr jobs cannot be modified through the API")
  else .ok ()

def update (env : Setup) (schemaName jobId : String) (body : UpdateJob) : Try Pg AppError Reply := do
  scopedConnection schemaName
  let db : DbContext := ⟨schemaName, env.tablePrefix, false⟩
  match ← ExceptT.adapt fromDb (Jobs.get db jobId) with
  | none => throw (.jobNotFound jobId)
  | some old =>
    ExceptT.mk (pure (checkUpdatable old))
    let cron ← (ExceptT.mk (pure (cronOf env body old)) : Try Pg AppError String)
    let tz := body.timezone.getD (old.cronTimezone.getD "UTC")
    if !env.tzParse tz then throw (.invalidRequest ("Invalid timezone: " ++ tz))
    let now : Time ← (ext (M := Pg) .now : Program Pg Time)
    match env.cronNext cron tz now with
    | none => throw (.invalidCron "No upcoming run")
    | some nextRun =>
      let created ← scopedTransaction schemaName
        (replaceIn env schemaName jobId (replacementFor old body cron tz nextRun) cron)
      return .jobUpdated created

def cancelIn (db : DbContext) (schemaName jobId : String) : Try Pg AppError Reply := do
  match ← ExceptT.adapt fromDb (Jobs.get db jobId) with
  | none => throw (.jobNotFound jobId)
  | some job =>
    if job.status = .retired then throw (.conflict "Job is already retired")
    if job.endpointType = .internal then
      throw (.conflict "Internal invokr jobs cannot be cancelled through the API")
    if job.triggerType ≠ .cron then
      let _ ← ExceptT.adapt fromDb (Executions.cancelPendingForJob db jobId)
    match ← ExceptT.adapt fromDb (Jobs.cancel db jobId) with
    | none => throw (.conflict "Job could not be cancelled")
    | some cancelled =>
      if job.triggerType = .cron then ExceptT.adapt fromDb (Jobs.unregisterPgCronConn schemaName jobId)
      return .jobCancelled cancelled

def cancel (env : Setup) (schemaName jobId : String) : Try Pg AppError Reply :=
  scopedTransaction schemaName (cancelIn (txContext env schemaName) schemaName jobId)

end JobsApi

namespace ExecutionsApi

def cancel (env : Setup) (schemaName executionId : String) : Try Pg AppError Reply := do
  scopedConnection schemaName
  let db : DbContext := ⟨schemaName, env.tablePrefix, false⟩
  match ← ExceptT.adapt fromDb (Executions.get db executionId) with
  | none => throw (.executionNotFound executionId)
  | some exec =>
    if exec.status = .pending || exec.status = .queued then
      match ← ExceptT.adapt fromDb (Executions.cancel db executionId) with
      | none => throw (.executionNotCancellable "Could not cancel")
      | some cancelled => return .executionCancelled cancelled
    else throw (.executionNotCancellable ("Execution is in " ++ exec.status.asStr ++ " state"))

end ExecutionsApi

namespace EndpointsApi

def checkRefs (db : DbContext) (payloadSpec config : Option String) : Try Pg AppError Unit := do
  match payloadSpec with
  | none => pure ()
  | some name =>
    if (← ExceptT.adapt fromDb (PayloadSpecs.get db name)).isNone then throw (.invalidPayloadSpecRef name)
  match config with
  | none => pure ()
  | some name => if (← ExceptT.adapt fromDb (Configs.get db name)).isNone then throw (.invalidConfigRef name)

def existsError (kind name : String) (e : DbError) : AppError :=
  if isConstraint e then .conflict (kind ++ " '" ++ name ++ "' already exists") else fromDb e

def invalidType (name : String) : AppError :=
  .invalidRequest ("Invalid endpoint type: " ++ name ++ ". Must be HTTP, KAFKA, or REDIS_STREAM")

def create (env : Setup) (schemaName : String) (body : CreateEndpoint) : Try Pg AppError Reply :=
  match EndpointType.fromStrVal body.endpointType with
  | none | some .internal => throw (invalidType body.endpointType)
  | some endpointType => do
    scopedConnection schemaName
    let db : DbContext := ⟨schemaName, env.tablePrefix, false⟩
    checkRefs db body.payloadSpec body.config
    let _ ← ExceptT.adapt (existsError "Endpoint" body.name) (Endpoints.create db body.name endpointType
      body.payloadSpec body.config body.spec (body.retryPolicy.map RetryPolicy.toValue))
    return .created

def update (env : Setup) (schemaName name : String) (body : UpdateEndpoint) : Try Pg AppError Reply := do
  scopedConnection schemaName
  let db : DbContext := ⟨schemaName, env.tablePrefix, false⟩
  checkRefs db body.payloadSpec body.config
  match ← ExceptT.adapt fromDb (Endpoints.update db name body.spec body.config body.payloadSpec
      (body.retryPolicy.map RetryPolicy.toValue)) with
  | none => throw (.endpointNotFound name)
  | some _ => return .updated

def delete (env : Setup) (schemaName name : String) : Try Pg AppError Reply := do
  scopedConnection schemaName
  let db : DbContext := ⟨schemaName, env.tablePrefix, false⟩
  if ← ExceptT.adapt fromDb (Endpoints.hasActiveJobs db name) then
    throw (.conflict ("Endpoint '" ++ name ++ "' has active jobs"))
  if ← ExceptT.adapt fromDb (Endpoints.delete db name) then return .deleted
  else throw (.endpointNotFound name)

end EndpointsApi

end Invokr
