import Invokr.DbExecutions

namespace Invokr

open TxLib

def tbl (tablePrefix name : String) : String := tablePrefix ++ name

namespace Jobs

structure CreateJobResult where
  job : Job
  executionId : String
  executionStatus : ExecutionStatus
  executionCreatedAt : Time

/-- The row an `INSERT INTO jobs` makes of the columns it names and the defaults of the others. -/
def newJob (id : Uuid) (now : Int) (endpoint : String) (endpointType : EndpointType) (triggerType : TriggerType)
    (idempotencyKey : Option String) (input : Option Json) : Job where
  jobId := id.val
  endpoint
  endpointType
  triggerType
  status := .active
  version := 1
  previousVersionId := none
  replacedById := none
  idempotencyKey
  input
  runAt := none
  cronExpression := none
  cronTimezone := none
  cronStartsAt := none
  cronEndsAt := none
  cronNextRunAt := none
  cronLastTickAt := none
  createdAt := now
  retiredAt := none

def newExecution (id : Uuid) (now : Int) (job : Job) (status : ExecutionStatus) (idempotencyKey : String)
    (input : Option Json) (runAt : Time) (maxAttempts : Int) : Execution where
  executionId := id.val
  jobId := job.jobId
  endpoint := job.endpoint
  endpointType := job.endpointType
  idempotencyKey := some idempotencyKey
  status
  input
  output := none
  attemptCount := 0
  maxAttempts
  workerId := none
  runAt
  startedAt := none
  completedAt := none
  durationMs := none
  createdAt := now

def result (job : Job) (e : Execution) : CreateJobResult := ⟨job, e.executionId, e.status, e.createdAt⟩

def createImmediate (db : DbContext) (endpoint : String) (endpointType : EndpointType) (idempotencyKey : String)
    (input : Option Json) (maxAttempts : Int) : Try Pg DbError CreateJobResult := do
  let job : Job ← db.execute (insertOne .insertJob .jobs fun id now =>
    (db.key id.val, newJob id now endpoint endpointType .immediate (some idempotencyKey) input))
  let exec : Execution ← db.execute (insertOne .insertExecution .executions fun id now =>
    (db.key id.val, newExecution id now { job with endpoint, endpointType } .queued idempotencyKey input now maxAttempts))
  return result job exec

def createDelayed (db : DbContext) (endpoint : String) (endpointType : EndpointType) (idempotencyKey : String)
    (input : Option Json) (runAt : Time) (maxAttempts : Int) : Try Pg DbError CreateJobResult := do
  let job : Job ← db.execute (insertOne .insertJob .jobs fun id now =>
    (db.key id.val,
      { newJob id now endpoint endpointType .delayed (some idempotencyKey) input with runAt := some runAt }))
  let exec : Execution ← db.execute (insertOne .insertExecution .executions fun id now =>
    (db.key id.val, newExecution id now { job with endpoint, endpointType } .pending idempotencyKey input runAt maxAttempts))
  return result job exec

def createCron (db : DbContext) (endpoint : String) (endpointType : EndpointType) (idempotencyKey : Option String)
    (input : Option Json) (cronExpression cronTimezone : String) (startsAt endsAt : Option Time) (nextRunAt : Time) :
    Try Pg DbError Job := db.execute do
  insertOne .insertJob .jobs fun id now =>
    (db.key id.val,
      { newJob id now endpoint endpointType .cron idempotencyKey input with
        cronExpression := some cronExpression
        cronTimezone := some cronTimezone
        cronStartsAt := startsAt
        cronEndsAt := endsAt
        cronNextRunAt := some nextRunAt })

def get (db : DbContext) (jobId : String) : Try Pg DbError (Option Job) := db.execute do
  let snap ← query (M := Pg) .getJob
  return snap.row .jobs (db.key jobId)

def getByIdempotency (db : DbContext) (endpoint key : String) : Try Pg DbError (Option Job) := db.execute do
  let snap ← query (M := Pg) .getByIdempotency
  let rows : List Job :=
    (matching snap db.schema .jobs fun _ (j : Job) => j.endpoint = endpoint && j.idempotencyKey = some key).filterMap
      (snap.row .jobs)
  return rows.head?

def isActive (_ : Int) (j : Job) : Bool := j.status = .active

def retirePatch : Patch Pg .jobs where
  apply now (j : Job) := { j with status := .retired, retiredAt := some now }
  keeps _ _ _ := rfl

def cancel (db : DbContext) (jobId : String) : Try Pg DbError (Option Job) := db.execute do
  updateOne .cancelJob .jobs (db.key jobId) isActive retirePatch

def replacePatch (newJobId : String) : Patch Pg .jobs where
  apply now (j : Job) := { j with status := .retired, retiredAt := some now, replacedById := some newJobId }
  keeps _ _ _ := rfl

/-- The row `retire_and_replace` inserts: the columns it binds from `new_job`, defaults elsewhere. -/
def nextVersion (id : Uuid) (now : Int) (oldJobId : String) (new : Job) : Job :=
  { newJob id now new.endpoint new.endpointType .cron none new.input with
    cronExpression := new.cronExpression
    cronTimezone := new.cronTimezone
    cronStartsAt := new.cronStartsAt
    cronEndsAt := new.cronEndsAt
    cronNextRunAt := new.cronNextRunAt
    version := new.version
    previousVersionId := some oldJobId }

def retireAndReplace (db : DbContext) (oldJobId : String) (new : Job) : Try Pg DbError Job := do
  let _ ← db.execute (updateOne .retireJob .jobs (db.key oldJobId) isActive (replacePatch new.jobId))
  db.execute (insertOne .replaceJob .jobs fun id now => (db.key id.val, nextVersion id now oldJobId new))

/-- `WITH RECURSIVE chain`: every round adds the previous versions of the rows of the round before,
until a round adds none. There is no result while `rounds` rounds are not enough. -/
def chainRounds (rows : List Job) : (rounds : Nat) → List Job → Option (List Job)
  | _, [] => some []
  | 0, _ :: _ => none
  | n + 1, c :: cs =>
    (chainRounds rows n ((c :: cs).flatMap fun c => rows.filter fun j => c.previousVersionId = some j.jobId)).map
      (c :: cs ++ ·)

/-- The result of the statement of `get_versions` on what it sees. -/
def versionsIn (snap : Snapshot Pg) (schema jobId : String) (rounds : Nat) : Option (List Job) :=
  let rows : List Job := (matching snap schema .jobs fun _ _ => true).filterMap (snap.row .jobs)
  (chainRounds rows rounds (rows.filter fun j => j.jobId = jobId)).map fun chain =>
    chain.mergeSort fun a b => a.version ≤ b.version

def getVersions (rounds : Nat) (db : DbContext) (jobId : String) : Try Pg DbError (Option (List Job)) := db.execute do
  let snap ← query (M := Pg) .getVersions
  return versionsIn snap db.schema jobId rounds

/-- An ACTIVE CRON job whose window has passed. -/
def isExpired (now : Int) (j : Job) : Bool :=
  j.triggerType = .cron && j.status = .active && j.cronEndsAt.any fun t => t ≤ now

def retireExpiredCronJobs (db : DbContext) : Try Pg DbError (List String) := db.execute do
  let rows : List Job ← updateWhere .retireExpired db.schema .jobs isExpired retirePatch
  return rows.map Job.jobId

/-- The text of the command `build_cron_command` builds. -/
def commandText (c : CronCommand) : String :=
  "INSERT INTO \"" ++ c.schemaName ++ "\".\"" ++ tbl c.tablePrefix "executions" ++ "\" " ++
    "(job_id, endpoint, endpoint_type, idempotency_key, status, input, run_at, max_attempts) " ++
    "SELECT j.job_id, j.endpoint, j.endpoint_type, " ++
    "'cron_' || j.job_id || '_' || (EXTRACT(EPOCH FROM now()) * 1000)::BIGINT, " ++
    "'QUEUED', j.input, now(), " ++
    "COALESCE((e.retry_policy->>'max_attempts')::BIGINT, 1) " ++
    "FROM \"" ++ c.schemaName ++ "\".\"" ++ tbl c.tablePrefix "jobs" ++ "\" j " ++
    "JOIN \"" ++ c.schemaName ++ "\".\"" ++ tbl c.tablePrefix "endpoints" ++ "\" e ON e.name = j.endpoint " ++
    "WHERE j.job_id = '" ++ c.jobId ++ "' AND j.status = 'ACTIVE' " ++
    "AND (j.cron_starts_at IS NULL OR j.cron_starts_at <= now()) " ++
    "AND (j.cron_ends_at IS NULL OR j.cron_ends_at > now()) " ++
    "ON CONFLICT (job_id, idempotency_key) WHERE idempotency_key IS NOT NULL DO NOTHING"

def buildCronCommand (tablePrefix schemaName jobId : String) : CronCommand := ⟨tablePrefix, schemaName, jobId⟩

def cronJobName (schemaName jobId : String) : String := "invokr_" ++ schemaName ++ "_" ++ jobId

/-- `cron.job` belongs to no workspace. -/
def cronKey (jobName : String) : Key := ⟨"cron", jobName⟩

def registerPgCronConn (tablePrefix schemaName jobId cronExpression : String) : Try Pg DbError Unit :=
  put (M := Pg) .schedule .cronJob (cronKey (cronJobName schemaName jobId))
    (CronEntry.mk cronExpression (buildCronCommand tablePrefix schemaName jobId))

def unregisterPgCronConn (schemaName jobId : String) : Try Pg DbError Unit := do
  let snap ← query (M := Pg) .unschedule
  if (snap.row .cronJob (cronKey (cronJobName schemaName jobId))).isSome then
    let _ ← delete (M := Pg) .unschedule .cronJob (cronKey (cronJobName schemaName jobId))
    return ()
  else return ()

/-- `(retry_policy->>'max_attempts')::BIGINT`; none where the cast fails. -/
def castBigint : Json → Option Int
  | .num (.int n) => if bigintFits n then some n else none
  | .str s => (String.ofList (trim s.toList)).toInt?.filter bigintFits
  | _ => none

def cronMaxAttempts (retryPolicy : Option Json) : Option Int :=
  match retryPolicy.bind fun p => p.get "max_attempts" with
  | none => some 1
  | some .null => some 1
  | some v => castBigint v

def inWindow (now : Int) (j : Job) : Bool :=
  j.cronStartsAt.all (fun t => t ≤ now) && j.cronEndsAt.all fun t => t > now

def cronIdempotencyKey (jobId : String) (now : Int) : String :=
  "cron_" ++ jobId ++ "_" ++ toString (roundMillis now)

/-- The effect of the command: a QUEUED execution of a job that is ACTIVE and in its window. -/
def runCronCommand (c : CronCommand) : Try Pg DbError Unit := do
  let snap ← query (M := Pg) .cronCommand
  match (snap.row .jobs ⟨c.schemaName, c.jobId⟩ : Option Job) with
  | none => return ()
  | some j =>
    match (snap.row .endpoints ⟨c.schemaName, j.endpoint⟩ : Option Endpoint) with
    | none => return ()
    | some ep =>
      if j.status = .active && inWindow snap.now j then
        match cronMaxAttempts ep.retryPolicy with
        | none => throw .rejected
        | some maxAttempts =>
          let _ ← insert (M := Pg) .cronCommand .executions true fun id now =>
            (⟨c.schemaName, id.val⟩,
              newExecution id now j .queued (cronIdempotencyKey j.jobId now) j.input now maxAttempts)
          return ()
      else return ()

end Jobs

end Invokr
