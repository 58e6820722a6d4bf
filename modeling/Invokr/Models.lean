import Invokr.Template

namespace Invokr

/-- Microseconds since the epoch. -/
abbrev Time := Int

/-- Nanoseconds since the epoch, as `DateTime<Utc>` counts them. -/
abbrev Instant := Int

inductive ExecutionStatus where
  | pending
  | queued
  | running
  | retrying
  | success
  | failed
  | cancelled
  deriving DecidableEq, Repr

namespace ExecutionStatus

def asStr : ExecutionStatus → String
  | pending => "PENDING"
  | queued => "QUEUED"
  | running => "RUNNING"
  | retrying => "RETRYING"
  | success => "SUCCESS"
  | failed => "FAILED"
  | cancelled => "CANCELLED"

def terminal : ExecutionStatus → Bool
  | success | failed | cancelled => true
  | _ => false

end ExecutionStatus

inductive AttemptStatus where
  | success
  | failed
  deriving DecidableEq, Repr

inductive TriggerType where
  | immediate
  | delayed
  | cron
  deriving DecidableEq, Repr

def TriggerType.asStr : TriggerType → String
  | immediate => "IMMEDIATE"
  | delayed => "DELAYED"
  | cron => "CRON"

def TriggerType.fromStrVal (s : String) : Option TriggerType :=
  if s = "IMMEDIATE" then some immediate
  else if s = "DELAYED" then some delayed
  else if s = "CRON" then some cron
  else none

inductive JobStatus where
  | active
  | retired
  deriving DecidableEq, Repr

def JobStatus.asStr : JobStatus → String
  | active => "ACTIVE"
  | retired => "RETIRED"

def JobStatus.fromStrVal (s : String) : Option JobStatus :=
  if s = "ACTIVE" then some active
  else if s = "RETIRED" then some retired
  else none

inductive EndpointType where
  | http
  | kafka
  | redisStream
  | internal
  deriving DecidableEq, Repr

namespace EndpointType

def asStr : EndpointType → String
  | http => "HTTP"
  | kafka => "KAFKA"
  | redisStream => "REDIS_STREAM"
  | internal => "INTERNAL"

def fromStrVal (s : String) : Option EndpointType :=
  if s = "HTTP" then some http
  else if s = "KAFKA" then some kafka
  else if s = "REDIS_STREAM" then some redisStream
  else if s = "INTERNAL" then some internal
  else none

end EndpointType

inductive LogLevel where
  | debug
  | info
  | warn
  | error
  deriving DecidableEq, Repr

structure PayloadSpec where
  name : String
  schemaJson : Json
  createdAt : Time
  updatedAt : Time

structure Config where
  name : String
  valuesJson : Json
  createdAt : Time
  updatedAt : Time

structure Secret where
  name : String
  encryptedValue : List UInt8
  createdAt : Time
  updatedAt : Time

structure Endpoint where
  name : String
  endpointType : EndpointType
  payloadSpecRef : Option String
  configRef : Option String
  spec : Json
  retryPolicy : Option Json
  createdAt : Time
  updatedAt : Time

structure Job where
  jobId : String
  endpoint : String
  endpointType : EndpointType
  triggerType : TriggerType
  status : JobStatus
  version : Int
  previousVersionId : Option String
  replacedById : Option String
  idempotencyKey : Option String
  input : Option Json
  runAt : Option Time
  cronExpression : Option String
  cronTimezone : Option String
  cronStartsAt : Option Time
  cronEndsAt : Option Time
  cronNextRunAt : Option Time
  cronLastTickAt : Option Time
  createdAt : Time
  retiredAt : Option Time

structure Execution where
  executionId : String
  jobId : String
  endpoint : String
  endpointType : EndpointType
  idempotencyKey : Option String
  status : ExecutionStatus
  input : Option Json
  output : Option Json
  attemptCount : Int
  maxAttempts : Int
  workerId : Option String
  runAt : Time
  startedAt : Option Time
  completedAt : Option Time
  durationMs : Option Int
  createdAt : Time

structure Attempt where
  attemptId : String
  executionId : String
  attemptNumber : Int
  status : AttemptStatus
  startedAt : Time
  completedAt : Option Time
  durationMs : Option Int
  output : Option Json
  error : Option Json
  createdAt : Time

structure ExecutionLog where
  logId : String
  executionId : String
  attemptNumber : Int
  level : LogLevel
  message : String
  loggedAt : Time

/-- The statement pg_cron runs for a CRON job, by the names it is built from. -/
structure CronCommand where
  tablePrefix : String
  schemaName : String
  jobId : String
  deriving DecidableEq, Repr

/-- A row of `cron.job`. -/
structure CronEntry where
  schedule : String
  command : CronCommand
  deriving DecidableEq, Repr

structure RetryPolicy where
  maxAttempts : Int
  backoff : String
  initialDelayMs : Int
  maxDelayMs : Int
  deriving DecidableEq, Repr

namespace RetryPolicy

def default : RetryPolicy := ⟨1, "exponential", 1000, 60000⟩

/-- A field of a policy: its default when absent, none when it has another type. -/
def field {α : Type} (v : Option Json) (read : Json → Option α) (orElse : α) : Option α :=
  match v with
  | none => some orElse
  | some x => read x

/-- `serde_json::from_value`: an object by the names of its fields, an array by their positions. -/
def fromValue (v : Json) : Option RetryPolicy :=
  match v with
  | .obj _ => do
    let maxAttempts ← field (v.get "max_attempts") Json.asI64 default.maxAttempts
    let backoff ← field (v.get "backoff") Json.asStr default.backoff
    let initialDelayMs ← field (v.get "initial_delay_ms") Json.asI64 default.initialDelayMs
    let maxDelayMs ← field (v.get "max_delay_ms") Json.asI64 default.maxDelayMs
    return ⟨maxAttempts, backoff, initialDelayMs, maxDelayMs⟩
  | .arr items =>
    if items.length > 4 then none
    else do
      let maxAttempts ← field items[0]? Json.asI64 default.maxAttempts
      let backoff ← field items[1]? Json.asStr default.backoff
      let initialDelayMs ← field items[2]? Json.asI64 default.initialDelayMs
      let maxDelayMs ← field items[3]? Json.asI64 default.maxDelayMs
      return ⟨maxAttempts, backoff, initialDelayMs, maxDelayMs⟩
  | _ => none

def toValue (p : RetryPolicy) : Json :=
  .object [("max_attempts", .int p.maxAttempts), ("backoff", .str p.backoff),
    ("initial_delay_ms", .int p.initialDelayMs), ("max_delay_ms", .int p.maxDelayMs)]

end RetryPolicy

def Endpoint.getRetryPolicy (ep : Endpoint) : RetryPolicy :=
  (ep.retryPolicy.bind RetryPolicy.fromValue).getD .default

structure CreateJob where
  endpoint : String
  trigger : String
  idempotencyKey : Option String
  input : Option Json
  maxAttempts : Option Int
  runAt : Option Time
  cron : Option String
  timezone : Option String
  startsAt : Option Time
  endsAt : Option Time

structure UpdateJob where
  cron : Option String
  timezone : Option String
  input : Option Json
  startsAt : Option Time
  endsAt : Option Time

structure CreateEndpoint where
  name : String
  endpointType : String
  payloadSpec : Option String
  config : Option String
  spec : Json
  retryPolicy : Option RetryPolicy

structure UpdateEndpoint where
  spec : Option Json
  config : Option String
  payloadSpec : Option String
  retryPolicy : Option RetryPolicy

inductive JobTrigger where
  | immediate
  | delayed (runAt : Time)
  | cron (expression timezone : String) (startsAt endsAt : Option Time) (firstRunAt : Time)

inductive AppError where
  | invalidRequest (message : String)
  | configNotFound (name : String)
  | secretNotFound (name : String)
  | payloadSpecNotFound (name : String)
  | endpointNotFound (name : String)
  | jobNotFound (id : String)
  | executionNotFound (id : String)
  | orgNotFound (message : String)
  | conflict (message : String)
  | jobNotUpdatable (message : String)
  | executionNotCancellable (message : String)
  | invalidCron (message : String)
  | invalidSchema (message : String)
  | invalidPayloadSpecRef (name : String)
  | invalidConfigRef (name : String)
  | inputValidationFailed (message : String)
  | internal (message : String)
  deriving DecidableEq, Repr

def AppError.statusCode : AppError → Nat
  | .invalidRequest _ => 400
  | .configNotFound _ | .secretNotFound _ | .payloadSpecNotFound _ | .endpointNotFound _ | .jobNotFound _
  | .executionNotFound _ | .orgNotFound _ => 404
  | .conflict _ | .jobNotUpdatable _ | .executionNotCancellable _ => 409
  | .invalidCron _ | .invalidSchema _ | .invalidPayloadSpecRef _ | .invalidConfigRef _
  | .inputValidationFailed _ => 422
  | .internal _ => 500

end Invokr
