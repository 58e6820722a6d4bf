import Invokr.Models
import Invokr.Calls

namespace Invokr

open TxLib

inductive Table where
  | payloadSpecs
  | configs
  | secrets
  | endpoints
  | jobs
  | executions
  | attempts
  | executionLogs
  | cronJob
  deriving DecidableEq, Repr

/-- A row by its schema and the text of its primary key. -/
structure Key where
  schema : String
  id : String
  deriving DecidableEq, Repr

inductive UniqueIndex where
  | jobsIdempotency (schema endpoint key : String)
  | executionsCronDedup (schema jobId key : String)
  | attemptsExecNumber (schema executionId : String) (number : Int)
  deriving DecidableEq, Repr

def isUuid (s : String) : Bool :=
  s.toList.length = 36 && s.toList.all fun c => c.isDigit || ('a' ≤ c && c ≤ 'f') || c = '-'

/-- The text `gen_random_uuid()` gives. -/
abbrev Uuid := { s : String // isUuid s = true }

/-- The statements of `db/`; the one that `validate_input` depends on with its parameter. -/
inductive Statement where
  | getPayloadSpec (name : String)
  | getConfig
  | getSecret
  | getEndpoint
  | getJob
  | getByIdempotency
  | getVersions
  | listJobs
  | getExecution
  | getExecutionForJob
  | listForJob
  | listLogs
  | hasActiveJobs
  | hasDependentEndpoints
  | insertPayloadSpec
  | insertConfig
  | insertSecret
  | insertEndpoint
  | updatePayloadSpec
  | updateConfig
  | updateSecret
  | updateEndpoint
  | deletePayloadSpec
  | deleteConfig
  | deleteSecret
  | deleteEndpoint
  | insertJob
  | insertExecution
  | cancelJob
  | retireJob
  | replaceJob
  | retireExpired
  | claim
  | completeSuccess
  | completeRetry
  | completeFailed
  | cancelExecution
  | cancelPending
  | insertAttempt
  | insertLog
  | schedule
  | unschedule
  | cronCommand
  deriving DecidableEq, Repr

/-- What `process_execution` hands to a dispatcher. -/
structure Dispatch where
  schemaName : String
  executionId : String
  endpointType : EndpointType
  spec : Json
  idempotencyKey : String

inductive SendError where
  | timeout
  | connect
  | other
  deriving DecidableEq, Repr

inductive HttpReply where
  | response (status : Nat) (body : String)
  | error (kind : SendError) (message : String)

inductive KafkaReply where
  | delivered (partition offset : Int)
  | noProducer (message : String)
  | failed (message : String)

inductive RedisReply where
  | added (messageId : String)
  | noClient (message : String)
  | noConnection (message : String)
  | failed (message : String)

/-- What `DashMap::get` finds and how old it is. -/
inductive Cached (α : Type) where
  | live (a : α)
  | expired
  | absent

inductive External where
  | acquire
  | now
  | newUuid
  | configCacheGet (name : String)
  | configCacheRemove (name : String) (expired : Bool)
  | configCacheSet (name : String) (values : Json)
  | secretCacheGet (name : String)
  | secretCacheRemove (name : String) (expired : Bool)
  | secretCacheSet (name value : String)
  | jitter (range : Int)
  | dispatch (d : Dispatch)
  | httpSend (spec : Json) (idempotencyKey : String)
  | kafkaSend (spec : Json)
  | redisSend (spec : Json)

def External.Answer : External → Type
  | .acquire => Bool
  | .now => Time
  | .newUuid => Uuid
  | .configCacheGet _ => Cached Json
  | .configCacheRemove _ _ => Unit
  | .configCacheSet _ _ => Unit
  | .secretCacheGet _ => Cached String
  | .secretCacheRemove _ _ => Unit
  | .secretCacheSet _ _ => Unit
  | .jitter _ => Int
  | .dispatch _ => Unit
  | .httpSend _ _ => HttpReply
  | .kafkaSend _ => KafkaReply
  | .redisSend _ => RedisReply

namespace Table

abbrev Row : Table → Type
  | payloadSpecs => PayloadSpec
  | configs => Config
  | secrets => Secret
  | endpoints => Endpoint
  | jobs => Job
  | executions => Execution
  | attempts => Attempt
  | executionLogs => ExecutionLog
  | cronJob => CronEntry

def all : List Table :=
  [payloadSpecs, configs, secrets, endpoints, jobs, executions, attempts, executionLogs, cronJob]

def unique : (tb : Table) → Key → tb.Row → Option UniqueIndex
  | jobs, k, (j : Job) => j.idempotencyKey.map (.jobsIdempotency k.schema j.endpoint)
  | executions, k, (e : Execution) => e.idempotencyKey.map (.executionsCronDedup k.schema e.jobId)
  | attempts, k, (a : Attempt) => some (.attemptsExecNumber k.schema a.executionId a.attemptNumber)
  | _, _, _ => none

def refs : (tb : Table) → Key → tb.Row → List (Table × Key)
  | endpoints, k, (e : Endpoint) =>
    (e.payloadSpecRef.map fun n => (payloadSpecs, ⟨k.schema, n⟩)).toList ++
      (e.configRef.map fun n => (configs, ⟨k.schema, n⟩)).toList
  | jobs, k, (j : Job) => [(endpoints, ⟨k.schema, j.endpoint⟩)]
  | executions, k, (e : Execution) => [(jobs, ⟨k.schema, e.jobId⟩)]
  | attempts, k, (a : Attempt) => [(executions, ⟨k.schema, a.executionId⟩)]
  | executionLogs, k, (l : ExecutionLog) => [(executions, ⟨k.schema, l.executionId⟩)]
  | _, _, _ => []

end Table

/-- The range of `TIMESTAMPTZ`. -/
def timeFits (t : Time) : Bool := -210866803200000000 ≤ t && t < 9224318016000000000

def bigintFits (n : Int) : Bool := -2 ^ 63 ≤ n && n < 2 ^ 63

/-- The values a table's columns take. Clock readings, row counts and texts that are keys of other
rows are left out: they are in range wherever the code writes them. -/
def Table.storable : (tb : Table) → tb.Row → Bool
  | payloadSpecs, (p : PayloadSpec) => textAccepts p.name && jsonbAccepts p.schemaJson
  | configs, (c : Config) => textAccepts c.name && jsonbAccepts c.valuesJson
  | secrets, (s : Secret) => textAccepts s.name
  | endpoints, (e : Endpoint) =>
    textAccepts e.name && e.payloadSpecRef.all textAccepts && e.configRef.all textAccepts &&
      jsonbAccepts e.spec && e.retryPolicy.all jsonbAccepts
  | jobs, (j : Job) =>
    textAccepts j.endpoint && bigintFits j.version && j.previousVersionId.all textAccepts &&
      j.replacedById.all textAccepts && j.idempotencyKey.all textAccepts && j.input.all jsonbAccepts &&
      j.runAt.all timeFits && j.cronExpression.all textAccepts && j.cronTimezone.all textAccepts &&
      j.cronStartsAt.all timeFits && j.cronEndsAt.all timeFits && j.cronNextRunAt.all timeFits
  | executions, (e : Execution) =>
    textAccepts e.endpoint && e.idempotencyKey.all textAccepts && e.input.all jsonbAccepts &&
      e.output.all jsonbAccepts && bigintFits e.attemptCount && bigintFits e.maxAttempts &&
      e.workerId.all textAccepts && timeFits e.runAt
  | attempts, (a : Attempt) => a.output.all jsonbAccepts && a.error.all jsonbAccepts
  | executionLogs, (l : ExecutionLog) => textAccepts l.message
  | cronJob, (c : CronEntry) => textAccepts c.schedule

/-- The database of a deployment: the workspace schemas and pg_cron's table of entries. -/
abbrev Pg : Model where
  Tbl := Table
  Row := Table.Row
  Key := Key
  Index := UniqueIndex
  Fresh := Uuid
  Stmt := Statement
  Ext := External
  Answer := External.Answer
  decTbl := inferInstance
  decKey := inferInstance
  decIndex := inferInstance
  tables := Table.all
  mem_tables tb := by cases tb <;> decide
  unique := Table.unique
  refs := Table.refs
  storable := Table.storable
  plain tb := tb = .cronJob
  plain_unique tb k r h := by
    simp only [decide_eq_true_eq] at h
    subst h
    rfl
  plain_refs tb k r h := by
    simp only [decide_eq_true_eq] at h
    subst h
    rfl
  refs_plain tb k r ref h := by
    cases tb with
    | endpoints =>
      rcases List.mem_append.mp h with h | h
      · obtain ⟨n, _, rfl⟩ := Option.map_eq_some_iff.mp (Option.mem_toList.mp h)
        rfl
      · obtain ⟨n, _, rfl⟩ := Option.map_eq_some_iff.mp (Option.mem_toList.mp h)
        rfl
    | jobs | executions | attempts | executionLogs =>
      cases List.mem_singleton.mp h
      rfl
    | _ => cases h

end Invokr
