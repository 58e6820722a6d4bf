import Invokr.DbJobs
import Invokr.JsonbText

namespace Invokr

open TxLib

/-- How the programs are built and configured, and the code of other crates they call. -/
structure Setup where
  tablePrefix : String
  encryptionKey : String
  kafka : Bool
  redisStream : Bool
  overflowChecks : Bool
  dbErrorText : DbError → String
  decrypt : List UInt8 → String → Except String String
  cronParse : String → Except String Unit
  cronNext : String → String → Time → Option Time
  tzParse : String → Bool
  schemaCompile : Json → Except String Unit
  schemaErrors : Json → Json → List String
  numericText : NumericText

namespace Backoff

def wrap64 (n : Int) : Int := n.bmod (2 ^ 64)

/-- An `i64` result: an overflow panics where it is checked and wraps where it is not. -/
def arith (checks : Bool) (n : Int) : Option Int :=
  if bigintFits n then some n else if checks then none else some (wrap64 n)

/-- `2_i64.pow` of the exponent as `u32`. -/
def powTwo (checks : Bool) (n : Nat) : Option Int :=
  if n < 63 then some (2 ^ n) else if checks then none else if n = 63 then some (-2 ^ 63) else some 0

def delay (checks : Bool) (policy : RetryPolicy) (attempt : Int) : Option Int :=
  if policy.backoff = "fixed" then some policy.initialDelayMs
  else if policy.backoff = "linear" then arith checks (policy.initialDelayMs * attempt)
  else do
    let p ← powTwo checks ((max (attempt - 1) 0).toNat % 2 ^ 32)
    arith checks (policy.initialDelayMs * p)

/-- `Ord::clamp` with the lower bound 0; it panics when the upper bound is below it. -/
def clampDelay (n maxDelay : Int) : Option Int := if 0 ≤ maxDelay then some (max 0 (min n maxDelay)) else none

/-- The delay in milliseconds; none where the computation panics. -/
def computeBackoff (checks : Bool) (policy : RetryPolicy) (attempt jitter : Int) : Option Int := do
  let d ← delay checks policy attempt
  let range := d.tdiv 4
  let j := if range > 0 then max (-range) (min range jitter) else 0
  let n ← arith checks (d + j)
  clampDelay n policy.maxDelayMs

theorem computeBackoff_nonneg {checks : Bool} {policy : RetryPolicy} {attempt jitter ms : Int}
    (h : computeBackoff checks policy attempt jitter = some ms) : 0 ≤ ms := by
  obtain ⟨d, _, h⟩ := Option.bind_eq_some_iff.mp h
  obtain ⟨n, _, h⟩ := Option.bind_eq_some_iff.mp h
  unfold clampDelay at h
  split at h
  next =>
    cases h
    exact le_max_left _ _
  next => cases h

end Backoff

inductive DispatchResult where
  | success (output : Json)
  | failure (error : Json)

def DispatchResult.value : DispatchResult → Json
  | .success output => output
  | .failure error => error

def errorValue (kind message : String) : Json := .object [("type", .str kind), ("message", .str message)]

namespace Reaper

def unregisterEach (schemaName : String) : List String → Try Pg DbError Unit
  | [] => return ()
  | jobId :: rest => do
    Jobs.unregisterPgCronConn schemaName jobId
    unregisterEach schemaName rest

def reapSchema (db : DbContext) (schemaName : String) : Try Pg DbError (List String) := do
  let retired ← Jobs.retireExpiredCronJobs db
  unregisterEach schemaName retired
  return retired

end Reaper

namespace Dispatcher

def expectedStatuses (spec : Json) : List Nat :=
  match (spec.get "expected_status_codes").bind Json.asArray with
  | some items => items.filterMap fun v => v.asU64.map fun n => n % 2 ^ 16
  | none => [200, 201, 202, 204]

def sendErrorType : SendError → String
  | .timeout => "TIMEOUT"
  | .connect => "CONNECTION_ERROR"
  | .other => "HTTP_ERROR"

def httpResult (spec : Json) : HttpReply → DispatchResult
  | .response status body =>
    if (expectedStatuses spec).contains status then
      .success (.object [("status_code", .int status), ("body", .str body)])
    else
      .failure (.object [("type", .str "HTTP_ERROR"), ("status_code", .int status),
        ("message", .str ("Unexpected status code: " ++ toString status))])
  | .error kind message => .failure (errorValue (sendErrorType kind) message)

def httpDispatch (spec : Json) (idempotencyKey : String) : Program Pg DispatchResult := do
  let reply ← ext (M := Pg) (.httpSend spec idempotencyKey)
  return httpResult spec reply

def timeoutOr (kind message : String) : String :=
  if (splitAt "timeout".toList message.toList).isSome then "TIMEOUT" else kind

def kafkaResult : KafkaReply → DispatchResult
  | .delivered partition offset => .success (.object [("partition", .int partition), ("offset", .int offset)])
  | .noProducer message => .failure (errorValue "BROKER_ERROR" ("Failed to create producer: " ++ message))
  | .failed message => .failure (errorValue (timeoutOr "BROKER_ERROR" message) message)

def kafkaDispatch (spec : Json) : Program Pg DispatchResult := do
  let reply ← ext (M := Pg) (.kafkaSend spec)
  return kafkaResult reply

def redisResult (spec : Json) : RedisReply → DispatchResult
  | .added messageId =>
    .success (.object [("message_id", .str messageId),
      ("stream", .str (((spec.get "stream").bind Json.asStr).getD ""))])
  | .noClient message => .failure (errorValue "CONNECTION_ERROR" ("Failed to connect to Redis: " ++ message))
  | .noConnection message => .failure (errorValue "CONNECTION_ERROR" ("Redis connection failed: " ++ message))
  | .failed message => .failure (errorValue (timeoutOr "STREAM_ERROR" message) message)

def redisDispatch (spec : Json) : Program Pg DispatchResult := do
  match (spec.get "fields_template").bind Json.asObject with
  | none => return .failure (errorValue "STREAM_ERROR" "Missing fields_template in spec")
  | some _ => do
    let reply ← ext (M := Pg) (.redisSend spec)
    return redisResult spec reply

def reaped (schemaName : String) (retired : List String) : Json :=
  .object [("task", .str "reaper"), ("schema", .str schemaName), ("retired_count", .int retired.length),
    ("retired_job_ids", .arr (retired.map .str))]

def taskOf (spec : Json) : Option String := (spec.get "task").bind Json.asStr

/-- The in-process tasks; the reaper runs on the caller's transaction. -/
def internalDispatch (env : Setup) (db : DbContext) (schemaName : String) (spec : Json) :
    Program Pg DispatchResult := do
  match taskOf spec with
  | none =>
    return .failure (errorValue "INTERNAL_TASK_MISSING" "INTERNAL endpoint spec is missing required `task` field")
  | some task =>
    if task = "reaper" then
      match ← (Reaper.reapSchema db schemaName).run with
      | .ok retired => return .success (reaped schemaName retired)
      | .error e => return .failure (errorValue "REAPER_SWEEP_FAILED" (env.dbErrorText e))
    else return .failure (errorValue "INTERNAL_TASK_UNKNOWN" ("Unknown INTERNAL task: " ++ task))

def unsupported (endpointType : EndpointType) : DispatchResult :=
  .failure (errorValue "UNSUPPORTED_TYPE" ("Unsupported: " ++ endpointType.asStr))

/-- Hand the spec to the dispatcher of its type. -/
def dispatch (env : Setup) (db : DbContext) (d : Dispatch) : Program Pg DispatchResult :=
  match d.endpointType with
  | .http => do
    ext (M := Pg) (.dispatch d)
    httpDispatch d.spec d.idempotencyKey
  | .internal => do
    ext (M := Pg) (.dispatch d)
    internalDispatch env db d.schemaName d.spec
  | .kafka =>
    if env.kafka then do
      ext (M := Pg) (.dispatch d)
      kafkaDispatch d.spec
    else return unsupported .kafka
  | .redisStream =>
    if env.redisStream then do
      ext (M := Pg) (.dispatch d)
      redisDispatch d.spec
    else return unsupported .redisStream

end Dispatcher

end Invokr
