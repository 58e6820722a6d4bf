import Invokr.Dispatcher

namespace Invokr

open TxLib

namespace ConfigCache

/-- An entry past its time to live is dropped, as a second access to the map. -/
def get (name : String) : Program Pg (Option Json) := do
  match (← ext (M := Pg) (.configCacheGet name) : Cached Json) with
  | .live values => return some values
  | .expired => do
    ext (M := Pg) (.configCacheRemove name true)
    return none
  | .absent => do
    ext (M := Pg) (.configCacheRemove name false)
    return none

def set (name : String) (values : Json) : Program Pg Unit := ext (M := Pg) (.configCacheSet name values)

end ConfigCache

namespace SecretCache

def get (name : String) : Program Pg (Option String) := do
  match (← ext (M := Pg) (.secretCacheGet name) : Cached String) with
  | .live value => return some value
  | .expired => do
    ext (M := Pg) (.secretCacheRemove name true)
    return none
  | .absent => do
    ext (M := Pg) (.secretCacheRemove name false)
    return none

def set (name value : String) : Program Pg Unit := ext (M := Pg) (.secretCacheSet name value)

end SecretCache

namespace Pipeline

def flattenJsonObject (value : Json) : Except String (List (String × Json)) :=
  match value.asObject with
  | some fields => .ok fields
  | none => .error "Config values must be a JSON object"

def loadConfig (env : Setup) (db : DbContext) (name : String) : Try Pg String (List (String × Json)) := do
  match ← (ConfigCache.get name : Program Pg _) with
  | some cached => ExceptT.mk (pure (flattenJsonObject cached))
  | none =>
    let found ← ExceptT.adapt (fun e => "Failed to load config '" ++ name ++ "': " ++ env.dbErrorText e)
      (Configs.get db name)
    match found with
    | none => throw ("Config '" ++ name ++ "' not found")
    | some config =>
      (ConfigCache.set name config.valuesJson : Program Pg _)
      ExceptT.mk (pure (flattenJsonObject config.valuesJson))

def loadSingleSecret (env : Setup) (db : DbContext) (name : String) : Try Pg String String := do
  match ← (SecretCache.get name : Program Pg _) with
  | some cached => return cached
  | none =>
    let found ← ExceptT.adapt (fun e => "Failed to load secret '" ++ name ++ "': " ++ env.dbErrorText e)
      (Secrets.get db name)
    match found with
    | none => throw ("Secret '" ++ name ++ "' not found")
    | some secret =>
      match env.decrypt secret.encryptedValue env.encryptionKey with
      | .error e => throw ("Failed to decrypt secret '" ++ name ++ "': " ++ e)
      | .ok decrypted =>
        (SecretCache.set name decrypted : Program Pg _)
        return decrypted

def loadEach (env : Setup) (db : DbContext) : List String → List (String × String) →
    Try Pg String (List (String × String))
  | [], secrets => return secrets
  | name :: rest, secrets => do
    if (secrets.lookup name).isSome then loadEach env db rest secrets
    else
      let value ← loadSingleSecret env db name
      loadEach env db rest ((name, value) :: secrets)

def loadSecrets (env : Setup) (db : DbContext) (spec : Json) : Try Pg String (List (String × String)) :=
  loadEach env db (secretNames spec.chars.length spec.chars) []

/-- A failed insert is logged and otherwise ignored. -/
def recordAttempt (db : DbContext) (executionId : String) (attemptNumber : Int) (status : AttemptStatus)
    (startedAt : Time) (output error : Option Json) : Program Pg Unit := do
  let completedAt : Time ← ext (M := Pg) .now
  let _ ← (Attempts.insert db executionId attemptNumber status startedAt completedAt
    ((completedAt - startedAt).tdiv 1000) output error).run
  return ()

def logExecution (db : DbContext) (executionId : String) (attemptNumber : Int) (level : LogLevel)
    (message : String) : Program Pg Unit := do
  let _ ← (ExecutionLogs.insert db executionId attemptNumber level message).run
  return ()

/-- The arguments of `process_execution`. -/
structure Call where
  schemaName : String
  executionId : String
  idempotencyKey : String
  jobId : String
  endpointName : String
  endpointType : EndpointType
  input : Option Json
  attemptCount : Int
  maxAttempts : Int

def templateError (message : String) : Json := errorValue "TEMPLATE_RESOLUTION_FAILED" message

/-- The execution ends FAILED with an attempt and a log line. -/
def failTemplate (db : DbContext) (c : Call) (startedAt : Time) (title message : String) : Program Pg Unit := do
  let _ ← (Executions.completeFailed db c.executionId).run
  recordAttempt db c.executionId c.attemptCount .failed startedAt none (some (templateError message))
  logExecution db c.executionId c.attemptCount .error (title ++ message)

def inputMap (input : Option Json) : List (String × Json) := (input.bind Json.asObject).getD []

def executionMap (c : Call) : List (String × Json) :=
  [("idempotency_key", .str c.idempotencyKey), ("attempt_count", .int c.attemptCount),
    ("execution_id", .str c.executionId), ("job_id", .str c.jobId)]

/-- The job's input is the body of a spec that has neither a body nor a template for it. -/
def injectBody (spec : Json) (input : Option Json) : Json :=
  match spec, input with
  | .obj fields, some v =>
    if (spec.get "body").isNone && (spec.get "body_template").isNone then .obj (insertField "body" v fields) else spec
  | _, _ => spec

def loadConfigRef (env : Setup) (db : DbContext) : Option String → Try Pg String (List (String × Json))
  | some name => loadConfig env db name
  | none => return []

/-- What is ready to be dispatched: the resolved spec and the policy for a retry. -/
structure Prepared where
  spec : Json
  retryPolicy : RetryPolicy
  startedAt : Time

/-- Load the endpoint, its config and its secrets, and resolve the spec. None when that failed and
the execution has been finished. -/
def prepare (env : Setup) (db : DbContext) (c : Call) : Program Pg (Option Prepared) := do
  let startedAt : Time ← ext (M := Pg) .now
  match ← (Endpoints.get db c.endpointName).run with
  | .error _ => do
    let _ ← (Executions.completeFailed db c.executionId).run
    return none
  | .ok none => do
    let _ ← (Executions.completeFailed db c.executionId).run
    logExecution db c.executionId c.attemptCount .error ("Endpoint not found: " ++ c.endpointName)
    return none
  | .ok (some endpoint) =>
    match ← (loadConfigRef env db endpoint.configRef).run with
    | .error e => do
      failTemplate db c startedAt "Template resolution failed: " e
      return none
    | .ok config =>
      match ← (loadSecrets env db endpoint.spec).run with
      | .error e => do
        failTemplate db c startedAt "Secret resolution failed: " e
        return none
      | .ok secrets =>
        match resolve ⟨inputMap c.input, config, secrets, executionMap c⟩ endpoint.spec with
        | .error e => do
          failTemplate db c startedAt "Template resolution failed: " e
          return none
        | .ok resolved => return some ⟨injectBody resolved c.input, endpoint.getRetryPolicy, startedAt⟩

def retryJitter (env : Setup) (policy : RetryPolicy) (attempt : Int) : Program Pg Int :=
  match Backoff.delay env.overflowChecks policy attempt with
  | none => return 0
  | some d => if d.tdiv 4 > 0 then ext (M := Pg) (.jitter (d.tdiv 4)) else return 0

/-- The policy's delay; a panic ends the task. -/
def backoffFor (env : Setup) (policy : RetryPolicy) (attempt : Int) : Program Pg Int := do
  let jitter ← retryJitter env policy attempt
  match Backoff.computeBackoff env.overflowChecks policy attempt jitter with
  | some ms => return ms
  | none => halt

/-- Record the attempt and finish the execution or set it up for another attempt. -/
def finalize (env : Setup) (db : DbContext) (c : Call) (p : Prepared) : DispatchResult → Program Pg Unit
  | .success output => do
    let completedAt : Time ← ext (M := Pg) .now
    recordAttempt db c.executionId c.attemptCount .success p.startedAt (some output) none
    let _ ← (Executions.completeSuccess db c.executionId output).run
    logExecution db c.executionId c.attemptCount .info
      ("Execution succeeded in " ++ toString ((completedAt - p.startedAt).tdiv 1000) ++ "ms")
  | .failure error => do
    let _ ← ext (M := Pg) .now
    recordAttempt db c.executionId c.attemptCount .failed p.startedAt none (some error)
    if c.attemptCount < c.maxAttempts then
      let backoffMs ← backoffFor env p.retryPolicy c.attemptCount
      let _ ← (Executions.completeRetry db c.executionId backoffMs).run
      logExecution db c.executionId c.attemptCount .warn
        ("Attempt " ++ toString c.attemptCount ++ " failed, retrying in " ++ toString backoffMs ++ "ms: " ++ error.text)
    else
      let _ ← (Executions.completeFailed db c.executionId).run
      logExecution db c.executionId c.attemptCount .error
        ("Execution failed after " ++ toString c.attemptCount ++ " attempts: " ++ error.text)

def handOver (c : Call) (p : Prepared) : Dispatch :=
  ⟨c.schemaName, c.executionId, c.endpointType, p.spec, c.idempotencyKey⟩

def processExecution (env : Setup) (db : DbContext) (c : Call) : Program Pg Unit := do
  match ← prepare env db c with
  | none => return ()
  | some p => do
    logExecution db c.executionId c.attemptCount .info
      ("Dispatching " ++ c.endpointType.asStr ++ " to " ++ c.endpointName)
    let result ← Dispatcher.dispatch env db (handOver c p)
    finalize env db c p result

end Pipeline

namespace Poller

def callFor (schemaName : String) (exec : ClaimedExecution) (job : Job) : Pipeline.Call where
  schemaName
  executionId := exec.executionId
  idempotencyKey := job.idempotencyKey.getD exec.executionId
  jobId := exec.jobId
  endpointName := exec.endpoint
  endpointType := exec.endpointType
  input := exec.input
  attemptCount := exec.attemptCount
  maxAttempts := exec.maxAttempts

/-- One schema of the loop; true when an execution was claimed and processed. A transaction that
is not committed is dropped, which rolls it back. -/
def claimIn (env : Setup) (workerId schemaName : String) : Program Pg Bool := do
  if !validateSchemaName schemaName then halt
  match ← (beginTx : Try Pg DbError Unit).run with
  | .error _ => return false
  | .ok () => do
    let db : DbContext := ⟨schemaName, env.tablePrefix, true⟩
    match ← (Executions.claim db workerId).run with
    | .error _ | .ok none => do
      rollbackTx (M := Pg)
      return false
    | .ok (some exec) =>
      match ← (Jobs.get db exec.jobId).run with
      | .ok none => do
        rollbackTx (M := Pg)
        return false
      | .error _ => do
        let _ ← (Executions.completeFailed db exec.executionId).run
        rollbackTx (M := Pg)
        return false
      | .ok (some job) => do
        Pipeline.processExecution env db (callFor schemaName exec job)
        let _ ← (commitTx : Try Pg DbError Unit).run
        return true

def claimAndProcess (env : Setup) (workerId : String) : List String → Program Pg Bool
  | [] => return false
  | schemaName :: rest => do
    if ← claimIn env workerId schemaName then return true
    else claimAndProcess env workerId rest

end Poller

end Invokr
