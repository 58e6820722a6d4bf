import Invokr.Handlers

namespace Invokr

open TxLib

/-- The deletes of the three kinds of things an endpoint may depend on. -/
def deleteUnused (schemaName : String) (dependent delete : Try Pg DbError Bool) (inUse missing : AppError) :
    Try Pg AppError Reply := do
  scopedConnection schemaName
  if ← ExceptT.adapt fromDb dependent then throw inUse
  if ← ExceptT.adapt fromDb delete then return .deleted
  else throw missing

namespace PayloadSpecsApi

def notObject : AppError := .invalidSchema "Schema must be a JSON object"

def create (env : Setup) (schemaName name : String) (schema : Json) : Try Pg AppError Reply := do
  if schema.asObject.isNone then throw notObject
  scopedConnection schemaName
  let _ ← ExceptT.adapt (EndpointsApi.existsError "Payload spec" name)
    (PayloadSpecs.create ⟨schemaName, env.tablePrefix, false⟩ name schema)
  return .created

def update (env : Setup) (schemaName name : String) (schema : Json) : Try Pg AppError Reply := do
  if schema.asObject.isNone then throw notObject
  scopedConnection schemaName
  match ← ExceptT.adapt fromDb (PayloadSpecs.update ⟨schemaName, env.tablePrefix, false⟩ name schema) with
  | none => throw (.payloadSpecNotFound name)
  | some _ => return .updated

def delete (env : Setup) (schemaName name : String) : Try Pg AppError Reply :=
  let db : DbContext := ⟨schemaName, env.tablePrefix, false⟩
  deleteUnused schemaName (hasDependentEndpoints db fun e => e.payloadSpecRef = some name) (PayloadSpecs.delete db name)
    (.conflict ("Payload spec '" ++ name ++ "' has dependent endpoints")) (.payloadSpecNotFound name)

end PayloadSpecsApi

namespace ConfigsApi

def notObject : AppError := .invalidRequest "Values must be a JSON object"

def create (env : Setup) (schemaName name : String) (values : Json) : Try Pg AppError Reply := do
  if values.asObject.isNone then throw notObject
  scopedConnection schemaName
  let _ ← ExceptT.adapt (EndpointsApi.existsError "Config" name)
    (Configs.create ⟨schemaName, env.tablePrefix, false⟩ name values)
  return .created

def update (env : Setup) (schemaName name : String) (values : Json) : Try Pg AppError Reply := do
  if values.asObject.isNone then throw notObject
  scopedConnection schemaName
  match ← ExceptT.adapt fromDb (Configs.update ⟨schemaName, env.tablePrefix, false⟩ name values) with
  | none => throw (.configNotFound name)
  | some _ => return .updated

def delete (env : Setup) (schemaName name : String) : Try Pg AppError Reply :=
  let db : DbContext := ⟨schemaName, env.tablePrefix, false⟩
  deleteUnused schemaName (hasDependentEndpoints db fun e => e.configRef = some name) (Configs.delete db name)
    (.conflict ("Config '" ++ name ++ "' has dependent endpoints")) (.configNotFound name)

end ConfigsApi

namespace SecretsApi

/-- The value has been encrypted already. -/
def create (env : Setup) (schemaName name : String) (encryptedValue : List UInt8) : Try Pg AppError Reply := do
  scopedConnection schemaName
  let _ ← ExceptT.adapt (EndpointsApi.existsError "Secret" name)
    (Secrets.create ⟨schemaName, env.tablePrefix, false⟩ name encryptedValue)
  return .created

def update (env : Setup) (schemaName name : String) (encryptedValue : List UInt8) : Try Pg AppError Reply := do
  scopedConnection schemaName
  match ← ExceptT.adapt fromDb (Secrets.update ⟨schemaName, env.tablePrefix, false⟩ name encryptedValue) with
  | none => throw (.secretNotFound name)
  | some _ => return .updated

def delete (env : Setup) (schemaName name : String) : Try Pg AppError Reply :=
  let db : DbContext := ⟨schemaName, env.tablePrefix, false⟩
  deleteUnused schemaName (hasDependentEndpoints db fun e => mentionsSecret env.numericText e.spec name) (Secrets.delete db name)
    (.conflict ("Secret '" ++ name ++ "' is referenced by endpoints")) (.secretNotFound name)

end SecretsApi

namespace Workspaces

def reaperEndpointName : String := "invokr.reaper"

def reaperEndpoint (now : Int) : Endpoint :=
  ⟨reaperEndpointName, .internal, none, none, .object [("task", .str "reaper")], none, now, now⟩

def reaperJob (id : Uuid) (now : Int) (cronExpression : String) : Job :=
  { Jobs.newJob id now reaperEndpointName .internal .cron none none with
    cronExpression := some cronExpression
    cronTimezone := some "UTC"
    cronNextRunAt := some now }

def provisionReaper (schemaName cronExpression : String) : Try Pg AppError Unit :=
  scopedTransaction schemaName (ExceptT.adapt fromDb do
    let _ ← insertOne .insertEndpoint .endpoints fun _ now => (⟨schemaName, reaperEndpointName⟩, reaperEndpoint now)
    let job : Job ← insertOne .insertJob .jobs fun id now => (⟨schemaName, id.val⟩, reaperJob id now cronExpression)
    Jobs.registerPgCronConn "" schemaName job.jobId cronExpression)

end Workspaces

namespace LibraryClient

def dbText (env : Setup) (e : DbError) : String := env.dbErrorText e

def connect (env : Setup) (schemaName : String) : Try Pg String DbContext := do
  ExceptT.adapt (fun _ => dbText env .closed) (scopedConnection schemaName)
  return ⟨schemaName, env.tablePrefix, false⟩

/-- The same helpers as the API's, on a connection outside any transaction. -/
def createJob (env : Setup) (schemaName endpoint : String) (input : Json) (maxAttempts : Int) (trigger : JobTrigger)
    (idempotencyKey : Option String) : Try Pg String String := do
  let db ← connect env schemaName
  match ← ExceptT.adapt (dbText env) (Endpoints.get db endpoint) with
  | none => throw ("Endpoint '" ++ endpoint ++ "' not found in schema '" ++ schemaName ++ "'")
  | some ep =>
    match trigger with
    | .immediate =>
      let r ← ExceptT.adapt (dbText env)
        (Jobs.createImmediate db endpoint ep.endpointType (idempotencyKey.getD "") (some input) maxAttempts)
      return r.executionId
    | .delayed runAt =>
      let r ← ExceptT.adapt (dbText env)
        (Jobs.createDelayed db endpoint ep.endpointType (idempotencyKey.getD "") (some input) runAt maxAttempts)
      return r.executionId
    | .cron expression timezone startsAt endsAt firstRunAt =>
      let job ← ExceptT.adapt (dbText env)
        (Jobs.createCron db endpoint ep.endpointType idempotencyKey (some input) expression timezone startsAt endsAt
          firstRunAt)
      return job.jobId

/-- `cron.unschedule` by name, which fails where there is no entry. -/
def unregisterPgCron (schemaName jobId : String) : Try Pg DbError Unit := transaction id do
  let snap ← query (M := Pg) .unschedule
  if (snap.row .cronJob (Jobs.cronKey (Jobs.cronJobName schemaName jobId))).isSome then
    let _ ← delete (M := Pg) .unschedule .cronJob (Jobs.cronKey (Jobs.cronJobName schemaName jobId))
    return ()
  else throw .rejected

def cancelJob (env : Setup) (schemaName jobId : String) : Try Pg String Unit := do
  let db ← connect env schemaName
  match ← ExceptT.adapt (dbText env) (Jobs.get db jobId) with
  | none => throw ("Job '" ++ jobId ++ "' not found")
  | some job =>
    if job.triggerType ≠ .cron then
      let _ ← ExceptT.adapt (dbText env) (Executions.cancelPendingForJob db jobId)
    let _ ← ExceptT.adapt (dbText env) (Jobs.cancel db jobId)
    if job.triggerType = .cron then ExceptT.adapt (dbText env) (unregisterPgCron schemaName jobId)
    return ()

def registerEndpoint (env : Setup) (schemaName name : String) (endpointType : EndpointType) (spec : Json)
    (retryPolicy : Option Json) : Try Pg String Unit := do
  let db ← connect env schemaName
  match ← ExceptT.adapt (dbText env) (Endpoints.get db name) with
  | none =>
    let _ ← ExceptT.adapt (dbText env) (Endpoints.create db name endpointType none none spec retryPolicy)
    return ()
  | some _ =>
    let _ ← ExceptT.adapt (dbText env) (Endpoints.update db name (some spec) none none retryPolicy)
    return ()

def deleteEndpoint (env : Setup) (schemaName name : String) : Try Pg String Unit := do
  let db ← connect env schemaName
  let _ ← ExceptT.adapt (dbText env) (Endpoints.delete db name)
  return ()

/-- The value has been encrypted already. -/
def upsertSecret (env : Setup) (schemaName name : String) (encryptedValue : List UInt8) : Try Pg String Unit := do
  let db ← connect env schemaName
  match ← ExceptT.adapt (dbText env) (Secrets.get db name) with
  | some _ =>
    let _ ← ExceptT.adapt (dbText env) (Secrets.update db name encryptedValue)
    return ()
  | none =>
    let _ ← ExceptT.adapt (dbText env) (Secrets.create db name encryptedValue)
    return ()

def deleteSecret (env : Setup) (schemaName name : String) : Try Pg String Unit := do
  let db ← connect env schemaName
  let _ ← ExceptT.adapt (dbText env) (Secrets.delete db name)
  return ()

end LibraryClient

/-- pg_cron fires an entry of its table. -/
def cronTick (jobName : String) : Try Pg DbError Unit := transaction id do
  let snap ← query (M := Pg) .cronCommand
  match (snap.row .cronJob (Jobs.cronKey jobName) : Option CronEntry) with
  | none => return ()
  | some entry => Jobs.runCronCommand entry.command

/-- What the deployment is asked to do. Workspaces are provisioned with plain table names, so only
a service without a prefix does that. -/
inductive Request (env : Setup) where
  | createJob (schemaName : String) (body : CreateJob)
  | updateJob (schemaName jobId : String) (body : UpdateJob)
  | cancelJob (schemaName jobId : String)
  | cancelExecution (schemaName executionId : String)
  | createEndpoint (schemaName : String) (body : CreateEndpoint)
  | updateEndpoint (schemaName name : String) (body : UpdateEndpoint)
  | deleteEndpoint (schemaName name : String)
  | createPayloadSpec (schemaName name : String) (schema : Json)
  | updatePayloadSpec (schemaName name : String) (schema : Json)
  | deletePayloadSpec (schemaName name : String)
  | createConfig (schemaName name : String) (values : Json)
  | updateConfig (schemaName name : String) (values : Json)
  | deleteConfig (schemaName name : String)
  | createSecret (schemaName name : String) (encryptedValue : List UInt8)
  | updateSecret (schemaName name : String) (encryptedValue : List UInt8)
  | deleteSecret (schemaName name : String)
  | provisionReaper (schemaName cronExpression : String) (plain : env.tablePrefix = "")
  | libraryCreateJob (schemaName endpoint : String) (input : Json) (maxAttempts : Int) (trigger : JobTrigger)
      (idempotencyKey : Option String)
  | libraryCancelJob (schemaName jobId : String)
  | libraryRegisterEndpoint (schemaName name : String) (endpointType : EndpointType) (spec : Json)
      (retryPolicy : Option Json)
  | libraryDeleteEndpoint (schemaName name : String)
  | libraryUpsertSecret (schemaName name : String) (encryptedValue : List UInt8)
  | libraryDeleteSecret (schemaName name : String)
  | work (workerId : String) (schemas : List String)
  | tick (jobName : String)

inductive Outcome where
  | http (r : Response)
  | provisioned (r : Except AppError Unit)
  | library (r : Except String String)
  | libraryDone (r : Except String Unit)
  | polled (found : Bool)
  | ticked (r : Except DbError Unit)

def answered (handler : Try Pg AppError Reply) : Program Pg Outcome := do
  let r ← handler.run
  return .http r

def Request.program {env : Setup} : Request env → Program Pg Outcome
  | .createJob schemaName body => answered (JobsApi.create env schemaName body)
  | .updateJob schemaName jobId body => answered (JobsApi.update env schemaName jobId body)
  | .cancelJob schemaName jobId => answered (JobsApi.cancel env schemaName jobId)
  | .cancelExecution schemaName executionId => answered (ExecutionsApi.cancel env schemaName executionId)
  | .createEndpoint schemaName body => answered (EndpointsApi.create env schemaName body)
  | .updateEndpoint schemaName name body => answered (EndpointsApi.update env schemaName name body)
  | .deleteEndpoint schemaName name => answered (EndpointsApi.delete env schemaName name)
  | .createPayloadSpec schemaName name schema => answered (PayloadSpecsApi.create env schemaName name schema)
  | .updatePayloadSpec schemaName name schema => answered (PayloadSpecsApi.update env schemaName name schema)
  | .deletePayloadSpec schemaName name => answered (PayloadSpecsApi.delete env schemaName name)
  | .createConfig schemaName name values => answered (ConfigsApi.create env schemaName name values)
  | .updateConfig schemaName name values => answered (ConfigsApi.update env schemaName name values)
  | .deleteConfig schemaName name => answered (ConfigsApi.delete env schemaName name)
  | .createSecret schemaName name value => answered (SecretsApi.create env schemaName name value)
  | .updateSecret schemaName name value => answered (SecretsApi.update env schemaName name value)
  | .deleteSecret schemaName name => answered (SecretsApi.delete env schemaName name)
  | .provisionReaper schemaName cronExpression _ => do
    let r ← (Workspaces.provisionReaper schemaName cronExpression).run
    return .provisioned r
  | .libraryCreateJob schemaName endpoint input maxAttempts trigger key => do
    let r ← (LibraryClient.createJob env schemaName endpoint input maxAttempts trigger key).run
    return .library r
  | .libraryCancelJob schemaName jobId => do
    let r ← (LibraryClient.cancelJob env schemaName jobId).run
    return .libraryDone r
  | .libraryRegisterEndpoint schemaName name endpointType spec retryPolicy => do
    let r ← (LibraryClient.registerEndpoint env schemaName name endpointType spec retryPolicy).run
    return .libraryDone r
  | .libraryDeleteEndpoint schemaName name => do
    let r ← (LibraryClient.deleteEndpoint env schemaName name).run
    return .libraryDone r
  | .libraryUpsertSecret schemaName name value => do
    let r ← (LibraryClient.upsertSecret env schemaName name value).run
    return .libraryDone r
  | .libraryDeleteSecret schemaName name => do
    let r ← (LibraryClient.deleteSecret env schemaName name).run
    return .libraryDone r
  | .work workerId schemas => do
    let found ← Poller.claimAndProcess env workerId schemas
    return .polled found
  | .tick jobName => do
    let r ← (cronTick jobName).run
    return .ticked r

abbrev service (env : Setup) : System Pg := ⟨Request env, Outcome, Request.program⟩

end Invokr
