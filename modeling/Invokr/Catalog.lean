import Invokr.Service

namespace Invokr

open TxLib

inductive TenantStatus where
  | active
  | suspended
  | deleted
  deriving DecidableEq, Repr

structure Organization where
  orgId : Uuid
  name : String
  slug : String
  status : TenantStatus
  deriving DecidableEq

structure Workspace where
  workspaceId : String
  orgId : String
  name : String
  slug : String
  schemaName : String
  status : TenantStatus
  schemaVersion : Int
  deriving DecidableEq, Repr

/-- A statement of `workspace_v1.sql`. A table comes with the indexes of its constraints and after
the tables it refers to; whatever exists by name is skipped. -/
inductive Ddl where
  | createExtension
  | createTable (name : String) (indexes references : List String)
  | createIndex (name table : String)
  deriving DecidableEq, Repr

/-- `workspace_v1.sql` with the prefix in the place of `p`. -/
def workspaceSchemaV1 (p : String) : List Ddl :=
  [.createExtension,
    .createTable (p ++ "payload_specs") ["pk_" ++ p ++ "payload_specs"] [],
    .createTable (p ++ "configs") ["pk_" ++ p ++ "configs"] [],
    .createTable (p ++ "secrets") ["pk_" ++ p ++ "secrets"] [],
    .createTable (p ++ "endpoints") ["pk_" ++ p ++ "endpoints"] [p ++ "payload_specs", p ++ "configs"],
    .createIndex ("idx_" ++ p ++ "endpoints_type") (p ++ "endpoints"),
    .createTable (p ++ "jobs") ["pk_" ++ p ++ "jobs"] [p ++ "endpoints"],
    .createIndex ("idx_" ++ p ++ "jobs_idempotency") (p ++ "jobs"),
    .createIndex ("idx_" ++ p ++ "jobs_cron_due") (p ++ "jobs"),
    .createIndex ("idx_" ++ p ++ "jobs_endpoint") (p ++ "jobs"),
    .createIndex ("idx_" ++ p ++ "jobs_status") (p ++ "jobs"),
    .createTable (p ++ "executions") ["pk_" ++ p ++ "executions"] [p ++ "jobs"],
    .createIndex ("idx_" ++ p ++ "executions_pickup") (p ++ "executions"),
    .createIndex ("idx_" ++ p ++ "executions_cron_dedup") (p ++ "executions"),
    .createIndex ("idx_" ++ p ++ "executions_by_job") (p ++ "executions"),
    .createIndex ("idx_" ++ p ++ "executions_running") (p ++ "executions"),
    .createTable (p ++ "attempts") ["pk_" ++ p ++ "attempts", "uq_" ++ p ++ "attempts_exec_number"] [p ++ "executions"],
    .createIndex ("idx_" ++ p ++ "attempts_by_execution") (p ++ "attempts"),
    .createTable (p ++ "execution_logs") ["pk_" ++ p ++ "execution_logs"] [p ++ "executions"],
    .createIndex ("idx_" ++ p ++ "logs_by_execution") (p ++ "execution_logs"),
    .createIndex ("idx_" ++ p ++ "logs_by_attempt") (p ++ "execution_logs")]

/-- The relation the statement names, which exists when it has succeeded. -/
def Ddl.relation : Ddl → Option String
  | .createExtension => none
  | .createTable name _ _ => some name
  | .createIndex name _ => some name

/-- What the statement makes of the names of the relations in its schema. -/
def Ddl.apply (relations : List String) : Ddl → Except DbError (List String)
  | .createExtension => .ok relations
  | .createTable name indexes references =>
    if name ∈ relations then .ok relations
    else if references.all (· ∈ relations) && indexes.all (· ∉ relations) then .ok (relations ++ name :: indexes)
    else .error .rejected
  | .createIndex name table =>
    if name ∈ relations then .ok relations
    else if table ∈ relations then .ok (relations ++ [name])
    else .error .rejected

/-- The control tables, the schemas with the names of their relations, the rows of the relations
that provisioning writes to, and pg_cron's entries. -/
structure Catalog where
  organizations : List Organization
  workspaces : List Workspace
  relations : String → Option (List String)
  endpoints : (schema table name : String) → Option Endpoint
  jobs : (schema table jobId : String) → Option Job
  cronJob : String → Option CronEntry

/-- The rows of a table of one schema with one more row. -/
def addRow {α : Type} (rows : (schema table id : String) → Option α) (schema table id : String) (r : α) :
    (schema table id : String) → Option α := fun schema' table' id' =>
  if schema' = schema ∧ table' = table ∧ id' = id then some r else rows schema' table' id'

inductive CatalogOp where
  | panic
  | getOrganization (orgRef : String)
  | insertWorkspace (orgId name slug schemaName : String)
  | createSchema (schemaName : String)
  | connect
  | ddl (schemaName : String) (d : Ddl)
  | resetSearchPath
  | begin
  | insertEndpoint (schemaName : String) (build : Int → Endpoint)
  | insertJob (schemaName : String) (build : Uuid → Int → Job)
  | schedule (jobName : String) (entry : CronEntry)
  | commit
  | setSchemaVersion (workspaceId : String) (version : Int)
  | getWorkspace (workspaceId : String)

abbrev CatalogOp.Reply : CatalogOp → Type
  | .getOrganization _ => Option Organization
  | .insertWorkspace .. => Workspace
  | .insertJob .. => String
  | .getWorkspace _ => Workspace
  | _ => Unit

def CatalogOp.isPanic : CatalogOp → Bool
  | .panic => true
  | _ => false

/-- The committed catalog, and what the open transaction has made of it. -/
structure Server where
  committed : Catalog
  pending : Catalog

/-- `ORDER BY (org_id = $1) DESC LIMIT 1`. -/
def Catalog.organization (c : Catalog) (orgRef : String) : Option Organization :=
  (c.organizations.find? fun o => o.orgId.val = orgRef).or (c.organizations.find? fun o => o.slug = orgRef)

section exec

variable (accepts : String → Bool) (fresh : Uuid) (now : Int)

def Catalog.insertWorkspace (c : Catalog) (orgId name slug schemaName : String) : Except DbError (Catalog × Workspace) :=
  let ws : Workspace := ⟨fresh.val, orgId, name, slug, schemaName, .active, 0⟩
  if c.workspaces.any fun w => w.workspaceId = fresh.val || (w.orgId = orgId && w.slug = slug) || w.schemaName = schemaName
  then .error .unique
  else if c.organizations.any fun o => o.orgId.val = orgId then
    .ok ({ c with workspaces := c.workspaces ++ [ws] }, ws)
  else .error .foreignKey

/-- A statement on a relation that is not there is rejected. -/
def Catalog.hasRelation (c : Catalog) (schema table : String) : Bool := (c.relations schema).any (table ∈ ·)

def Catalog.insertEndpoint (c : Catalog) (schema : String) (e : Endpoint) : Except DbError Catalog :=
  if !c.hasRelation schema "endpoints" then .error .rejected
  else if (c.endpoints schema "endpoints" e.name).isSome then .error .unique
  else .ok { c with endpoints := addRow c.endpoints schema "endpoints" e.name e }

def Catalog.insertJob (c : Catalog) (schema : String) (j : Job) : Except DbError Catalog :=
  if !c.hasRelation schema "jobs" then .error .rejected
  else if (c.jobs schema "jobs" j.jobId).isSome then .error .unique
  else if (c.endpoints schema "endpoints" j.endpoint).isNone then .error .foreignKey
  else .ok { c with jobs := addRow c.jobs schema "jobs" j.jobId j }

/-- What a statement does when it is served. pg_cron `accepts` schedules in its own syntax. -/
def CatalogOp.exec (s : Server) : (o : CatalogOp) → Except DbError (Server × o.Reply)
  | .panic => .error .closed
  | .getOrganization orgRef => .ok (s, s.committed.organization orgRef)
  | .insertWorkspace orgId name slug schemaName => do
    let (c, ws) ← s.committed.insertWorkspace fresh orgId name slug schemaName
    return ({ s with committed := c }, ws)
  | .createSchema schemaName =>
    let relations := Function.update s.committed.relations schemaName (some ((s.committed.relations schemaName).getD []))
    .ok ({ s with committed := { s.committed with relations } }, ())
  | .connect => .ok (s, ())
  | .ddl schemaName d =>
    match s.committed.relations schemaName with
    | none => .error .rejected
    | some names => do
      let names ← d.apply names
      let relations := Function.update s.committed.relations schemaName (some names)
      return ({ s with committed := { s.committed with relations } }, ())
  | .resetSearchPath => .ok (s, ())
  | .begin => .ok ({ s with pending := s.committed }, ())
  | .insertEndpoint schemaName build => do
    let c ← s.pending.insertEndpoint schemaName (build now)
    return ({ s with pending := c }, ())
  | .insertJob schemaName build => do
    let c ← s.pending.insertJob schemaName (build fresh now)
    return ({ s with pending := c }, (build fresh now).jobId)
  | .schedule jobName entry =>
    if accepts entry.schedule then
      .ok ({ s with pending := { s.pending with cronJob := Function.update s.pending.cronJob jobName (some entry) } }, ())
    else .error .rejected
  | .commit => .ok ({ s with committed := s.pending }, ())
  | .setSchemaVersion workspaceId version =>
    let workspaces := s.committed.workspaces.map fun w =>
      if w.workspaceId = workspaceId then { w with schemaVersion := version } else w
    .ok ({ s with committed := { s.committed with workspaces } }, ())
  | .getWorkspace workspaceId =>
    match s.committed.workspaces.find? fun w => w.workspaceId = workspaceId with
    | none => .error .rejected
    | some ws => .ok (s, ws)

end exec

/-- What becomes of a statement. A lost one may have been executed. -/
inductive Fate where
  | served
  | rejected
  | lost (executed : Bool)
  deriving DecidableEq, Repr

structure Occasion where
  fate : Fate
  fresh : Uuid
  now : Int

def CatalogOp.serve (accepts : String → Bool) (s : Server) (m : Occasion) (o : CatalogOp) : Server × Except DbError o.Reply :=
  match m.fate, o.exec accepts m.fresh m.now s with
  | .served, .ok (s', r) => (s', .ok r)
  | .served, .error e => (s, .error e)
  | .rejected, _ => (s, .error .rejected)
  | .lost true, .ok (s', _) => (s', .error .closed)
  | .lost _, _ => (s, .error .closed)

abbrev Setting := Prog CatalogOp (fun o => Except DbError o.Reply)

/-- The process dies where the moments end and where it panics. -/
def serveAll (accepts : String → Bool) {α : Type} : Setting α → Server → List Occasion → Server × Option α
  | .ret a, s, _ => (s, some a)
  | .call _ _, s, [] => (s, none)
  | .call o next, s, m :: ms =>
    if o.isPanic then (s, none)
    else serveAll accepts (next (o.serve accepts s m).2) (o.serve accepts s m).1 ms

abbrev Sql := ExceptT DbError Setting

def sql (o : CatalogOp) : Sql o.Reply := ExceptT.mk (Prog.perform o)

/-- `scoped_connection` and `scoped_transaction`. -/
def inSchema (schemaName : String) (o : CatalogOp) : Sql o.Reply := do
  if !validateSchemaName schemaName then sql .panic
  sql o

namespace WorkspacesDb

def applyDdl (schemaName : String) : List Ddl → Sql Unit
  | [] => return ()
  | d :: ds => do
    sql (.ddl schemaName d)
    applyDdl schemaName ds

def provisionSchema (schemaName tablePrefix : String) : Sql Unit := do
  sql (.createSchema schemaName)
  inSchema schemaName .connect
  applyDdl schemaName (workspaceSchemaV1 tablePrefix)
  sql .resetSearchPath

def provisionReaper (schemaName cronExpression : String) : Sql Unit := do
  inSchema schemaName .begin
  sql (.insertEndpoint schemaName Workspaces.reaperEndpoint)
  let jobId ← sql (.insertJob schemaName fun id now => Workspaces.reaperJob id now cronExpression)
  sql (.schedule (Jobs.cronJobName schemaName jobId) ⟨cronExpression, Jobs.buildCronCommand "" schemaName jobId⟩)
  sql .commit

/-- What follows the assertion in `create`. -/
def insertAndProvision (orgId name slug schemaName reaperCronExpression : String) : Sql Workspace := do
  let workspace ← sql (.insertWorkspace orgId name slug schemaName)
  provisionSchema schemaName ""
  provisionReaper schemaName reaperCronExpression
  sql (.setSchemaVersion workspace.workspaceId 1)
  sql (.getWorkspace workspace.workspaceId)

def create (orgId name slug schemaName reaperCronExpression : String) : Sql Workspace := do
  if !validateSchemaName schemaName then sql .panic
  insertAndProvision orgId name slug schemaName reaperCronExpression

/-- `ORDER BY (o.org_id = $1) DESC, (w.workspace_id = $2) DESC LIMIT 1` over the ACTIVE workspaces. -/
def resolveSchema (c : Catalog) (orgRef workspaceRef : String) : Option String :=
  let rows := (c.organizations.flatMap fun o => (c.workspaces.filter fun w => w.orgId = o.orgId.val).map fun w => (o, w)).filter
    fun (o, w) => (o.orgId.val = orgRef || o.slug = orgRef) && (w.workspaceId = workspaceRef || w.slug = workspaceRef) &&
      w.status = .active
  let best := (rows.find? fun (o, w) => o.orgId.val = orgRef && w.workspaceId = workspaceRef).or
    ((rows.find? fun (o, _) => o.orgId.val = orgRef).or
      ((rows.find? fun (_, w) => w.workspaceId = workspaceRef).or rows.head?))
  best.map fun (_, w) => w.schemaName

end WorkspacesDb

def maxSlugLen : Nat := 25

def isSlugChar (c : Char) : Bool := c.isLower || c.isDigit || c = '-'

def validateSlug (slug : String) : Bool :=
  slug ≠ "" && slug.toList.length ≤ maxSlugLen && slug.toList.head? ≠ some '-' && slug.toList.getLast? ≠ some '-' &&
    slug.toList.all isSlugChar

def dashToUnderscore (c : Char) : Char := if c = '-' then '_' else c

def dashesToUnderscores (s : String) : String := String.ofList (s.toList.map dashToUnderscore)

def buildSchemaName (orgId workspaceSlug : String) : String :=
  dashesToUnderscores orgId ++ "_" ++ dashesToUnderscores workspaceSlug

namespace WorkspacesApi

def invalidSlug (slug : String) : AppError :=
  .invalidRequest ("Invalid slug '" ++ slug ++ "': must be 1-25 chars of lowercase letters, digits, and " ++
    "interior hyphens (no leading or trailing hyphen)")

def createError (slug : String) (e : DbError) : AppError :=
  if isConstraint e then .conflict ("Workspace with slug '" ++ slug ++ "' already exists in this org") else fromDb e

def create (reaperCronExpression orgRef name slug : String) : ExceptT AppError Setting Workspace := do
  if !validateSlug slug then throw (invalidSlug slug)
  match ← ExceptT.adapt fromDb (sql (.getOrganization orgRef)) with
  | none => throw (.orgNotFound ("Organization " ++ orgRef ++ " not found"))
  | some org =>
    ExceptT.adapt (createError slug)
      (WorkspacesDb.create org.orgId.val name slug (buildSchemaName org.orgId.val slug) reaperCronExpression)

end WorkspacesApi

/-- `InvokrHttpClient::provision_workspace` on the answer to its request. -/
def provisionWorkspaceOk : Except AppError Workspace → Bool
  | .ok _ => true
  | .error e => e.statusCode = 409

/-- `SchemaRegistry`, with what it has cached. -/
structure SchemaRegistry where
  schemas : List String
  fetchedAt : Nat

def SchemaRegistry.getActiveSchemas (r : SchemaRegistry) (c : Catalog) (ttl now : Nat) : List String × SchemaRegistry :=
  if now - r.fetchedAt < ttl && r.schemas ≠ [] then (r.schemas, r)
  else
    let schemas := (c.workspaces.filter fun w => w.status = .active).map Workspace.schemaName
    (schemas, ⟨schemas, now⟩)

end Invokr
