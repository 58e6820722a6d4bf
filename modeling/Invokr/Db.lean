import Invokr.Schema
import Invokr.Tx

namespace Invokr

open TxLib

/-- A connection whose `search_path` is a workspace schema, in a transaction or not. -/
structure DbContext where
  schema : String
  tablePrefix : String
  inTx : Bool
  deriving DecidableEq, Repr

/-- Outside a transaction a statement commits on its own. -/
def DbContext.execute {α : Type} (db : DbContext) (statement : Try Pg DbError α) : Try Pg DbError α :=
  if db.inTx then statement else transaction id statement

def DbContext.key (db : DbContext) (id : String) : Key := ⟨db.schema, id⟩

/-- `UPDATE … WHERE` a primary key: the row must match when the statement starts and again when
the statement has its lock. -/
def updateOne (stmt : Statement) (tb : Table) (k : Key) (keep : Int → tb.Row → Bool) (patch : Patch Pg tb) :
    Try Pg DbError (Option tb.Row) := do
  let snap ← query (M := Pg) stmt
  match snap.row tb k with
  | none => return none
  | some r => if keep snap.now r then update (M := Pg) stmt tb k false keep patch else return none

def updateEach (stmt : Statement) (tb : Table) (keep : Int → tb.Row → Bool) (patch : Patch Pg tb) :
    List Key → Try Pg DbError (List tb.Row)
  | [] => return []
  | k :: ks => do
    let r ← update (M := Pg) stmt tb k false keep patch
    let rs ← updateEach stmt tb keep patch ks
    return r.toList ++ rs

/-- The keys of the schema's rows that satisfy a condition in a snapshot. -/
def matching (snap : Snapshot Pg) (schema : String) (tb : Table) (keep : Int → tb.Row → Bool) : List Key :=
  (snap.keys tb).filter fun k => k.schema = schema && ((snap.row tb k).any (keep snap.now) : Bool)

/-- `UPDATE … WHERE` any condition. -/
def updateWhere (stmt : Statement) (schema : String) (tb : Table) (keep : Int → tb.Row → Bool)
    (patch : Patch Pg tb) : Try Pg DbError (List tb.Row) := do
  let snap ← query (M := Pg) stmt
  updateEach stmt tb keep patch (matching snap schema tb keep)

/-- `INSERT … RETURNING *` for one row. -/
def insertOne (stmt : Statement) (tb : Table) (build : Uuid → Int → Key × tb.Row) : Try Pg DbError tb.Row := do
  match ← insert (M := Pg) stmt tb false build with
  | some new => return new.2
  | none => throw .rejected

/-- `SELECT COUNT(*) FROM endpoints WHERE …` is positive. -/
def hasDependentEndpoints (db : DbContext) (depends : Endpoint → Bool) : Try Pg DbError Bool := db.execute do
  let snap ← query (M := Pg) .hasDependentEndpoints
  return (matching snap db.schema .endpoints fun _ (e : Endpoint) => depends e).length > 0

namespace PayloadSpecs

def get (db : DbContext) (name : String) : Try Pg DbError (Option PayloadSpec) := db.execute do
  let snap ← query (M := Pg) (.getPayloadSpec name)
  return snap.row .payloadSpecs (db.key name)

def create (db : DbContext) (name : String) (schema : Json) : Try Pg DbError PayloadSpec := db.execute do
  insertOne .insertPayloadSpec .payloadSpecs fun _ now => (db.key name, PayloadSpec.mk name schema now now)

def updatePatch (schema : Json) : Patch Pg .payloadSpecs where
  apply now (p : PayloadSpec) := { p with schemaJson := schema, updatedAt := now }
  keeps _ _ _ := rfl

def update (db : DbContext) (name : String) (schema : Json) : Try Pg DbError (Option PayloadSpec) := db.execute do
  updateOne .updatePayloadSpec .payloadSpecs (db.key name) (fun _ _ => true) (updatePatch schema)

/-- The handlers delete on a plain connection only. -/
def delete (db : DbContext) (name : String) : Try Pg DbError Bool :=
  deleteNow (M := Pg) .deletePayloadSpec .payloadSpecs (db.key name)

end PayloadSpecs

namespace Configs

def get (db : DbContext) (name : String) : Try Pg DbError (Option Config) := db.execute do
  let snap ← query (M := Pg) .getConfig
  return snap.row .configs (db.key name)

def create (db : DbContext) (name : String) (values : Json) : Try Pg DbError Config := db.execute do
  insertOne .insertConfig .configs fun _ now => (db.key name, Config.mk name values now now)

def updatePatch (values : Json) : Patch Pg .configs where
  apply now (c : Config) := { c with valuesJson := values, updatedAt := now }
  keeps _ _ _ := rfl

def update (db : DbContext) (name : String) (values : Json) : Try Pg DbError (Option Config) := db.execute do
  updateOne .updateConfig .configs (db.key name) (fun _ _ => true) (updatePatch values)

def delete (db : DbContext) (name : String) : Try Pg DbError Bool :=
  deleteNow (M := Pg) .deleteConfig .configs (db.key name)

end Configs

namespace Secrets

def get (db : DbContext) (name : String) : Try Pg DbError (Option Secret) := db.execute do
  let snap ← query (M := Pg) .getSecret
  return snap.row .secrets (db.key name)

def create (db : DbContext) (name : String) (encryptedValue : List UInt8) : Try Pg DbError Secret := db.execute do
  insertOne .insertSecret .secrets fun _ now => (db.key name, Secret.mk name encryptedValue now now)

def updatePatch (encryptedValue : List UInt8) : Patch Pg .secrets where
  apply now (s : Secret) := { s with encryptedValue, updatedAt := now }
  keeps _ _ _ := rfl

def update (db : DbContext) (name : String) (encryptedValue : List UInt8) : Try Pg DbError (Option Secret) :=
  db.execute do
    updateOne .updateSecret .secrets (db.key name) (fun _ _ => true) (updatePatch encryptedValue)

def delete (db : DbContext) (name : String) : Try Pg DbError Bool :=
  deleteNow (M := Pg) .deleteSecret .secrets (db.key name)

end Secrets

namespace Endpoints

def get (db : DbContext) (name : String) : Try Pg DbError (Option Endpoint) := db.execute do
  let snap ← query (M := Pg) .getEndpoint
  return snap.row .endpoints (db.key name)

def create (db : DbContext) (name : String) (endpointType : EndpointType) (payloadSpecRef configRef : Option String)
    (spec : Json) (retryPolicy : Option Json) : Try Pg DbError Endpoint := db.execute do
  insertOne .insertEndpoint .endpoints fun _ now =>
    (db.key name, Endpoint.mk name endpointType payloadSpecRef configRef spec retryPolicy now now)

def updatePatch (spec : Option Json) (configRef payloadSpecRef : Option String) (retryPolicy : Option Json) :
    Patch Pg .endpoints where
  apply now (e : Endpoint) :=
    { e with
      spec := spec.getD e.spec
      configRef := configRef.orElse fun _ => e.configRef
      payloadSpecRef := payloadSpecRef.orElse fun _ => e.payloadSpecRef
      retryPolicy := retryPolicy.orElse fun _ => e.retryPolicy
      updatedAt := now }
  keeps _ _ _ := rfl

def update (db : DbContext) (name : String) (spec : Option Json) (configRef payloadSpecRef : Option String)
    (retryPolicy : Option Json) : Try Pg DbError (Option Endpoint) := db.execute do
  updateOne .updateEndpoint .endpoints (db.key name) (fun _ _ => true)
    (updatePatch spec configRef payloadSpecRef retryPolicy)

def delete (db : DbContext) (name : String) : Try Pg DbError Bool :=
  deleteNow (M := Pg) .deleteEndpoint .endpoints (db.key name)

def hasActiveJobs (db : DbContext) (name : String) : Try Pg DbError Bool := db.execute do
  let snap ← query (M := Pg) .hasActiveJobs
  return (matching snap db.schema .jobs fun _ (j : Job) => j.endpoint = name && j.status = .active).length > 0

end Endpoints

end Invokr
