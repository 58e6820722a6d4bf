import Invokr.Recall
import Invokr.SideRequests
import Invokr.UsesJobs

namespace Invokr

open TxLib

variable {env : Setup}

/-- Some `SELECT` of this kind has shown the row. -/
def Shown (l : List (Exchange Pg)) (stmt : Statement) (tb : Table) (k : Key) (r : tb.Row) : Prop :=
  ∃ x ∈ l, x.op = .snapshot stmt ∧ x.rows tb k = some r

/-- What a create request has found out about its endpoint. -/
structure EndpointRead (env : Setup) (schemaName : String) (body : CreateJob) (l : List (Exchange Pg)) (ep : Endpoint) :
    Prop where
  shown : Shown l .getEndpoint .endpoints ⟨schemaName, body.endpoint⟩ ep
  user : ep.endpointType ≠ .internal
  checked : ∀ name input, ep.payloadSpecRef = some name → body.input = some input → ∃ spec : PayloadSpec,
    Shown l (.getPayloadSpec name) .payloadSpecs ⟨schemaName, name⟩ spec ∧
      JobsApi.validateInput env input spec.schemaJson = .ok ()

/-- The row is a job of the schema for this endpoint. -/
structure JobFor (schemaName endpoint : String) (endpointType : EndpointType) (input : Option Json) (k : Key) (j : Job) :
    Prop where
  schema : k.schema = schemaName
  endpoint : j.endpoint = endpoint
  endpointType : j.endpointType = endpointType
  input : j.input = input

/-- What a request knows when it inserts a job. -/
def KnowsJob (env : Setup) (req : Request env) (m : Memory Pg) (build : Uuid → Int → Key × Job) : Prop :=
  match req with
  | .createJob schemaName body => ∃ ep, EndpointRead env schemaName body m.2 ep ∧
      ∀ id now, JobFor schemaName body.endpoint ep.endpointType body.input (build id now).1 (build id now).2
  | .libraryCreateJob schemaName endpoint input _ _ _ => ∃ ep,
      Shown m.2 .getEndpoint .endpoints ⟨schemaName, endpoint⟩ ep ∧
      ∀ id now, JobFor schemaName endpoint ep.endpointType (some input) (build id now).1 (build id now).2
  | .updateJob schemaName jobId body => ∃ old, Shown m.2 .getJob .jobs ⟨schemaName, jobId⟩ old ∧
      old.endpointType ≠ .internal ∧ ∀ id now, JobFor schemaName old.endpoint old.endpointType
        (body.input.orElse fun _ => old.input) (build id now).1 (build id now).2
  | .provisionReaper schemaName _ _ => (∃ s h ep, m.1 = some s ∧
      s.held .endpoints ⟨schemaName, Workspaces.reaperEndpointName⟩ = some h ∧ h.new = some ep ∧
      ep.endpointType = .internal) ∧
      ∀ id now, JobFor schemaName Workspaces.reaperEndpointName .internal none (build id now).1 (build id now).2
  | _ => False

/-- What a request knows when it inserts an execution. -/
def KnowsExecution (env : Setup) (req : Request env) (m : Memory Pg) (build : Uuid → Int → Key × Execution) : Prop :=
  match req with
  | .createJob schemaName body => ∃ ep, EndpointRead env schemaName body m.2 ep ∧
      ∀ id now, (build id now).2.maxAttempts = JobsApi.maxAttemptsOf body ep
  | .libraryCreateJob _ _ _ maxAttempts _ _ => ∀ id now, (build id now).2.maxAttempts = maxAttempts
  | .tick _ => ∃ (c : CronCommand) (x : Exchange Pg) (j : Job) (ep : Endpoint) (n : Int), x ∈ m.2 ∧
      x.op = .snapshot .cronCommand ∧ x.rows .jobs ⟨c.schemaName, c.jobId⟩ = some j ∧
      x.rows .endpoints ⟨c.schemaName, j.endpoint⟩ = some ep ∧ Jobs.cronMaxAttempts ep.retryPolicy = some n ∧
      ∀ id now, jobKey (build id now).1 (build id now).2 = ⟨c.schemaName, j.jobId⟩ ∧ (build id now).2.maxAttempts = n
  | _ => False

/-- The endpoint a request registers. -/
def Introduces (req : Request env) (k : Key) (ep : Endpoint) : Prop :=
  match req with
  | .createEndpoint schemaName body => k = ⟨schemaName, body.name⟩ ∧ ep.endpointType ≠ .internal
  | .libraryRegisterEndpoint schemaName name endpointType _ _ => k = ⟨schemaName, name⟩ ∧ ep.endpointType = endpointType
  | .provisionReaper schemaName _ _ => k = ⟨schemaName, Workspaces.reaperEndpointName⟩ ∧ ep.endpointType = .internal
  | _ => False

/-- The endpoint a request changes. -/
def Alters (req : Request env) (k : Key) : Prop :=
  match req with
  | .updateEndpoint schemaName name _ => k = ⟨schemaName, name⟩
  | .libraryRegisterEndpoint schemaName name _ _ _ => k = ⟨schemaName, name⟩
  | _ => False

/-- The endpoint a request deletes. -/
def Removes (req : Request env) (k : Key) : Prop :=
  match req with
  | .deleteEndpoint schemaName name => k = ⟨schemaName, name⟩
  | .libraryDeleteEndpoint schemaName name => k = ⟨schemaName, name⟩
  | _ => False

/-- The requests that write payload specs. -/
def Request.ofSpecs : Request env → Bool
  | .createPayloadSpec .. | .updatePayloadSpec .. | .deletePayloadSpec .. => true
  | _ => false

/-- What a request knows at its calls. -/
def Issues (env : Setup) (req : Request env) (m : Memory Pg) : Op Pg → Prop
  | .update _ .endpoints k _ _ patch => Alters req k ∧ ∀ now (ep : Endpoint), (patch.apply now ep).endpointType = ep.endpointType
  | .update _ .jobs _ _ _ patch => ∀ now (j : Job), (patch.apply now j).endpoint = j.endpoint ∧
      (patch.apply now j).endpointType = j.endpointType ∧ (patch.apply now j).input = j.input
  | .insert _ .endpoints _ build => ∀ id now, Introduces req (build id now).1 (build id now).2
  | .insert _ .jobs _ build => KnowsJob env req m build
  | .insert _ .executions _ build => KnowsExecution env req m build
  | .deleteNow _ .endpoints k => Removes req k
  | .insert _ .payloadSpecs _ _ => req.ofSpecs = true
  | .update _ .payloadSpecs _ _ _ _ => req.ofSpecs = true
  | .deleteNow _ .payloadSpecs _ => req.ofSpecs = true
  | _ => True

theorem Shown.later {l l' : List (Exchange Pg)} {stmt : Statement} {tb : Table} {k : Key} {r : tb.Row}
    (h : Shown l stmt tb k r) (le : l <+: l') : Shown l' stmt tb k r := by
  obtain ⟨x, hx, rest⟩ := h
  exact ⟨x, le.subset hx, rest⟩

theorem EndpointRead.later {schemaName : String} {body : CreateJob} {l l' : List (Exchange Pg)} {ep : Endpoint}
    (h : EndpointRead env schemaName body l ep) (le : l <+: l') : EndpointRead env schemaName body l' ep where
  shown := h.shown.later le
  user := h.user
  checked name input hn hi := by
    obtain ⟨spec, shown, valid⟩ := h.checked name input hn hi
    exact ⟨spec, shown.later le, valid⟩

section walk

variable {req : Request env} {m : Memory Pg} {l : List (Exchange Pg)} {α ε : Type}

/-- The calls that the request may make from now on. -/
def From (env : Setup) (req : Request env) (l : List (Exchange Pg)) (o : Op Pg) : Prop :=
  ∀ m, l <+: m.2 → Issues env req m o

theorem neutral_from : Neutral (From env req l) where
  ext _ _ _ _ := trivial
  halt _ _ := trivial
  begin _ _ := trivial
  snapshot _ _ _ := trivial
  commit _ _ := trivial
  rollback _ _ := trivial

abbrev Walks (env : Setup) (req : Request env) (ok : α → Memory Pg → Prop) (err : ε → Memory Pg → Prop) (x : Try Pg ε α)
    (m : Memory Pg) : Prop := Tries Recalls (Issues env req) ok err x m

theorem walks_uses {x : Try Pg ε α} (h : x.run.Uses (From env req m.2)) :
    Walks env req (fun _ m' => m.2 <+: m'.2) (fun _ m' => m.2 <+: m'.2) x m := by
  refine (recalls_uses h fun m' o hm ho => ho m' hm).mono fun r m' hm => ?_
  cases r <;> exact hm

theorem walks_done {x : Try Pg ε α} (h : x.run.Uses (From env req m.2)) :
    Walks env req (fun _ _ => True) (fun _ _ => True) x m :=
  (walks_uses h).mono (fun _ _ _ => trivial) fun _ _ _ => trivial

theorem walks_read {stmt : Statement} {f : Snapshot Pg → α} {ok : α → Memory Pg → Prop} {db : DbContext}
    (alone : db.inTx = false) (hw : Outside l m)
    (hok : ∀ m' now D keys e, Outside l m' → Adds [.begin, .snapshot stmt, .commit] m m' → Indexed D keys →
      ⟨.snapshot stmt, e, .ok ⟨now, D, keys⟩, D⟩ ∈ m'.2 → ok (f ⟨now, D, keys⟩) m') :
    Walks env req ok (fun _ _ => True) (db.execute (do let snap ← query (M := Pg) stmt; return f snap)) m := by
  unfold DbContext.execute
  rw [alone]
  refine recalls_read hw (fun m' o _ ho => ?_) hok fun _ _ _ _ => trivial
  cases o <;> trivial

theorem walks_connect {schemaName : String} (hw : Outside l m) :
    Walks env req (fun _ m' => Outside l m') (fun _ _ => True) (scopedConnection schemaName) m := by
  have rest : Walks env req (fun _ m' => Outside l m') (fun _ _ => True) (do
      let acquired : Bool ← (ext (M := Pg) .acquire : Program Pg Bool)
      if acquired then return () else throw (fromDb .closed) : Try Pg AppError Unit) m := by
    refine tries_bind (tries_lift (recalls_ext hw trivial fun _ _ m' hm' _ => ?_))
    split
    next => exact tries_pure hm'
    next => exact tries_throw trivial
  unfold scopedConnection
  split
  next => exact tries_bind (tries_lift ⟨trivial, fun r => r.elim⟩)
  next => exact rest

end walk

end Invokr
