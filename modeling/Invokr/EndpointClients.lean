import Invokr.Service

namespace Invokr

open TxLib

/-- What comes back from the API: the answer of a handler, or the server's where no route or no body fits. -/
inductive ServerAnswer where
  | handled (r : Response)
  | noRoute
  | badBody

namespace ServerAnswer

def status : ServerAnswer → Nat
  | handled r => statusCode r
  | noRoute => 404
  | badBody => 400

def isSuccess (answer : ServerAnswer) : Bool := 200 ≤ answer.status && answer.status < 300

end ServerAnswer

inductive ClientError where
  | database (text : String)
  | http (ctx : String) (answer : ServerAnswer)

/-- An optional policy in a body: `null` is none, and one that does not fit its fields is refused. -/
def bodyPolicy : Option Json → Option (Option RetryPolicy)
  | none | some .null => some none
  | some v => (RetryPolicy.fromValue v).map some

/-- An optional value in a body, where `null` is none. -/
def bodyValue : Json → Option Json
  | .null => none
  | v => some v

namespace HttpClient

/-- `PUT /endpoints/{name}`; the server reads the name in the path. -/
def putEndpoint (env : Setup) (pathName : String → Option String) (schemaName name : String) (spec : Json)
    (retryPolicy : Option Json) : Program Pg ServerAnswer :=
  match pathName name with
  | none => return .noRoute
  | some target =>
    match bodyPolicy retryPolicy with
    | none => return .badBody
    | some policy => do
      let r ← (EndpointsApi.update env schemaName target ⟨bodyValue spec, none, none, policy⟩).run
      return .handled r

def postEndpoint (env : Setup) (schemaName name : String) (endpointType : EndpointType) (spec : Json)
    (retryPolicy : Option Json) : Program Pg ServerAnswer :=
  match bodyPolicy retryPolicy with
  | none => return .badBody
  | some policy => do
    let r ← (EndpointsApi.create env schemaName ⟨name, endpointType.asStr, none, none, spec, policy⟩).run
    return .handled r

def registerEndpoint (env : Setup) (pathName : String → Option String) (schemaName name : String)
    (endpointType : EndpointType) (spec : Json) (retryPolicy : Option Json) : Try Pg ClientError Unit := do
  let answer ← (putEndpoint env pathName schemaName name spec retryPolicy : Program Pg ServerAnswer)
  if answer.isSuccess then return ()
  if answer.status ≠ 404 then throw (.http "register_endpoint update" answer)
  let answer ← (postEndpoint env schemaName name endpointType spec retryPolicy : Program Pg ServerAnswer)
  if answer.isSuccess then return ()
  throw (.http "register_endpoint create" answer)

end HttpClient

/-- The implementations of the client; the HTTP one sends names in paths. -/
inductive InvokrClient where
  | library
  | http (pathName : String → Option String)

def InvokrClient.registerEndpoint (env : Setup) (schemaName name : String) (endpointType : EndpointType) (spec : Json)
    (retryPolicy : Option Json) : InvokrClient → Try Pg ClientError Unit
  | .library => ExceptT.adapt .database (LibraryClient.registerEndpoint env schemaName name endpointType spec retryPolicy)
  | .http pathName => HttpClient.registerEndpoint env pathName schemaName name endpointType spec retryPolicy

end Invokr
