import Invokr.Pipeline

namespace Invokr

namespace Dispatcher

def stringField (spec : Json) (key : String) : Option String := (spec.get key).bind Json.asStr

/-- The entries of the object `headers` whose values are strings, in its order. -/
def stringHeaders (spec : Json) : Option (List (String × String)) :=
  ((spec.get "headers").bind Json.asObject).map fun fields => fields.filterMap fun f => f.2.asStr.map (Prod.mk f.1)

def eqIgnoreAsciiCase (a b : String) : Bool := a.toList.map Char.toLower = b.toList.map Char.toLower

def idempotencyHeader : String := "x-invokr-idempotency-key"

/-- What `http::dispatch` puts into the client's request; its headers are added one by one. -/
structure HttpRequest where
  method : String
  url : String
  headers : List (String × String)
  timeoutMs : Nat
  body : Option Json

def httpMethod (spec : Json) : String :=
  let method := ((stringField spec "method").getD "POST").map Char.toUpper
  if ["GET", "POST", "PUT", "PATCH", "DELETE"].contains method then method else "POST"

def httpHeaders (spec : Json) (idempotencyKey : String) : List (String × String) :=
  let headers := (stringHeaders spec).getD []
  if headers.any fun h => eqIgnoreAsciiCase h.1 idempotencyHeader then headers
  else headers ++ [(idempotencyHeader, idempotencyKey)]

/-- The request that `httpSend` sends. -/
def httpRequest (spec : Json) (idempotencyKey : String) : HttpRequest where
  method := httpMethod spec
  url := (stringField spec "url").getD ""
  headers := httpHeaders spec idempotencyKey
  timeoutMs := ((spec.get "timeout_ms").bind Json.asU64).getD 5000
  body := ((spec.get "body_template").or (spec.get "body")).filter fun body => !body.isNull

structure KafkaRecord where
  bootstrapServers : String
  topic : String
  timeoutMs : Nat
  acks : String
  key : Option String
  value : String
  headers : Option (List (String × String))

/-- The record that `kafkaSend` sends. -/
def kafkaRecord (spec : Json) : KafkaRecord where
  bootstrapServers := (stringField spec "bootstrap_servers").getD ""
  topic := (stringField spec "topic").getD ""
  timeoutMs := ((spec.get "timeout_ms").bind Json.asU64).getD 10000
  acks := (stringField spec "acks").getD "all"
  key := stringField spec "key_template"
  value := ((spec.get "value_template").map Json.text).getD "\x7b\x7d"
  headers := stringHeaders spec

end Dispatcher

end Invokr
