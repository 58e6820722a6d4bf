import Invokr.Listing
import Invokr.QueryText

namespace Invokr

open TextLib

/-- What the dashboard asks a listing for. -/
structure JobListQueryParams where
  cursor : Option String
  limit : Int
  jobId : Option String
  status : List String
  trigger : List String
  endpoint : Option String
  endpointType : List String
  createdAfter : Option String
  createdBefore : Option String

def encodeQueryValue (value : String) : String := String.ofList (encodedText value)

def pushQueryParam (qs key value : String) : String :=
  if value = "" then qs
  else qs ++ (if qs = "" then "?" else "&") ++ key ++ "=" ++ encodeQueryValue value

def pushOptional (qs key : String) (value : Option String) : String :=
  match value with
  | some value => pushQueryParam qs key value
  | none => qs

def pushList (qs key : String) (values : List String) : String :=
  if values ≠ [] then pushQueryParam qs key (",".intercalate values) else qs

/-- The query string of the dashboard's `list_jobs`. -/
def listJobsQuery (params : JobListQueryParams) : String :=
  let qs := pushOptional "" "cursor" params.cursor
  let qs := pushQueryParam qs "limit" (toString params.limit)
  let qs := pushOptional qs "job_id" params.jobId
  let qs := pushList qs "status" params.status
  let qs := pushList qs "trigger_type" params.trigger
  let qs := pushList qs "endpoint_type" params.endpointType
  let qs := pushOptional qs "endpoint" params.endpoint
  let qs := pushOptional qs "created_after" params.createdAfter
  pushOptional qs "created_before" params.createdBefore

/-- `DateTime::parse_from_rfc3339`, which takes no blank text and none with blanks around it. -/
structure Rfc3339 where
  parse : String → Option Instant
  trimmed : ∀ s t, parse s = some t → s ≠ "" ∧ trim s.toList = s.toList

def blankToNone (value : Option String) : Option String :=
  value.bind fun v =>
    let trimmed := trim v.toList
    if trimmed = [] then none else some (String.ofList trimmed)

/-- Of a repeated key the last value that is not blank. -/
def lastScalar (pairs : List (String × String)) (key : String) : Option String :=
  ((pairs.filter (·.1 = key)).filterMap fun pair => blankToNone (some pair.2)).getLast?

def parseFilterList {T : Type} [DecidableEq T] (pairs : List (String × String)) (key : String) (parse : String → Option T)
    (label : String) : Except AppError (List T) :=
  (pairs.filter (·.1 = key)).foldlM (fun out pair => (pair.2.toList.splitOn ',').foldlM token out) []
where
  token (out : List T) (token : List Char) : Except AppError (List T) :=
    let token := trim token
    if token = [] then .ok out
    else match parse (String.ofList token) with
      | some parsed => .ok (if parsed ∈ out then out else out ++ [parsed])
      | none => .error (.invalidRequest ("Invalid " ++ label ++ ": " ++ String.ofList token))

def parseDatetime (rfc : Rfc3339) (value : Option String) (label : String) : Except AppError (Option Instant) :=
  match blankToNone value with
  | some s =>
    match rfc.parse s with
    | some dt => .ok (some dt)
    | none => .error (.invalidRequest ("Invalid " ++ label ++ ": " ++ s))
  | none => .ok none

def parseJobFilters (rfc : Rfc3339) (pairs : List (String × String)) : Except AppError JobFilters := do
  let createdAfter ← parseDatetime rfc (lastScalar pairs "created_after") "created_after"
  let createdBefore ← parseDatetime rfc (lastScalar pairs "created_before") "created_before"
  if createdAfter.any fun a => createdBefore.any fun b => a > b then
    throw (.invalidRequest "created_after must not be after created_before")
  let jobId := lastScalar pairs "job_id"
  let status ← parseFilterList pairs "status" JobStatus.fromStrVal "status"
  let trigger ← parseFilterList pairs "trigger_type" TriggerType.fromStrVal "trigger"
  let endpoint := lastScalar pairs "endpoint"
  let endpointType ← parseFilterList pairs "endpoint_type" EndpointType.fromStrVal "endpoint_type"
  return ⟨jobId, status, trigger, endpoint, endpointType, createdAfter, createdBefore⟩

end Invokr
