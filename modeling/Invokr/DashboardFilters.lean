import Invokr.ListRequest

namespace Invokr

open TextLib

section sending

variable {qs key value : String} {sent : List (String × String)}

/-- A parameter with an empty value is not sent. -/
def param (key value : String) : List (String × String) := if value = "" then [] else [(key, value)]

def optionalParam (key : String) (value : Option String) : List (String × String) := value.elim [] (param key)

def listParam (key : String) (values : List String) : List (String × String) :=
  if values ≠ [] then param key (",".intercalate values) else []

def sentParams (params : JobListQueryParams) : List (String × String) :=
  optionalParam "cursor" params.cursor ++ param "limit" (toString params.limit) ++ optionalParam "job_id" params.jobId ++
    listParam "status" params.status ++ listParam "trigger_type" params.trigger ++
    listParam "endpoint_type" params.endpointType ++ optionalParam "endpoint" params.endpoint ++
    optionalParam "created_after" params.createdAfter ++ optionalParam "created_before" params.createdBefore

/-- The query string that has been built says what has been sent. -/
def Says (qs : String) (sent : List (String × String)) : Prop :=
  qs.toList = (if sent = [] then [] else '?' :: queryText sent) ∧ ∀ p ∈ sent, PlainName p.1

theorem pushQueryParam_toList (hv : value ≠ "") : (pushQueryParam qs key value).toList =
    qs.toList ++ (if qs = "" then '?' else '&') :: pairText (key, value) := by
  have separator : (if qs = "" then "?" else "&").toList = [if qs = "" then '?' else '&'] := by
    split <;> decide
  have equals : "=".toList = ['='] := by decide
  simp only [pushQueryParam, if_neg hv, encodeQueryValue, String.toList_append, String.toList_ofList, separator, equals, pairText,
    List.append_assoc, List.cons_append, List.nil_append]

theorem says_push (h : Says qs sent) (hkey : PlainName key) (value : String) :
    Says (pushQueryParam qs key value) (sent ++ param key value) := by
  obtain ⟨text, names⟩ := h
  by_cases hv : value = ""
  · rw [pushQueryParam, param, if_pos hv, if_pos hv, List.append_nil]
    exact ⟨text, names⟩
  · have longer : sent ++ [(key, value)] ≠ [] := List.append_ne_nil_of_right_ne_nil _ (List.cons_ne_nil _ _)
    rw [param, if_neg hv]
    refine ⟨?_, fun p hp => ?_⟩
    · rw [pushQueryParam_toList hv, if_neg longer]
      by_cases hs : sent = []
      · rw [if_pos hs] at text
        rw [text, if_pos (String.toList_eq_nil_iff.mp text), hs]
        simp [queryText]
      · rw [if_neg hs] at text
        have started : qs ≠ "" := fun he => by simp [he] at text
        rw [text, if_neg started, queryText_snoc hs, List.cons_append]
    · rcases List.mem_append.mp hp with hp | hp
      · exact names p hp
      · rw [List.mem_singleton.mp hp]
        exact hkey

theorem says_optional (h : Says qs sent) (hkey : PlainName key) (value : Option String) :
    Says (pushOptional qs key value) (sent ++ optionalParam key value) := by
  cases value with
  | none => simpa only [pushOptional, optionalParam, Option.elim_none, List.append_nil] using h
  | some value => exact says_push h hkey value

theorem says_list (h : Says qs sent) (hkey : PlainName key) (values : List String) :
    Says (pushList qs key values) (sent ++ listParam key values) := by
  unfold pushList listParam
  split
  · exact says_push h hkey _
  · rwa [List.append_nil]

theorem says_listJobsQuery (params : JobListQueryParams) : Says (listJobsQuery params) (sentParams params) := by
  have start : Says "" [] := ⟨by decide, fun p hp => absurd hp List.not_mem_nil⟩
  have cursor := says_optional start (by decide +kernel : PlainName "cursor") params.cursor
  have limit := says_push cursor (by decide +kernel : PlainName "limit") (toString params.limit)
  have jobId := says_optional limit (by decide +kernel : PlainName "job_id") params.jobId
  have status := says_list jobId (by decide +kernel : PlainName "status") params.status
  have trigger := says_list status (by decide +kernel : PlainName "trigger_type") params.trigger
  have endpointType := says_list trigger (by decide +kernel : PlainName "endpoint_type") params.endpointType
  have endpoint := says_optional endpointType (by decide +kernel : PlainName "endpoint") params.endpoint
  have after := says_optional endpoint (by decide +kernel : PlainName "created_after") params.createdAfter
  exact says_optional after (by decide +kernel : PlainName "created_before") params.createdBefore

/-- The pairs that the server reads in a query string. -/
def pairsOf (lossy : List UInt8 → String) (qs : String) : List (String × String) := formPairs lossy (queryPart qs.toList)

theorem says_pairsOf {lossy : List UInt8 → String} (h : Says qs sent) : pairsOf lossy qs = sent := by
  obtain ⟨text, names⟩ := h
  unfold pairsOf
  rw [text]
  split
  next hs => rw [hs]; rfl
  next hs => rw [queryPart_queryText names, formPairs_queryText names]

end sending

section reading

variable {key : String} {T : Type} [DecidableEq T] {parse : String → Option T} {label : String}

theorem filter_param (k v key : String) : (param k v).filter (·.1 = key) = if k = key then param k v else [] := by
  unfold param
  split <;> split <;> simp_all

theorem filter_optional (k : String) (v : Option String) (key : String) :
    (optionalParam k v).filter (·.1 = key) = if k = key then optionalParam k v else [] := by
  cases v with
  | none => simp [optionalParam]
  | some v => exact filter_param k v key

theorem filter_list (k : String) (vs : List String) (key : String) :
    (listParam k vs).filter (·.1 = key) = if k = key then listParam k vs else [] := by
  unfold listParam
  split
  · exact filter_param k _ key
  · simp

/-- The values sent under each key. -/
theorem sentParams_key (params : JobListQueryParams) :
    (sentParams params).filter (·.1 = "job_id") = optionalParam "job_id" params.jobId ∧
      (sentParams params).filter (·.1 = "status") = listParam "status" params.status ∧
      (sentParams params).filter (·.1 = "trigger_type") = listParam "trigger_type" params.trigger ∧
      (sentParams params).filter (·.1 = "endpoint_type") = listParam "endpoint_type" params.endpointType ∧
      (sentParams params).filter (·.1 = "endpoint") = optionalParam "endpoint" params.endpoint ∧
      (sentParams params).filter (·.1 = "created_after") = optionalParam "created_after" params.createdAfter ∧
      (sentParams params).filter (·.1 = "created_before") = optionalParam "created_before" params.createdBefore := by
  simp only [sentParams, List.filter_append, filter_param, filter_optional, filter_list]
  refine ⟨?_, ?_, ?_, ?_, ?_, ?_, ?_⟩ <;> simp

theorem blankToNone_empty : blankToNone (some "") = none := by decide

theorem optional_last (key : String) (value : Option String) :
    ((optionalParam key value).filterMap fun pair => blankToNone (some pair.2)).getLast? = blankToNone value := by
  cases value with
  | none => rfl
  | some value =>
    simp only [optionalParam, Option.elim_some, param]
    split
    next hv => rw [hv, blankToNone_empty]; rfl
    next hv => cases h : blankToNone (some value) <;> simp [h]

/-- A name that is one token of a list. -/
def Token (name : String) : Prop := name ≠ "" ∧ ',' ∉ name.toList ∧ trim name.toList = name.toList

instance : DecidablePred Token := fun name =>
  inferInstanceAs (Decidable (name ≠ "" ∧ ',' ∉ name.toList ∧ trim name.toList = name.toList))

theorem token_parsed {name : String} (h : Token name) {x : T} (hp : parse name = some x) (out : List T) :
    parseFilterList.token parse label out name.toList = .ok (if x ∈ out then out else out ++ [x]) := by
  have nonempty : name.toList ≠ [] := fun he => h.1 (String.toList_eq_nil_iff.mp he)
  simp only [parseFilterList.token, h.2.2, if_neg nonempty, String.ofList_toList, hp]

theorem eraseDups_snoc (l : List T) (x : T) :
    (l ++ [x]).eraseDups = if x ∈ l.eraseDups then l.eraseDups else l.eraseDups ++ [x] := by
  have known : (x ∈ l.eraseDups) ↔ x ∈ l := List.mem_eraseDups
  rw [List.eraseDups_append]
  by_cases h : x ∈ l
  · rw [if_pos (known.mpr h)]
    simp [List.removeAll, h]
  · rw [if_neg fun hx => h (known.mp hx)]
    simp [List.removeAll, h, List.eraseDups_cons]

/-- The tokens of a list give the values they stand for, each at its first place. -/
theorem tokens_parsed {names : List String} (tokens : ∀ name ∈ names, Token name)
    (valid : ∀ name ∈ names, (parse name).isSome = true) :
    (names.map String.toList).foldlM (parseFilterList.token parse label) [] = .ok (names.filterMap parse).eraseDups := by
  induction names using List.reverseRecOn with
  | nil => rfl
  | append_singleton names name ih =>
    have hname : name ∈ names ++ [name] := List.mem_append_right _ List.mem_cons_self
    obtain ⟨x, hx⟩ := Option.isSome_iff_exists.mp (valid name hname)
    have before := ih (fun n hn => tokens n (List.mem_append_left _ hn)) fun n hn => valid n (List.mem_append_left _ hn)
    have last : (names ++ [name]).filterMap parse = names.filterMap parse ++ [x] := by simp [hx]
    rw [List.map_append, List.foldlM_append, before, last, eraseDups_snoc]
    change parseFilterList.token parse label _ name.toList >>= pure = _
    rw [token_parsed (tokens name hname) hx]
    rfl

theorem intercalate_nonempty {names : List String} (h : names ≠ []) (tokens : ∀ name ∈ names, Token name) :
    ",".intercalate names ≠ "" := by
  cases names with
  | nil => exact absurd rfl h
  | cons name names =>
    have first := (tokens name List.mem_cons_self).1
    intro he
    have empty := congrArg String.toList he
    cases names with
    | nil =>
      rw [String.intercalate_singleton] at he
      exact first he
    | cons next names =>
      rw [String.intercalate_cons_cons, String.toList_append, String.toList_append] at empty
      simp at empty

theorem list_parsed {names : List String} (key : String) (tokens : ∀ name ∈ names, Token name)
    (valid : ∀ name ∈ names, (parse name).isSome = true) {pairs : List (String × String)}
    (sent : pairs.filter (·.1 = key) = listParam key names) :
    parseFilterList pairs key parse label = .ok (names.filterMap parse).eraseDups := by
  unfold parseFilterList
  rw [sent, listParam]
  split
  next h =>
    have pieces : (",".intercalate names).toList.splitOn ',' = names.map String.toList := by
      have comma : ",".toList = [','] := by decide
      rw [String.toList_intercalate, comma]
      refine List.splitOn_intercalate ',' (fun l hl => ?_) fun he => h (List.map_eq_nil_iff.mp he)
      obtain ⟨name, hname, rfl⟩ := List.mem_map.mp hl
      exact (tokens name hname).2.1
    rw [param, if_neg (intercalate_nonempty h tokens), List.foldlM_cons, pieces, tokens_parsed tokens valid]
    rfl
  next h =>
    rw [not_not.mp h]
    rfl

theorem date_parsed {rfc : Rfc3339} {value : Option String} {label : String}
    (valid : ∀ s ∈ value, (rfc.parse s).isSome = true) :
    parseDatetime rfc (blankToNone value) label = .ok (value.bind rfc.parse) := by
  cases value with
  | none => rfl
  | some s =>
    obtain ⟨t, ht⟩ := Option.isSome_iff_exists.mp (valid s rfl)
    obtain ⟨nonempty, trimmed⟩ := rfc.trimmed s t ht
    have visible : trim s.toList ≠ [] := fun he => nonempty (String.toList_eq_nil_iff.mp (trimmed ▸ he))
    have kept : blankToNone (some s) = some s := by
      simp [blankToNone, trimmed ▸ visible, trimmed]
    rw [kept, parseDatetime, kept]
    simp [ht]

theorem jobStatus_token {name : String} (h : (JobStatus.fromStrVal name).isSome = true) : Token name := by
  unfold JobStatus.fromStrVal at h
  split at h
  next he => rw [he]; decide
  split at h
  next he => rw [he]; decide
  next => cases h

theorem triggerType_token {name : String} (h : (TriggerType.fromStrVal name).isSome = true) : Token name := by
  unfold TriggerType.fromStrVal at h
  split at h
  next he => rw [he]; decide
  split at h
  next he => rw [he]; decide
  split at h
  next he => rw [he]; decide
  next => cases h

theorem endpointType_token {name : String} (h : (EndpointType.fromStrVal name).isSome = true) : Token name := by
  unfold EndpointType.fromStrVal at h
  split at h
  next he => rw [he]; decide
  split at h
  next he => rw [he]; decide
  split at h
  next he => rw [he]; decide
  split at h
  next he => rw [he]; decide
  next => cases h

end reading

/-- The lists hold names of the enumerations, and the dates are such texts, in their order. -/
structure Sendable (rfc : Rfc3339) (params : JobListQueryParams) : Prop where
  status : ∀ name ∈ params.status, (JobStatus.fromStrVal name).isSome = true
  trigger : ∀ name ∈ params.trigger, (TriggerType.fromStrVal name).isSome = true
  endpointType : ∀ name ∈ params.endpointType, (EndpointType.fromStrVal name).isSome = true
  after : ∀ s ∈ params.createdAfter, (rfc.parse s).isSome = true
  before : ∀ s ∈ params.createdBefore, (rfc.parse s).isSome = true
  ordered : ∀ a ∈ params.createdAfter.bind rfc.parse, ∀ b ∈ params.createdBefore.bind rfc.parse, a ≤ b

/-- The filters that the dashboard means: names trimmed and dropped where blank, and no value of a list twice. -/
def meant (rfc : Rfc3339) (params : JobListQueryParams) : JobFilters where
  jobId := blankToNone params.jobId
  status := (params.status.filterMap JobStatus.fromStrVal).eraseDups
  trigger := (params.trigger.filterMap TriggerType.fromStrVal).eraseDups
  endpoint := blankToNone params.endpoint
  endpointType := (params.endpointType.filterMap EndpointType.fromStrVal).eraseDups
  createdAfter := params.createdAfter.bind rfc.parse
  createdBefore := params.createdBefore.bind rfc.parse

theorem dates_ordered {after before : Option Instant} (h : ∀ a ∈ after, ∀ b ∈ before, a ≤ b) :
    (after.any fun a => before.any fun b => a > b) = false := by
  cases after with
  | none => rfl
  | some a =>
    cases before with
    | none => rfl
    | some b => exact decide_eq_false (not_lt.mpr (h a rfl b rfl))

theorem sent_parsed {rfc : Rfc3339} {params : JobListQueryParams} (h : Sendable rfc params) :
    parseJobFilters rfc (sentParams params) = .ok (meant rfc params) := by
  obtain ⟨jobId, status, trigger, endpointType, endpoint, after, before⟩ := sentParams_key params
  have afterRead : parseDatetime rfc (blankToNone params.createdAfter) "created_after" = .ok _ := date_parsed h.after
  have beforeRead : parseDatetime rfc (blankToNone params.createdBefore) "created_before" = .ok _ := date_parsed h.before
  have ordered := dates_ordered h.ordered
  have statusRead : parseFilterList (sentParams params) "status" JobStatus.fromStrVal "status" = .ok _ :=
    list_parsed "status" (fun _ hn => jobStatus_token (h.status _ hn)) h.status status
  have triggerRead : parseFilterList (sentParams params) "trigger_type" TriggerType.fromStrVal "trigger" = .ok _ :=
    list_parsed "trigger_type" (fun _ hn => triggerType_token (h.trigger _ hn)) h.trigger trigger
  have typeRead : parseFilterList (sentParams params) "endpoint_type" EndpointType.fromStrVal "endpoint_type" = .ok _ :=
    list_parsed "endpoint_type" (fun _ hn => endpointType_token (h.endpointType _ hn)) h.endpointType endpointType
  simp only [parseJobFilters, lastScalar, jobId, endpoint, after, before, optional_last, afterRead, beforeRead, statusRead,
    triggerRead, typeRead, bind, Except.bind, ordered, meant, pure, Except.pure]
  rfl

theorem utf8Bytes_injective : Function.Injective utf8Bytes := by
  intro s s' h
  have decoded : ∀ s, decodeText (fun _ => "") (encodedText s) = s := decodeText_encodedText
  rw [← decoded s, encodedText, h, ← encodedText, decoded s']

theorem encodeQueryValue_injective : Function.Injective encodeQueryValue := by
  intro value value' h
  have chars : encodedText value = encodedText value' := String.ofList_injective h
  exact utf8Bytes_injective (percentEncode_injective chars)

/-- The server reads of the dashboard's query string exactly the parameters that were sent, and makes
of them the filters that were meant; no two values are encoded alike. -/
theorem dashboard_filters (rfc : Rfc3339) (lossy : List UInt8 → String) :
    (∀ params, pairsOf lossy (listJobsQuery params) = sentParams params) ∧
      (∀ params, Sendable rfc params → parseJobFilters rfc (pairsOf lossy (listJobsQuery params)) = .ok (meant rfc params)) ∧
      Function.Injective encodeQueryValue := by
  refine ⟨fun params => says_pairsOf (says_listJobsQuery params), fun params h => ?_, encodeQueryValue_injective⟩
  rw [says_pairsOf (says_listJobsQuery params)]
  exact sent_parsed h

section sample

/-- Two dates, the first with an offset. -/
def sampleDates : List (String × Instant) :=
  [("2026-06-18T05:30:00+05:30", 1781740800000000000), ("2026-06-24T23:59:59Z", 1782345599000000000)]

theorem sampleDates_trimmed : ∀ date ∈ sampleDates, date.1 ≠ "" ∧ trim date.1.toList = date.1.toList := by decide

def sampleRfc : Rfc3339 where
  parse s := (sampleDates.find? (·.1 = s)).map Prod.snd
  trimmed s t h := by
    obtain ⟨date, found, -⟩ := Option.map_eq_some_iff.mp h
    have name : date.1 = s := by simpa using List.find?_some found
    rw [← name]
    exact sampleDates_trimmed date (List.mem_of_find?_eq_some found)

/-- The job's name tries to add a parameter. -/
def sampleParams : JobListQueryParams where
  cursor := some "c+/="
  limit := 50
  jobId := some " 100% größer&status=RETIRED#"
  status := ["ACTIVE"]
  trigger := ["CRON", "DELAYED", "CRON"]
  endpoint := some "  "
  endpointType := []
  createdAfter := some "2026-06-18T05:30:00+05:30"
  createdBefore := some "2026-06-24T23:59:59Z"

theorem dashboard_filters_sample : parseJobFilters sampleRfc (pairsOf (fun _ => "") (listJobsQuery sampleParams)) =
    .ok ⟨some "100% größer&status=RETIRED#", [.active], [.cron, .delayed], none, [], some 1781740800000000000,
      some 1782345599000000000⟩ := by
  have sendable : Sendable sampleRfc sampleParams :=
    ⟨by decide, by decide, by decide, by decide, by decide, by decide⟩
  have means : meant sampleRfc sampleParams = ⟨some "100% größer&status=RETIRED#", [.active], [.cron, .delayed], none, [],
      some 1781740800000000000, some 1782345599000000000⟩ := by decide
  rw [← means]
  exact (dashboard_filters sampleRfc fun _ => "").2.1 sampleParams sendable

end sample

end Invokr
