import Invokr.Messages
import Invokr.TemplateResolution

namespace Invokr

open Dispatcher

variable {scope : Scope} {fields entries : List (String × Json)} {spec resolved v : Json} {name key : String}

/-- The text of a resolved value. -/
def rendering (v : Json) : String := String.ofList (replacement v)

/-- The field of an object that has the name once the names are resolved: of several the last. -/
def effective (scope : Scope) (fields : List (String × Json)) (name : String) : Option Json :=
  (fields.reverse.find? fun f => (resolveString scope f.1).map rendering = .ok name).map Prod.snd

def effectiveField (scope : Scope) (spec : Json) (name : String) : Option Json :=
  spec.asObject.bind fun fields => effective scope fields name

/-- The spec's headers are an object of strings. -/
def StringHeaders (scope : Scope) (spec : Json) : Prop :=
  ∀ h, effectiveField scope spec "headers" = some h → ∃ fields, h = .obj fields ∧ ∀ f ∈ fields, ∃ s, f.2 = .str s

/-- The spec's template for a header of this name resolves to the value. -/
def Header (scope : Scope) (spec : Json) (name : String) (v : Json) : Prop :=
  ∃ h s, effectiveField scope spec "headers" = some h ∧ effectiveField scope h name = some (.str s) ∧
    resolveString scope s = .ok v

def IsString (v : Json) : Prop := ∃ s, v = .str s

/-- Every header is sent, and one value under the name of the idempotency header. -/
def HttpDelivers (scope : Scope) (spec : Json) (key : String) (req : HttpRequest) : Prop :=
  (∀ name v, Header scope spec name v → (name, rendering v) ∈ req.headers) ∧
    ∃ value, (req.headers.filter fun h => eqIgnoreAsciiCase h.1 idempotencyHeader).map Prod.snd = [value] ∧
      (∀ name v, Header scope spec name v → eqIgnoreAsciiCase name idempotencyHeader = true → rendering v = value) ∧
        ((∀ name v, Header scope spec name v → eqIgnoreAsciiCase name idempotencyHeader = false) → value = key)

/-- The headers resolve to strings, or at least not to anything other than what is sent by default, and the spec sets
the idempotency header once at most. -/
def HttpReady (scope : Scope) (spec : Json) (key : String) : Prop :=
  (∀ name v, Header scope spec name v → IsString v ∨ (name = idempotencyHeader ∧ rendering v = key)) ∧
    ∀ name name' v v', Header scope spec name v → Header scope spec name' v' →
      eqIgnoreAsciiCase name idempotencyHeader = true → eqIgnoreAsciiCase name' idempotencyHeader = true → name = name'

def KafkaDelivers (scope : Scope) (spec : Json) (record : KafkaRecord) : Prop :=
  (∀ name v, Header scope spec name v → (name, rendering v) ∈ record.headers.getD []) ∧
    ∀ s v, effectiveField scope spec "key_template" = some (.str s) → resolveString scope s = .ok v →
      record.key = some (rendering v)

def KafkaReady (scope : Scope) (spec : Json) : Prop :=
  (∀ name v, Header scope spec name v → IsString v) ∧
    ∀ s v, effectiveField scope spec "key_template" = some (.str s) → resolveString scope s = .ok v → IsString v

theorem mem_iff_lookup (h : (entries.map Prod.fst).Pairwise (· < ·)) : (name, v) ∈ entries ↔ entries.lookup name = some v := by
  induction entries with
  | nil => simp
  | cons f rest ih =>
    obtain ⟨k, w⟩ := f
    obtain ⟨low, hrest⟩ := List.pairwise_cons.mp h
    rw [lookup_cons, List.mem_cons, ih hrest]
    by_cases hn : name = k
    · subst hn
      have absent : rest.lookup name ≠ some v := fun hl =>
        lt_irrefl name (low name (List.mem_map.mpr ⟨(name, v), (ih hrest).mpr hl, rfl⟩))
      simp [absent, eq_comm]
    · simp [hn]

theorem resolveKey_rendering (k : String) : Reference.resolveKey scope k = (resolveString scope k).map rendering := by
  rw [resolveString_eq]
  rfl

theorem lookup_resolved {fields pairs : List (String × Json)} (name : String)
    (h : List.Forall₂ (fun f p => Reference.resolveKey scope f.1 = .ok p.1 ∧ Reference.resolve scope f.2 = .ok p.2) fields pairs) :
    match (fields.find? fun f => (resolveString scope f.1).map rendering = .ok name).map Prod.snd with
    | none => pairs.lookup name = none
    | some v => ∃ r, resolve scope v = .ok r ∧ pairs.lookup name = some r := by
  induction h with
  | nil => rfl
  | @cons f p fields pairs hp _ ih =>
    obtain ⟨k, v⟩ := f
    obtain ⟨k', r⟩ := p
    obtain ⟨hk, hv⟩ := hp
    rw [resolveKey_rendering] at hk
    simp only at hk
    rw [lookup_cons]
    by_cases hn : name = k'
    · subst hn
      simp only [List.find?_cons, hk, decide_true, Option.map_some, ↓reduceIte]
      exact ⟨r, by rw [resolve_eq]; exact hv, rfl⟩
    · have hne : decide ((Except.ok k' : Except String String) = .ok name) = false := by
        simpa using fun h => hn h.symm
      simp only [List.find?_cons, hk, hne, if_neg hn]
      exact ih

/-- What the fields of a resolved object come from. -/
theorem resolve_obj (h : resolve scope (.obj fields) = .ok resolved) : ∃ entries, resolved = .obj entries ∧
    (entries.map Prod.fst).Pairwise (· < ·) ∧ ∀ x, match effective scope fields x with
      | none => entries.lookup x = none
      | some v => ∃ r, resolve scope v = .ok r ∧ entries.lookup x = some r := by
  rw [resolve_eq, Reference.resolve] at h
  cases hp : Reference.resolveFields scope fields with
  | error e =>
    rw [hp] at h
    cases h
  | ok pairs =>
    rw [hp] at h
    obtain ⟨entries, he, sorted, lookup⟩ := object_entries pairs
    refine ⟨entries, (Except.ok.inj h).symm.trans he, sorted, fun x => ?_⟩
    rw [lookup]
    exact lookup_resolved x (List.rel_reverse (resolveFields_forall hp))

theorem get_injectBody (input : Option Json) (h : name ≠ "body") : (Pipeline.injectBody resolved input).get name = resolved.get name := by
  unfold Pipeline.injectBody
  split
  next fields v =>
    split
    next =>
      change (insertField "body" v fields).lookup name = fields.lookup name
      rw [lookup_insertField, if_neg h]
    next => rfl
  next => rfl

theorem resolved_get (h : resolve scope (.obj fields) = .ok resolved) (name : String) :
    match effectiveField scope (.obj fields) name with
    | none => resolved.get name = none
    | some v => ∃ r, resolve scope v = .ok r ∧ resolved.get name = some r := by
  obtain ⟨entries, rfl, _, lookup⟩ := resolve_obj h
  exact lookup name

theorem Header.unique {v' : Json} (h : Header scope spec name v) (h' : Header scope spec name v') : v = v' := by
  obtain ⟨hs, s, he, hn, hv⟩ := h
  obtain ⟨hs', s', he', hn', hv'⟩ := h'
  rw [he] at he'
  cases he'
  rw [hn] at hn'
  cases hn'
  rw [hv] at hv'
  exact Except.ok.inj hv'

theorem mem_strings {t : String} :
    (name, t) ∈ entries.filterMap (fun f => f.2.asStr.map (Prod.mk f.1)) ↔ (name, Json.str t) ∈ entries := by
  rw [List.mem_filterMap]
  constructor
  · rintro ⟨⟨k, w⟩, hf, hs⟩
    cases w with
    | str s =>
      cases hs
      exact hf
    | _ => cases hs
  · exact fun hf => ⟨_, hf, rfl⟩

theorem sorted_strings (h : (entries.map Prod.fst).Pairwise (· < ·)) :
    ((entries.filterMap fun f => f.2.asStr.map (Prod.mk f.1)).map Prod.fst).Pairwise (· < ·) := by
  rw [List.pairwise_map] at h ⊢
  refine List.Pairwise.filterMap _ (fun f f' hlt b hb b' hb' => ?_) h
  obtain ⟨_, _, rfl⟩ := Option.map_eq_some_iff.mp hb
  obtain ⟨_, _, rfl⟩ := Option.map_eq_some_iff.mp hb'
  exact hlt

theorem effective_string (texts : ∀ f ∈ fields, ∃ s, f.2 = .str s) (h : effective scope fields name = some v) :
    ∃ s, v = .str s := by
  obtain ⟨f, hf, rfl⟩ := Option.map_eq_some_iff.mp h
  exact texts f (List.mem_reverse.mp (List.mem_of_find?_eq_some hf))

/-- The headers that a dispatcher finds in the resolved spec are those that resolve to strings. -/
theorem mem_stringHeaders (input : Option Json) (strings : StringHeaders scope (.obj fields))
    (h : resolve scope (.obj fields) = .ok resolved) :
    (((stringHeaders (Pipeline.injectBody resolved input)).getD []).map Prod.fst).Pairwise (· < ·) ∧
      ∀ name t, (name, t) ∈ (stringHeaders (Pipeline.injectBody resolved input)).getD [] ↔
        Header scope (.obj fields) name (.str t) := by
  have get := resolved_get h "headers"
  unfold stringHeaders
  rw [get_injectBody input (by decide)]
  cases he : effectiveField scope (.obj fields) "headers" with
  | none =>
    rw [he] at get
    simp only [get, Option.bind_none, Option.map_none, Option.getD_none]
    refine ⟨List.Pairwise.nil, fun name t => iff_of_false List.not_mem_nil ?_⟩
    rintro ⟨hs, s, he', -⟩
    rw [he] at he'
    cases he'
  | some hv =>
    obtain ⟨hs, rfl, texts⟩ := strings hv he
    rw [he] at get
    obtain ⟨r, hr, hget⟩ := get
    obtain ⟨entries, rfl, sorted, lookup⟩ := resolve_obj hr
    simp only [hget, Option.bind_some, Json.asObject, Option.map_some, Option.getD_some]
    constructor
    · exact sorted_strings sorted
    · intro name t
      rw [mem_strings, mem_iff_lookup sorted]
      have found := lookup name
      constructor
      · intro hl
        cases hn : effective scope hs name with
        | none =>
          rw [hn, hl] at found
          cases found
        | some w =>
          rw [hn, hl] at found
          obtain ⟨r, hw, hr'⟩ := found
          cases hr'
          obtain ⟨s, rfl⟩ := effective_string texts hn
          exact ⟨_, s, he, hn, by rw [← resolve]; exact hw⟩
      · rintro ⟨h', s, he', hn, hv⟩
        rw [he] at he'
        cases he'
        have hn' : effective scope hs name = some (.str s) := hn
        rw [hn'] at found
        obtain ⟨r, hw, hr'⟩ := found
        rw [resolve, hv] at hw
        cases hw
        exact hr'

section sent

variable {l : List (String × String)} {x : String × String} {p : String × String → Bool}

theorem filter_only (sorted : (l.map Prod.fst).Pairwise (· < ·)) (hx : x ∈ l) (px : p x = true)
    (only : ∀ y ∈ l, p y = true → y.1 = x.1) : l.filter p = [x] := by
  induction l with
  | nil => cases hx
  | cons y l ih =>
    obtain ⟨low, hrest⟩ := List.pairwise_cons.mp sorted
    have apart : ∀ z ∈ l, z.1 ≠ y.1 := fun z hz he => lt_irrefl y.1 (he ▸ low z.1 (List.mem_map_of_mem hz))
    rcases List.mem_cons.mp hx with rfl | hx'
    · have rest : l.filter p = [] := List.filter_eq_nil_iff.mpr fun z hz pz =>
        apart z hz (only z (List.mem_cons_of_mem _ hz) pz)
      rw [List.filter_cons_of_pos px, rest]
    · have hy : ¬p y = true := fun py => apart x hx' (only y List.mem_cons_self py).symm
      rw [List.filter_cons_of_neg hy]
      exact ih hrest hx' fun z hz => only z (List.mem_cons_of_mem _ hz)

/-- Among the headers sent are all that the spec has, if they are strings, and the default for the idempotency header. -/
theorem http_iff {sent : List (String × String)} (sorted : (sent.map Prod.fst).Pairwise (· < ·))
    (mem : ∀ name t, (name, t) ∈ sent ↔ Header scope spec name (.str t)) {req : HttpRequest}
    (hreq : req.headers = if sent.any fun h => eqIgnoreAsciiCase h.1 idempotencyHeader then sent
      else sent ++ [(idempotencyHeader, key)]) : HttpDelivers scope spec key req ↔ HttpReady scope spec key := by
  constructor
  · rintro ⟨all, value, one, _, _⟩
    have found : ∀ name v, Header scope spec name v → (name, rendering v) ∈ sent ∨ (name = idempotencyHeader ∧ rendering v = key) := by
      intro name v hv
      have hm := all name v hv
      rw [hreq] at hm
      split at hm
      next => exact Or.inl hm
      next =>
        rcases List.mem_append.mp hm with hm | hm
        · exact Or.inl hm
        · exact Or.inr (Prod.mk.inj (List.mem_singleton.mp hm))
    refine ⟨fun name v hv => (found name v hv).imp_left fun hm => ⟨_, hv.unique ((mem _ _).mp hm)⟩, ?_⟩
    intro name name' v v' hv hv' hn hn'
    obtain ⟨x, hx⟩ := List.length_eq_one_iff.mp ((List.length_map _).symm.trans (congrArg List.length one))
    have same : ∀ name v, Header scope spec name v → eqIgnoreAsciiCase name idempotencyHeader = true →
        (name, rendering v) = x := by
      intro name v hv hn
      have hm : (name, rendering v) ∈ req.headers.filter fun h => eqIgnoreAsciiCase h.1 idempotencyHeader :=
        List.mem_filter.mpr ⟨all name v hv, hn⟩
      rw [hx] at hm
      exact List.mem_singleton.mp hm
    exact congrArg Prod.fst ((same name v hv hn).trans (same name' v' hv' hn').symm)
  · rintro ⟨texts, once⟩
    rw [HttpDelivers, hreq]
    split
    next own =>
      obtain ⟨⟨n₀, t₀⟩, h₀, p₀⟩ := List.any_eq_true.mp own
      have header₀ := (mem n₀ t₀).mp h₀
      have only : ∀ name v, Header scope spec name v → eqIgnoreAsciiCase name idempotencyHeader = true →
          name = n₀ ∧ v = .str t₀ := by
        intro name v hv hn
        obtain rfl := once name n₀ v _ hv header₀ hn p₀
        exact ⟨rfl, hv.unique header₀⟩
      refine ⟨fun name v hv => ?_, t₀, ?_, fun name v hv hn => ?_, fun none => ?_⟩
      · rcases texts name v hv with ⟨t, rfl⟩ | ⟨rfl, _⟩
        · rw [rendering, replacement, String.ofList_toList]
          exact (mem name t).mpr hv
        · obtain ⟨rfl, rfl⟩ := only _ v hv (by decide)
          rw [rendering, replacement, String.ofList_toList]
          exact h₀
      · rw [filter_only sorted h₀ p₀ fun y hy py => (only y.1 (.str y.2) ((mem _ _).mp hy) py).1]
        rfl
      · obtain ⟨_, rfl⟩ := only name v hv hn
        rw [rendering, replacement, String.ofList_toList]
      · have := none n₀ _ header₀
        rw [p₀] at this
        cases this
    next own =>
      have apart : ∀ name t, Header scope spec name (.str t) → eqIgnoreAsciiCase name idempotencyHeader = false := by
        intro name t ht
        by_contra hn
        exact own (List.any_eq_true.mpr ⟨_, (mem name t).mpr ht, by simpa using hn⟩)
      refine ⟨fun name v hv => ?_, key, ?_, fun name v hv hn => ?_, fun _ => rfl⟩
      · rcases texts name v hv with ⟨t, rfl⟩ | ⟨rfl, hk⟩
        · rw [rendering, replacement, String.ofList_toList]
          exact List.mem_append_left _ ((mem name t).mpr hv)
        · rw [hk]
          exact List.mem_append_right _ (List.mem_singleton.mpr rfl)
      · have rest : sent.filter (fun h => eqIgnoreAsciiCase h.1 idempotencyHeader) = [] :=
          List.filter_eq_nil_iff.mpr fun h hh => by rw [apart h.1 h.2 ((mem _ _).mp hh)]; exact Bool.false_ne_true
        have default : eqIgnoreAsciiCase idempotencyHeader idempotencyHeader = true := by decide
        simp [List.filter_append, rest, default]
      · rcases texts name v hv with ⟨t, rfl⟩ | ⟨rfl, hk⟩
        · rw [apart name t hv] at hn
          cases hn
        · exact hk

end sent

theorem kafka_iff {record : KafkaRecord} (mem : ∀ name t, (name, t) ∈ record.headers.getD [] ↔ Header scope spec name (.str t))
    (hkey : ∀ s v, effectiveField scope spec "key_template" = some (.str s) → resolveString scope s = .ok v →
      record.key = v.asStr) : KafkaDelivers scope spec record ↔ KafkaReady scope spec := by
  constructor
  · rintro ⟨all, sent⟩
    refine ⟨fun name v hv => ⟨_, hv.unique ((mem _ _).mp (all name v hv))⟩, fun s v hs hv => ?_⟩
    have given := (hkey s v hs hv).symm.trans (sent s v hs hv)
    cases v with
    | str t => exact ⟨t, rfl⟩
    | _ => cases given
  · rintro ⟨texts, text⟩
    constructor
    · intro name v hv
      obtain ⟨t, rfl⟩ := texts name v hv
      rw [rendering, replacement, String.ofList_toList]
      exact (mem name t).mpr hv
    · intro s v hs hv
      obtain ⟨t, rfl⟩ := text s v hs hv
      rw [hkey s _ hs hv, rendering, replacement, String.ofList_toList]
      rfl

/-- A dispatcher sends the templated headers, the key and one idempotency header if and only if the templates resolve
to strings and the spec sets that header once at most. -/
theorem templated_sent {scope : Scope} {fields : List (String × Json)} {resolved : Json} (input : Option Json) (key : String)
    (strings : StringHeaders scope (.obj fields)) (h : resolve scope (.obj fields) = .ok resolved) :
    (HttpDelivers scope (.obj fields) key (httpRequest (Pipeline.injectBody resolved input) key) ↔
      HttpReady scope (.obj fields) key) ∧
    (KafkaDelivers scope (.obj fields) (kafkaRecord (Pipeline.injectBody resolved input)) ↔ KafkaReady scope (.obj fields)) := by
  obtain ⟨sorted, mem⟩ := mem_stringHeaders input strings h
  refine ⟨http_iff sorted mem rfl, kafka_iff mem fun s v hs hv => ?_⟩
  have get := resolved_get h "key_template"
  rw [hs] at get
  obtain ⟨r, hr, hget⟩ := get
  rw [resolve, hv] at hr
  cases hr
  simp only [kafkaRecord, stringField, get_injectBody input (show "key_template" ≠ "body" by decide), hget, Option.bind_some]

def orderScope : Scope := ⟨[("order_id", .int 7)], [], [], []⟩

/-- The template of the guides, with a number for the order. -/
def orderSpec : List (String × Json) :=
  [("headers", .obj [("x-order", .str "\x7b\x7binput.order_id\x7d\x7d")]), ("key_template", .str "\x7b\x7binput.order_id\x7d\x7d")]

theorem orderSpec_resolved : resolve orderScope (.obj orderSpec) =
    .ok (.obj [("headers", .obj [("x-order", .int 7)]), ("key_template", .int 7)]) := rfl

theorem orderSpec_strings : StringHeaders orderScope (.obj orderSpec) := by
  intro h he
  have found : effectiveField orderScope (.obj orderSpec) "headers" =
      some (.obj [("x-order", .str "\x7b\x7binput.order_id\x7d\x7d")]) := rfl
  rw [found] at he
  cases he
  exact ⟨_, rfl, fun f hf => ⟨_, congrArg Prod.snd (List.mem_singleton.mp hf)⟩⟩

/-- The header is not sent. -/
theorem templated_dropped : ¬∀ (scope : Scope) (fields : List (String × Json)) (resolved : Json) (input : Option Json) (key : String),
    StringHeaders scope (.obj fields) → resolve scope (.obj fields) = .ok resolved →
      HttpDelivers scope (.obj fields) key (httpRequest (Pipeline.injectBody resolved input) key) ∧
        KafkaDelivers scope (.obj fields) (kafkaRecord (Pipeline.injectBody resolved input)) := by
  intro all
  obtain ⟨⟨sent, _⟩, _⟩ := all orderScope orderSpec _ none "order-7" orderSpec_strings orderSpec_resolved
  have header : Header orderScope (.obj orderSpec) "x-order" (.int 7) := ⟨_, _, rfl, rfl, rfl⟩
  have mem := sent "x-order" (.int 7) header
  revert mem
  decide +kernel

theorem templated_sent_order :
    (HttpDelivers orderScope (.obj orderSpec) "order-7" (httpRequest
        (Pipeline.injectBody (.obj [("headers", .obj [("x-order", .int 7)]), ("key_template", .int 7)]) none) "order-7") ↔
      HttpReady orderScope (.obj orderSpec) "order-7") ∧
    (KafkaDelivers orderScope (.obj orderSpec) (kafkaRecord
        (Pipeline.injectBody (.obj [("headers", .obj [("x-order", .int 7)]), ("key_template", .int 7)]) none)) ↔
      KafkaReady orderScope (.obj orderSpec)) :=
  templated_sent none "order-7" orderSpec_strings orderSpec_resolved

end Invokr
