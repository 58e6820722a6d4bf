import Invokr.Reading
import Invokr.JobPages

namespace Invokr

open TxLib TextLib

namespace Jobs

/-- One positional bind: a text value, or a `text[]` for `= ANY($n)`. -/
inductive BindValue where
  | scalar (s : String)
  | array (values : List String)
  deriving DecidableEq

/-- The conditions that `build_list_query` writes. -/
inductive Condition where
  | cursor (t : String)
  | status
  | triggerType
  | endpointType
  | endpoint
  | createdAfter
  | createdBefore
  | jobId
  deriving DecidableEq

/-- The condition's text up to its first placeholder. -/
def Condition.opening : Condition → String
  | cursor t => "(created_at, job_id) < ((SELECT created_at FROM " ++ (t ++ " WHERE job_id = $")
  | status => "status = ANY($"
  | triggerType => "trigger_type = ANY($"
  | endpointType => "endpoint_type = ANY($"
  | endpoint => "endpoint ILIKE '%' || $"
  | createdAfter => "created_at >= $"
  | createdBefore => "created_at <= $"
  | jobId => "job_id = $"

/-- What follows it; the cursor's condition has its placeholder twice. -/
def Condition.closing (n : Nat) : Condition → String
  | cursor _ => "), $" ++ (toString n ++ ")")
  | status | triggerType | endpointType => ")"
  | endpoint => " || '%' ESCAPE '\\'"
  | createdAfter | createdBefore => "::timestamptz"
  | jobId => ""

def Condition.text (c : Condition) (n : Nat) : String := c.opening ++ (toString n ++ c.closing n)

/-- `conditions`, `binds` and `n` of `build_list_query`. -/
structure ListQuery where
  conditions : List String
  binds : List BindValue
  n : Nat

namespace ListQuery

def push (q : ListQuery) (c : Condition) (bind : BindValue) : ListQuery :=
  ⟨q.conditions ++ [c.text q.n], q.binds ++ [bind], q.n + 1⟩

def whenSome (q : ListQuery) (c : Condition) (value : Option String) : ListQuery :=
  match value with
  | some s => q.push c (.scalar s)
  | none => q

def whenAny (q : ListQuery) (c : Condition) (values : List String) : ListQuery :=
  if values.isEmpty then q else q.push c (.array values)

end ListQuery

/-- The text of the listing's statement and its binds but for the last one, the limit; `toRfc3339` prints an instant. -/
def buildListQuery (toRfc3339 : Instant → String) (t : String) (cursor : Option String) (filters : JobFilters) :
    String × List BindValue :=
  let q : ListQuery := ⟨[], [], 1⟩
  let q := q.whenSome (.cursor t) cursor
  let q := q.whenAny .status (filters.status.map JobStatus.asStr)
  let q := q.whenAny .triggerType (filters.trigger.map TriggerType.asStr)
  let q := q.whenAny .endpointType (filters.endpointType.map EndpointType.asStr)
  let q := q.whenSome .endpoint (filters.endpoint.map fun e => String.ofList (escapeLike e.toList))
  let q := q.whenSome .createdAfter (filters.createdAfter.map toRfc3339)
  let q := q.whenSome .createdBefore (filters.createdBefore.map toRfc3339)
  let q := q.whenSome .jobId filters.jobId
  let whereClause := if q.conditions.isEmpty then "" else " WHERE " ++ " AND ".intercalate q.conditions
  ("SELECT * FROM " ++ (t ++ (whereClause ++ (" ORDER BY created_at DESC, job_id DESC LIMIT $" ++ toString q.n))), q.binds)

/-- A statement as the database reads it: the table, the conditions with their placeholders, and the limit's. -/
structure Query where
  table : String
  conditions : List (Condition × Nat)
  limit : Nat
  deriving DecidableEq

section reading

/-- The condition at the front, with its placeholder. -/
def readAs (cs : List Char) (c : Condition) : Option ((Condition × Nat) × List Char) := do
  let cs ← lit c.opening cs
  let (n, cs) ← number cs
  let cs ← lit (c.closing n) cs
  return ((c, n), cs)

def readCondition (t : String) (cs : List Char) : Option ((Condition × Nat) × List Char) :=
  [.cursor t, .status, .triggerType, .endpointType, .endpoint, .createdAfter, .createdBefore, .jobId].findSome? (readAs cs)

/-- Conditions joined by `AND`, at most as many as the fuel. -/
def readConditions (t : String) : Nat → List Char → Option (List (Condition × Nat) × List Char)
  | 0, _ => none
  | fuel + 1, cs => do
    let (c, cs) ← readCondition t cs
    match lit " AND " cs with
    | none => return ([c], cs)
    | some cs =>
      let (rest, cs) ← readConditions t fuel cs
      return (c :: rest, cs)

def readWhere (t : String) (cs : List Char) : Option (List (Condition × Nat) × List Char) :=
  match lit " WHERE " cs with
  | none => some ([], cs)
  | some cs => readConditions t cs.length cs

/-- A statement of this form, read from its text. -/
def readQuery (sql : String) : Option Query := do
  let cs ← lit "SELECT * FROM " sql.toList
  let table := String.ofList (cs.takeWhile (· ≠ ' '))
  let (conditions, cs) ← readWhere table (cs.dropWhile (· ≠ ' '))
  let cs ← lit " ORDER BY created_at DESC, job_id DESC LIMIT $" cs
  let (limit, cs) ← number cs
  if cs = [] then return ⟨table, conditions, limit⟩ else none

end reading

section meaning

/-- A value bound to a placeholder. -/
inductive Parameter where
  | text (s : String)
  | texts (values : List String)
  | bigint (n : Int)

def BindValue.parameter : BindValue → Parameter
  | scalar s => .text s
  | array values => .texts values

/-- The values that `list` binds, in their order. -/
def parameters (binds : List BindValue) (limit : Int) : List Parameter := binds.map BindValue.parameter ++ [.bigint limit]

/-- The value of `$n`. -/
def valueOf (params : List Parameter) : Nat → Option Parameter
  | 0 => none
  | n + 1 => params[n]?

variable (pg : PgRules) (cast : String → Option Time) (snap : Snapshot Pg) (schema : String)

/-- The value can be bound to the condition's placeholder; `cast` is `::timestamptz`. -/
def Condition.takes : Condition → Parameter → Bool
  | cursor _, .text _ | endpoint, .text _ | jobId, .text _ => true
  | status, .texts _ | triggerType, .texts _ | endpointType, .texts _ => true
  | createdAfter, .text s | createdBefore, .text s => (cast s).isSome
  | _, _ => false

/-- The job meets the condition. -/
def Condition.holds (j : Job) : Condition → Parameter → Bool
  | cursor _, .text s => beforeCursor snap schema s j
  | status, .texts values => j.status.asStr ∈ values
  | triggerType, .texts values => j.triggerType.asStr ∈ values
  | endpointType, .texts values => j.endpointType.asStr ∈ values
  | endpoint, .text s => ilike pg j.endpoint ('%' :: s.toList ++ ['%'])
  | createdAfter, .text s => (cast s).any fun t => j.createdAt ≥ t
  | createdBefore, .text s => (cast s).any fun t => j.createdAt ≤ t
  | jobId, .text s => j.jobId = s
  | _, _ => false

/-- The rows the statement gives of the table of the jobs, or that it is refused. -/
def Query.result (t : String) (q : Query) (params : List Parameter) : Option (List Job) :=
  match valueOf params q.limit with
  | some (.bigint limit) =>
    let bound := q.conditions.all fun c => (valueOf params c.2).any (c.1.takes cast)
    let rows : List Job := (matching snap schema .jobs fun _ (j : Job) =>
      q.conditions.all fun c => (valueOf params c.2).any (c.1.holds pg cast snap schema j)).filterMap (snap.row .jobs)
    if q.table = t ∧ bound = true ∧ 0 ≤ limit then
      some ((rows.insertionSort fun a b => newestFirst a b = true).take limit.toNat)
    else none
  | _ => none

end meaning

section texts

variable {t : String} {rest : List Char} {n : Nat}

/-- The texts that tell the conditions apart. -/
def heads : List String :=
  ["(created_at, job_id) < ((SELECT created_at FROM ", "status = ANY($", "trigger_type = ANY($", "endpoint_type = ANY($",
    "endpoint ILIKE '%' || $", "created_at >= $", "created_at <= $", "job_id = $"]

def Condition.place : Condition → Nat
  | cursor _ => 0
  | status => 1
  | triggerType => 2
  | endpointType => 3
  | endpoint => 4
  | createdAfter => 5
  | createdBefore => 6
  | jobId => 7

def Condition.head (c : Condition) : String := heads.getD c.place ""

theorem place_lt (c : Condition) : c.place < 8 := by
  cases c <;> simp [Condition.place]

theorem heads_differ : ∀ i < 8, ∀ j < 8, i ≠ j → apart (heads.getD i "") (heads.getD j "") = true := by
  decide +kernel

theorem opening_head (c : Condition) : ∃ more, c.opening = c.head ++ more := by
  cases c with
  | cursor t => exact ⟨_, rfl⟩
  | _ => exact ⟨"", String.append_empty.symm⟩

theorem heads_apart {c c' : Condition} (h : ∀ t t', c = .cursor t → c' = .cursor t' → t = t') (hne : c ≠ c') :
    apart c.head c'.head = true := by
  refine heads_differ c.place (place_lt c) c'.place (place_lt c') fun same => hne ?_
  cases c <;> cases c' <;> first
    | rfl
    | exact congrArg Condition.cursor (h _ _ rfl rfl)
    | cases same

theorem undigited_closing (c : Condition) (n : Nat) (h : Undigited rest) : Undigited ((c.closing n).toList ++ rest) := by
  cases c with
  | jobId => simpa [Condition.closing] using h
  | cursor t =>
    rw [Condition.closing, String.toList_append, List.append_assoc]
    exact undigited_append (by decide +kernel)
  | _ =>
    simp only [Condition.closing]
    exact undigited_append (by decide +kernel)

theorem readAs_text (c : Condition) (n : Nat) (h : Undigited rest) :
    readAs ((c.text n).toList ++ rest) c = some ((c, n), rest) := by
  simp only [readAs, Condition.text, String.toList_append, List.append_assoc, lit_append, Option.bind_eq_bind,
    Option.bind_some, number_append n (undigited_closing c n h)]
  rfl

theorem readAs_other {c c' : Condition} (h : ∀ t t', c = .cursor t → c' = .cursor t' → t = t') (hne : c ≠ c') :
    readAs ((c'.text n).toList ++ rest) c = none := by
  obtain ⟨more, hc⟩ := opening_head c
  obtain ⟨more', hc'⟩ := opening_head c'
  have stuck : lit c.opening ((c'.text n).toList ++ rest) = none := by
    rw [hc, lit_concat, Condition.text, hc', String.append_assoc, String.toList_append, List.append_assoc,
      lit_apart (heads_apart h hne)]
    rfl
  rw [readAs, stuck]
  rfl

theorem readCondition_text {c : Condition} (hc : ∀ t', c = .cursor t' → t' = t) (n : Nat) (h : Undigited rest) :
    readCondition t ((c.text n).toList ++ rest) = some ((c, n), rest) := by
  have own := readAs_text c n h
  have other : ∀ c', (∀ t', c' = .cursor t' → t' = t) → c' ≠ c → readAs ((c.text n).toList ++ rest) c' = none :=
    fun c' hc' hne => readAs_other (fun t₁ t₂ h₁ h₂ => (hc' t₁ h₁).trans (hc t₂ h₂).symm) hne
  have among : c ∈ [Condition.cursor t, .status, .triggerType, .endpointType, .endpoint, .createdAfter, .createdBefore,
      .jobId] := by
    cases c with
    | cursor t' => simp [hc t' rfl]
    | _ => simp
  have each : ∀ c' ∈ [Condition.cursor t, .status, .triggerType, .endpointType, .endpoint, .createdAfter, .createdBefore,
      .jobId], ∀ t', c' = .cursor t' → t' = t := by
    rintro c' hmem t' rfl
    simpa using hmem
  unfold readCondition
  generalize [Condition.cursor t, .status, .triggerType, .endpointType, .endpoint, .createdAfter, .createdBefore,
    .jobId] = cs at among each
  induction cs with
  | nil => cases among
  | cons c' cs ih =>
    by_cases hne : c' = c
    · rw [hne, List.findSome?_cons, own]
    · rw [List.findSome?_cons, other c' (each c' (List.mem_cons_self ..)) hne]
      exact ih ((List.mem_cons.mp among).resolve_left fun h => hne h.symm) fun c₁ h₁ => each c₁ (List.mem_cons_of_mem _ h₁)

/-- The conditions belong to a listing of the table. -/
def Of (t : String) (cs : List (Condition × Nat)) : Prop := ∀ c ∈ cs, ∀ t', c.1 = .cursor t' → t' = t

theorem readConditions_text {fuel : Nat} {c : Condition × Nat} {cs : List (Condition × Nat)} (hc : Of t (c :: cs))
    (enough : cs.length < fuel) (h : Undigited rest) (last : lit " AND " rest = none) :
    readConditions t fuel ((" AND ".intercalate ((c :: cs).map fun c => c.1.text c.2)).toList ++ rest) =
      some (c :: cs, rest) := by
  have own : ∀ {rest}, Undigited rest → readCondition t ((c.1.text c.2).toList ++ rest) = some (c, rest) :=
    fun hr => readCondition_text (hc c (List.mem_cons_self ..)) c.2 hr
  induction cs generalizing c fuel with
  | nil =>
    obtain ⟨fuel, rfl⟩ := Nat.exists_eq_add_one_of_ne_zero (Nat.ne_of_gt enough)
    rw [List.map_singleton, String.intercalate_singleton, readConditions.eq_def]
    simp only [own h, Option.bind_eq_bind, Option.bind_some, last]
    rfl
  | cons c' cs ih =>
    obtain ⟨fuel, rfl⟩ := Nat.exists_eq_add_one_of_ne_zero (Nat.ne_of_gt (Nat.zero_lt_of_lt enough))
    have next : readConditions t fuel ((" AND ".intercalate ((c' :: cs).map fun c => c.1.text c.2)).toList ++ rest) =
        some (c' :: cs, rest) := ih (fun x hx => hc x (List.mem_cons_of_mem _ hx))
      (by simp only [List.length_cons] at enough; omega)
      fun hr => readCondition_text (hc c' (List.mem_cons_of_mem _ (List.mem_cons_self ..))) c'.2 hr
    have sep : ∀ rest, Undigited (" AND ".toList ++ rest) := fun rest => undigited_append (by decide +kernel)
    rw [List.map_cons, List.map_cons, String.intercalate_cons_cons, readConditions.eq_def]
    simp only [String.toList_append, List.append_assoc, own (sep _), Option.bind_eq_bind, Option.bind_some, lit_append]
    rw [List.map_cons] at next
    rw [next]
    rfl

end texts

section spelling

variable {t : String} {q : ListQuery} {parts : List (Condition × BindValue)}

/-- The conditions with their placeholders, the first of which is `$1`. -/
def numbered (parts : List (Condition × BindValue)) : List (Condition × Nat) :=
  (parts.zipIdx 1).map fun p => (p.1.1, p.2)

/-- The builder has written the conditions and bound their values. -/
structure Spells (q : ListQuery) (parts : List (Condition × BindValue)) : Prop where
  conditions : q.conditions = (numbered parts).map fun c => c.1.text c.2
  binds : q.binds = parts.map Prod.snd
  n : q.n = parts.length + 1

theorem spells_nil : Spells ⟨[], [], 1⟩ [] := ⟨rfl, rfl, rfl⟩

theorem numbered_snoc (parts : List (Condition × BindValue)) (c : Condition) (b : BindValue) :
    numbered (parts ++ [(c, b)]) = numbered parts ++ [(c, parts.length + 1)] := by
  simp [numbered, List.zipIdx_append, Nat.add_comm]

theorem Spells.push (h : Spells q parts) (c : Condition) (b : BindValue) : Spells (q.push c b) (parts ++ [(c, b)]) where
  conditions := by
    rw [ListQuery.push, h.conditions, h.n, numbered_snoc, List.map_append]
    rfl
  binds := by
    rw [ListQuery.push, h.binds, List.map_append]
    rfl
  n := by
    rw [ListQuery.push, h.n, List.length_append]
    rfl

/-- The condition a value is written for, where there is one. -/
def partSome (c : Condition) (value : Option String) : List (Condition × BindValue) :=
  (value.map fun s => (c, .scalar s)).toList

def partAny (c : Condition) (values : List String) : List (Condition × BindValue) :=
  if values.isEmpty then [] else [(c, .array values)]

theorem Spells.whenSome (h : Spells q parts) (c : Condition) (value : Option String) :
    Spells (q.whenSome c value) (parts ++ partSome c value) := by
  cases value with
  | none => simpa [ListQuery.whenSome, partSome] using h
  | some s => exact h.push c _

theorem Spells.whenAny (h : Spells q parts) (c : Condition) (values : List String) :
    Spells (q.whenAny c values) (parts ++ partAny c values) := by
  unfold ListQuery.whenAny partAny
  split
  next => simpa using h
  next => exact h.push c _

/-- All that a listing asks for. -/
def partsOf (toRfc3339 : Instant → String) (t : String) (cursor : Option String) (filters : JobFilters) :
    List (Condition × BindValue) :=
  [] ++ partSome (.cursor t) cursor ++ partAny .status (filters.status.map JobStatus.asStr) ++
    partAny .triggerType (filters.trigger.map TriggerType.asStr) ++
    partAny .endpointType (filters.endpointType.map EndpointType.asStr) ++
    partSome .endpoint (filters.endpoint.map fun e => String.ofList (escapeLike e.toList)) ++
    partSome .createdAfter (filters.createdAfter.map toRfc3339) ++
    partSome .createdBefore (filters.createdBefore.map toRfc3339) ++ partSome .jobId filters.jobId

variable {toRfc3339 : Instant → String} {cursor : Option String} {filters : JobFilters}

theorem buildListQuery_spells : ∃ q, Spells q (partsOf toRfc3339 t cursor filters) ∧
    buildListQuery toRfc3339 t cursor filters = ("SELECT * FROM " ++ (t ++
      ((if q.conditions.isEmpty then "" else " WHERE " ++ " AND ".intercalate q.conditions) ++
        (" ORDER BY created_at DESC, job_id DESC LIMIT $" ++ toString q.n))), q.binds) :=
  ⟨_, (((((((spells_nil.whenSome _ _).whenAny _ _).whenAny _ _).whenAny _ _).whenSome _ _).whenSome _ _).whenSome _ _).whenSome
    _ _, rfl⟩

theorem partsOf_cursor : ∀ p ∈ partsOf toRfc3339 t cursor filters, ∀ t', p.1 = .cursor t' → t' = t := by
  have some_ : ∀ {c : Condition} {value : Option String} {p : Condition × BindValue}, p ∈ partSome c value → p.1 = c := by
    intro c value p hp
    cases value with
    | none => cases hp
    | some s => exact congrArg Prod.fst (List.mem_singleton.mp hp)
  have any : ∀ {c : Condition} {values : List String} {p : Condition × BindValue}, p ∈ partAny c values → p.1 = c := by
    intro c values p hp
    unfold partAny at hp
    split at hp
    next => cases hp
    next => exact congrArg Prod.fst (List.mem_singleton.mp hp)
  intro p hp t' ht
  simp only [partsOf, List.nil_append, List.mem_append, or_assoc] at hp
  rcases hp with h | h | h | h | h | h | h | h
  · cases (some_ h).symm.trans ht
    rfl
  all_goals first | cases (some_ h).symm.trans ht | cases (any h).symm.trans ht

theorem numbered_of {parts : List (Condition × BindValue)} (h : ∀ p ∈ parts, ∀ t', p.1 = .cursor t' → t' = t) :
    Of t (numbered parts) := by
  intro c hc t' ht
  obtain ⟨p, hp, rfl⟩ := List.mem_map.mp hc
  exact h p.1 (List.fst_mem_of_mem_zipIdx hp) t' ht

theorem length_intercalate (c : Condition × Nat) (cs : List (Condition × Nat)) :
    cs.length ≤ (" AND ".intercalate ((c :: cs).map fun c => c.1.text c.2)).toList.length := by
  induction cs generalizing c with
  | nil => exact Nat.zero_le _
  | cons c' cs ih =>
    have later := ih c'
    have sep : " AND ".toList.length = 5 := by decide +kernel
    rw [List.map_cons] at later
    rw [List.map_cons, List.map_cons, String.intercalate_cons_cons, String.toList_append, String.toList_append,
      List.length_append, List.length_append, List.length_cons, sep]
    omega

/-- What stands after the table's name is read as the conditions that were written. -/
theorem readWhere_text {parts : List (Condition × BindValue)} (of : Of t (numbered parts)) (n : Nat) :
    readWhere t ((if ((numbered parts).map fun c => c.1.text c.2).isEmpty then ""
        else " WHERE " ++ " AND ".intercalate ((numbered parts).map fun c => c.1.text c.2)).toList ++
      (" ORDER BY created_at DESC, job_id DESC LIMIT $".toList ++ (toString n).toList)) =
      some (numbered parts, " ORDER BY created_at DESC, job_id DESC LIMIT $".toList ++ (toString n).toList) := by
  generalize numbered parts = cs at of
  cases cs with
  | nil =>
    have none_ : lit " WHERE " (" ORDER BY created_at DESC, job_id DESC LIMIT $".toList ++ (toString n).toList) = none :=
      lit_apart (by decide +kernel) _
    simp only [List.map_nil, List.isEmpty_nil, if_pos, String.toList_empty, List.nil_append, readWhere, none_]
  | cons c cs =>
    have last : lit " AND " (" ORDER BY created_at DESC, job_id DESC LIMIT $".toList ++ (toString n).toList) = none :=
      lit_apart (by decide +kernel) _
    have stop : Undigited (" ORDER BY created_at DESC, job_id DESC LIMIT $".toList ++ (toString n).toList) :=
      undigited_append (by decide +kernel)
    have room := length_intercalate c cs
    have more : 0 < " ORDER BY created_at DESC, job_id DESC LIMIT $".toList.length := by decide +kernel
    have shown : ((c :: cs).map fun c => c.1.text c.2).isEmpty = false := rfl
    rw [shown, if_neg Bool.false_ne_true, String.toList_append, List.append_assoc, readWhere, lit_append]
    refine readConditions_text of ?_ stop last
    rw [List.length_append, List.length_append]
    omega

/-- The text is read as it was meant, whatever the values. -/
theorem readQuery_build (plain : ' ' ∉ t.toList) : readQuery (buildListQuery toRfc3339 t cursor filters).1 =
    some ⟨t, numbered (partsOf toRfc3339 t cursor filters), (partsOf toRfc3339 t cursor filters).length + 1⟩ := by
  obtain ⟨q, spells, built⟩ : ∃ q, Spells q (partsOf toRfc3339 t cursor filters) ∧ _ := buildListQuery_spells
  have of : Of t (numbered (partsOf toRfc3339 t cursor filters)) := numbered_of partsOf_cursor
  rw [built]
  generalize partsOf toRfc3339 t cursor filters = parts at spells of ⊢
  have whereRead := readWhere_text of q.n
  rw [spells.conditions]
  generalize hw : (if ((numbered parts).map fun c => c.1.text c.2).isEmpty then ""
    else " WHERE " ++ " AND ".intercalate ((numbered parts).map fun c => c.1.text c.2)) = clause at whereRead ⊢
  have blank : (clause.toList ++ (" ORDER BY created_at DESC, job_id DESC LIMIT $".toList ++ (toString q.n).toList)).head? =
      some ' ' := by
    rw [← hw]
    split
    next =>
      rw [String.toList_empty, List.nil_append]
      exact head_append (by decide +kernel)
    next =>
      rw [String.toList_append, List.append_assoc]
      exact head_append (by decide +kernel)
  obtain ⟨front, back⟩ := word_append plain blank
  simp only [readQuery, String.toList_append, lit_append, Option.bind_eq_bind, Option.bind_some, front, back,
    String.ofList_toList, whereRead]
  have last : number ((toString q.n).toList ++ []) = some (q.n, []) := number_append q.n fun c hc => by cases hc
  rw [List.append_nil] at last
  rw [last, spells.n]
  rfl

end spelling

section means

variable {toRfc3339 : Instant → String} {t schema : String} {cursor : Option String} {filters : JobFilters} {pg : PgRules}
  {cast : String → Option Time} {snap : Snapshot Pg} {limit : Int}

theorem all_partSome (c : Condition) (value : Option String) (f : Condition × BindValue → Bool) :
    (partSome c value).all f = value.all fun s => f (c, .scalar s) := by
  cases value <;> simp [partSome]

theorem all_partAny (c : Condition) (values : List String) (f : Condition × BindValue → Bool) :
    (partAny c values).all f = (values.isEmpty || f (c, .array values)) := by
  cases values <;> simp [partAny]

/-- Each condition is given the value that was bound for it. -/
theorem all_numbered (parts : List (Condition × BindValue)) (limit : Int) (f : Condition → Parameter → Bool) :
    ((numbered parts).all fun c => (valueOf (parameters (parts.map Prod.snd) limit) c.2).any (f c.1)) =
      parts.all fun p => f p.1 p.2.parameter := by
  have value : ∀ p ∈ parts.zipIdx 1, (valueOf (parameters (parts.map Prod.snd) limit) p.2).any (f p.1.1) =
      f p.1.1 p.1.2.parameter := by
    intro p hp
    obtain ⟨le, at_⟩ := List.mem_zipIdx_iff_le_and_getElem?_sub.mp hp
    obtain ⟨n, hn⟩ : ∃ n, p.2 = n + 1 := ⟨p.2 - 1, by omega⟩
    rw [hn, Nat.add_sub_cancel] at at_
    have bound : n < parts.length := (List.getElem?_eq_some_iff.mp at_).1
    rw [hn, valueOf, parameters, List.getElem?_append_left (by simpa using bound), List.getElem?_map, List.getElem?_map, at_]
    rfl
  have fst : parts.all (fun p => f p.1 p.2.parameter) = (parts.zipIdx 1).all fun p => f p.1.1 p.1.2.parameter := by
    have names : (parts.zipIdx 1).map Prod.fst = parts := List.zipIdx_map_fst 1 parts
    have mapped : ((parts.zipIdx 1).map Prod.fst).all (fun p => f p.1 p.2.parameter) =
        (parts.zipIdx 1).all fun p => f p.1.1 p.1.2.parameter := List.all_map
    rw [names] at mapped
    exact mapped
  rw [fst, numbered, List.all_map, Bool.eq_iff_iff, List.all_eq_true, List.all_eq_true]
  refine forall₂_congr fun p hp => ?_
  rw [← value p hp]
  rfl

/-- A text that is read back tells what it stands for. -/
theorem injective_of_read {α : Type} {text : α → String} (read : String → Option α) (h : ∀ x, read (text x) = some x) :
    Function.Injective text := by
  intro a b same
  have back := h a
  rw [same, h b] at back
  exact (Option.some.inj back).symm

theorem asStr_status : Function.Injective JobStatus.asStr :=
  injective_of_read JobStatus.fromStrVal fun x => by cases x <;> rfl

theorem asStr_trigger : Function.Injective TriggerType.asStr :=
  injective_of_read TriggerType.fromStrVal fun x => by cases x <;> rfl

theorem asStr_endpointType : Function.Injective EndpointType.asStr :=
  injective_of_read EndpointType.fromStrVal fun x => by cases x <;> rfl

theorem any_of {α : Type} [DecidableEq α] {text : α → String} (injective : Function.Injective text) (x : α) (xs : List α) :
    ((xs.map text).isEmpty || decide (text x ∈ xs.map text)) = (xs.isEmpty || decide (x ∈ xs)) := by
  rw [List.isEmpty_map]
  congr 1
  exact decide_eq_decide.mpr (List.mem_map_of_injective injective)

/-- The conditions together are the filters and the cursor. -/
theorem parts_hold (after : ∀ i, filters.createdAfter = some i → cast (toRfc3339 i) = some (pg.timestamptz i))
    (before : ∀ i, filters.createdBefore = some i → cast (toRfc3339 i) = some (pg.timestamptz i)) (j : Job) :
    ((partsOf toRfc3339 t cursor filters).all fun p => p.1.holds pg cast snap schema j p.2.parameter) =
      (passes pg filters j && cursor.all fun c => beforeCursor snap schema c j) := by
  have since : ((filters.createdAfter.map toRfc3339).all fun s => (cast s).any fun time => decide (j.createdAt ≥ time)) =
      filters.createdAfter.all fun i => decide (j.createdAt ≥ pg.timestamptz i) := by
    cases h : filters.createdAfter with
    | none => rfl
    | some i => simp [after i h]
  have until_ : ((filters.createdBefore.map toRfc3339).all fun s => (cast s).any fun time => decide (j.createdAt ≤ time)) =
      filters.createdBefore.all fun i => decide (j.createdAt ≤ pg.timestamptz i) := by
    cases h : filters.createdBefore with
    | none => rfl
    | some i => simp [before i h]
  have name : ((filters.endpoint.map fun e => String.ofList (escapeLike e.toList)).all fun s =>
      ilike pg j.endpoint ('%' :: s.toList ++ ['%'])) =
      filters.endpoint.all fun e => ilike pg j.endpoint ('%' :: escapeLike e.toList ++ ['%']) := by
    cases filters.endpoint with
    | none => rfl
    | some e => simp
  simp only [partsOf, List.nil_append, List.all_append, all_partSome, all_partAny, BindValue.parameter, Condition.holds,
    any_of asStr_status, any_of asStr_trigger, any_of asStr_endpointType, since, until_, name, passes, Bool.and_assoc]
  generalize (cursor.all fun c => beforeCursor snap schema c j) = front
  cases front <;> simp

/-- Every value can be bound to the placeholder it is for. -/
theorem parts_taken (after : ∀ i, filters.createdAfter = some i → cast (toRfc3339 i) = some (pg.timestamptz i))
    (before : ∀ i, filters.createdBefore = some i → cast (toRfc3339 i) = some (pg.timestamptz i)) :
    ((partsOf toRfc3339 t cursor filters).all fun p => p.1.takes cast p.2.parameter) = true := by
  have since : ((filters.createdAfter.map toRfc3339).all fun s => (cast s).isSome) = true := by
    cases h : filters.createdAfter with
    | none => rfl
    | some i => simp [after i h]
  have until_ : ((filters.createdBefore.map toRfc3339).all fun s => (cast s).isSome) = true := by
    cases h : filters.createdBefore with
    | none => rfl
    | some i => simp [before i h]
  simp [partsOf, List.all_append, all_partSome, all_partAny, BindValue.parameter, Condition.takes, since, until_]

/-- Which filters are given. -/
def given (filters : JobFilters) : List Bool :=
  [filters.status.isEmpty, filters.trigger.isEmpty, filters.endpointType.isEmpty, filters.endpoint.isSome,
    filters.createdAfter.isSome, filters.createdBefore.isSome, filters.jobId.isSome]

theorem fst_partSome (c : Condition) (value : Option String) :
    (partSome c value).map Prod.fst = if value.isSome then [c] else [] := by
  cases value <;> rfl

theorem fst_partAny (c : Condition) (values : List String) :
    (partAny c values).map Prod.fst = if values.isEmpty then [] else [c] := by
  cases values <;> rfl

/-- No value is part of the text. -/
theorem text_of_given {cursor' : Option String} {filters' : JobFilters} (hc : cursor'.isSome = cursor.isSome)
    (hf : given filters' = given filters) :
    (buildListQuery toRfc3339 t cursor' filters').1 = (buildListQuery toRfc3339 t cursor filters).1 := by
  obtain ⟨q', spells', built'⟩ : ∃ q, Spells q (partsOf toRfc3339 t cursor' filters') ∧ _ := buildListQuery_spells
  obtain ⟨q, spells, built⟩ : ∃ q, Spells q (partsOf toRfc3339 t cursor filters) ∧ _ := buildListQuery_spells
  have firsts : (partsOf toRfc3339 t cursor' filters').map Prod.fst = (partsOf toRfc3339 t cursor filters).map Prod.fst := by
    simp only [given, List.cons.injEq, and_true] at hf
    obtain ⟨h₁, h₂, h₃, h₄, h₅, h₆, h₇⟩ := hf
    simp only [partsOf, List.map_append, fst_partSome, fst_partAny, List.isEmpty_map, Option.isSome_map, h₁, h₂, h₃, h₄, h₅, h₆,
      h₇, hc]
  have conditions : ∀ parts : List (Condition × BindValue), numbered parts = (parts.map Prod.fst).zipIdx 1 := by
    intro parts
    rw [numbered, List.zipIdx_map]
    rfl
  have length : (partsOf toRfc3339 t cursor' filters').length = (partsOf toRfc3339 t cursor filters).length := by
    simpa using congrArg List.length firsts
  rw [built', built, spells'.conditions, spells.conditions, spells'.n, spells.n, conditions, conditions, firsts, length]

/-- The text that `build_list_query` makes is read with the placeholders `$1` to `$(k+1)` for its `k` binds and the
limit, and with the values that `list` binds it gives the jobs that pass the filters and come after the cursor. No
value is part of the text. -/
theorem list_query_means (plain : ' ' ∉ t.toList)
    (after : ∀ i, filters.createdAfter = some i → cast (toRfc3339 i) = some (pg.timestamptz i))
    (before : ∀ i, filters.createdBefore = some i → cast (toRfc3339 i) = some (pg.timestamptz i)) (nonneg : 0 ≤ limit) :
    ∃ q, readQuery (buildListQuery toRfc3339 t cursor filters).1 = some q ∧
      q.conditions.map Prod.snd ++ [q.limit] =
        List.range' 1 ((buildListQuery toRfc3339 t cursor filters).2.length + 1) ∧
      q.result pg cast snap schema t (parameters (buildListQuery toRfc3339 t cursor filters).2 limit) =
        some (listed pg snap schema cursor limit filters) ∧
      ∀ cursor' filters', cursor'.isSome = cursor.isSome → given filters' = given filters →
        (buildListQuery toRfc3339 t cursor' filters').1 = (buildListQuery toRfc3339 t cursor filters).1 := by
  obtain ⟨built, spells, hb⟩ : ∃ q, Spells q (partsOf toRfc3339 t cursor filters) ∧ _ := buildListQuery_spells
  have binds : (buildListQuery toRfc3339 t cursor filters).2 = (partsOf toRfc3339 t cursor filters).map Prod.snd := by
    rw [hb, spells.binds]
  refine ⟨_, readQuery_build plain, ?_, ?_, fun _ _ => text_of_given⟩
  · rw [binds, List.length_map, List.range'_concat]
    simp [numbered, Function.comp_def, List.zipIdx_map_snd, Nat.add_comm]
  · have taken : ((partsOf toRfc3339 t cursor filters).all fun p => p.1.takes cast p.2.parameter) = true :=
      parts_taken after before
    have held : ∀ j, ((partsOf toRfc3339 t cursor filters).all fun p => p.1.holds pg cast snap schema j p.2.parameter) =
        (passes pg filters j && cursor.all fun c => beforeCursor snap schema c j) := parts_hold after before
    rw [binds]
    generalize hp : partsOf toRfc3339 t cursor filters = parts at taken held ⊢
    have last : valueOf (parameters (parts.map Prod.snd) limit) (parts.length + 1) = some (.bigint limit) := by
      rw [valueOf, parameters, List.getElem?_append_right (by simp)]
      simp
    simp only [Query.result, last, all_numbered, taken, nonneg, and_self, if_true, held]
    rfl

end means

section sample

def epochText (_ : Instant) : String := "1970-01-01T00:00:00+00:00"

def readEpoch (s : String) : Option Time := if s = "1970-01-01T00:00:00+00:00" then some 0 else none

def datedFilters : JobFilters := { noFilters with status := [.active], createdAfter := some 0 }

/-- A listing with a cursor, a status and a date. -/
theorem list_query_means_dated : ∃ q, readQuery (buildListQuery epochText "jobs" (some "job-9") datedFilters).1 = some q ∧
    q.conditions.map Prod.snd ++ [q.limit] = [1, 2, 3, 4] ∧
      q.result plainRules readEpoch (committed twoJobs) "acme" "jobs"
        (parameters (buildListQuery epochText "jobs" (some "job-9") datedFilters).2 2) =
        some (listed plainRules (committed twoJobs) "acme" (some "job-9") 2 datedFilters) := by
  have dated : ∀ i, datedFilters.createdAfter = some i → readEpoch (epochText i) = some (plainRules.timestamptz i) := by
    intro i hi
    cases hi
    decide
  obtain ⟨q, hq, placeholders, rows, _⟩ := @list_query_means epochText "jobs" "acme" (some "job-9") datedFilters plainRules
    readEpoch (committed twoJobs) 2 (by decide) dated (fun i hi => by cases hi) (by decide)
  exact ⟨q, hq, placeholders, rows⟩

end sample

end Jobs

end Invokr
