import Invokr.DashboardFilters
import Mathlib.Data.List.DropRight
import Mathlib.Logic.Relation

namespace Invokr

open TextLib

abbrev Pairs := List (String × String)

def listKeys : List String := ["status", "trigger_type", "endpoint_type"]

def scalarKeys : List String := ["job_id", "endpoint", "created_after", "created_before"]

/-- The pieces of a value between its commas. -/
def commaPieces (v : String) : List String := (v.toList.splitOn ',').map String.ofList

/-- One change of how the same filters are spelled. Pairs of different keys may change places in any way. -/
inductive Respelled : Pairs → Pairs → Prop where
  | split (u w : Pairs) {k : String} (v : String) (hk : k ∈ listKeys) :
    Respelled (u ++ (k, v) :: w) (u ++ ((commaPieces v).map fun t => (k, t)) ++ w)
  | joined (u w : Pairs) {k : String} (v v' : String) (hk : k ∈ listKeys) :
    Respelled (u ++ (k, v) :: (k, v') :: w) (u ++ (k, v ++ "," ++ v') :: w)
  | reordered {pairs pairs' : Pairs} (h : ∀ key, pairs.filter (·.1 = key) = pairs'.filter (·.1 = key)) : Respelled pairs pairs'
  | unknown (u w : Pairs) {k : String} (v : String) (hk : k ∉ listKeys) (hk' : k ∉ scalarKeys) :
    Respelled (u ++ w) (u ++ (k, v) :: w)

/-- The tokens of a value that are not blank, without the white space around them. -/
def valueTokens (v : String) : List (List Char) := ((v.toList.splitOn ',').map trim).filter (· ≠ [])

/-- All tokens of a list key, in their order. -/
def tokens (pairs : Pairs) (key : String) : List String :=
  ((pairs.filter (·.1 = key)).flatMap fun pair => valueTokens pair.2).map String.ofList

/-- The last value of the key that is not blank, without the white space around it. -/
def LastValue (pairs : Pairs) (key s : String) : Prop :=
  ∃ u v w, pairs = u ++ (key, v) :: w ∧ s = String.ofList (trim v.toList) ∧ trim v.toList ≠ [] ∧
    ∀ p ∈ w, p.1 = key → trim p.2.toList = []

/-- A list key has a token that is none of its names. -/
def BadToken (pairs : Pairs) : Prop :=
  (∃ s ∈ tokens pairs "status", JobStatus.fromStrVal s = none) ∨
    (∃ s ∈ tokens pairs "trigger_type", TriggerType.fromStrVal s = none) ∨
    ∃ s ∈ tokens pairs "endpoint_type", EndpointType.fromStrVal s = none

/-- The value that counts for a date key is no date. -/
def BadDate (rfc : Rfc3339) (pairs : Pairs) : Prop :=
  ∃ key ∈ ["created_after", "created_before"], ∃ s, LastValue pairs key s ∧ rfc.parse s = none

def Inverted (rfc : Rfc3339) (pairs : Pairs) : Prop :=
  ∃ s s' a b, LastValue pairs "created_after" s ∧ rfc.parse s = some a ∧ LastValue pairs "created_before" s' ∧
    rfc.parse s' = some b ∧ a > b

section lists

variable {T : Type} [DecidableEq T] {parse : String → Option T} {label key : String} {pairs : Pairs}

/-- What the fold over the tokens does with one that is not blank. -/
def readToken (parse : String → Option T) (label : String) (out : List T) (token : String) : Except AppError (List T) :=
  match parse token with
  | some parsed => .ok (if parsed ∈ out then out else out ++ [parsed])
  | none => .error (.invalidRequest ("Invalid " ++ label ++ ": " ++ token))

theorem value_read (cs : List (List Char)) (out : List T) : cs.foldlM (parseFilterList.token parse label) out =
    (((cs.map trim).filter (· ≠ [])).map String.ofList).foldlM (readToken parse label) out := by
  induction cs generalizing out with
  | nil => rfl
  | cons c cs ih =>
    rw [List.foldlM_cons, List.map_cons, List.filter_cons]
    by_cases blank : trim c = []
    · have skipped : parseFilterList.token parse label out c = .ok out := by
        simp only [parseFilterList.token, if_pos blank]
      have dropped : decide (trim c ≠ []) = false := by simp [blank]
      rw [skipped, dropped]
      exact ih out
    · have taken : parseFilterList.token parse label out c = readToken parse label out (String.ofList (trim c)) := by
        simp only [parseFilterList.token, if_neg blank]
        rfl
      have kept : decide (trim c ≠ []) = true := by simp [blank]
      rw [taken, kept, if_pos rfl, List.map_cons, List.foldlM_cons]
      exact congrArg _ (funext ih)

/-- A list filter reads the tokens of its key one after the other. -/
theorem list_tokens : parseFilterList pairs key parse label = (tokens pairs key).foldlM (readToken parse label) [] := by
  unfold parseFilterList tokens
  generalize ([] : List T) = out
  induction pairs.filter (·.1 = key) generalizing out with
  | nil => rfl
  | cons pair l ih =>
    rw [List.foldlM_cons, List.flatMap_cons, List.map_append, List.foldlM_append, value_read]
    exact congrArg _ (funext ih)

theorem tokens_ok {l : List String} (valid : ∀ s ∈ l, (parse s).isSome = true) :
    l.foldlM (readToken parse label) [] = .ok (l.filterMap parse).eraseDups := by
  induction l using List.reverseRecOn with
  | nil => rfl
  | append_singleton l s ih =>
    obtain ⟨x, hx⟩ := Option.isSome_iff_exists.mp (valid s (by simp))
    have before := ih fun s' hs' => valid s' (List.mem_append_left _ hs')
    have last : (l ++ [s]).filterMap parse = l.filterMap parse ++ [x] := by simp [hx]
    rw [List.foldlM_append, before, last, eraseDups_snoc]
    change readToken parse label _ s >>= pure = _
    rw [readToken, hx]
    rfl

theorem tokens_fail {l : List String} {s : String} (hs : s ∈ l) (bad : parse s = none) (out : List T) :
    ∃ e, l.foldlM (readToken parse label) out = .error e := by
  induction l generalizing out with
  | nil => cases hs
  | cons s' l ih =>
    rw [List.foldlM_cons]
    cases hp : parse s' with
    | none =>
      rw [readToken, hp]
      exact ⟨_, rfl⟩
    | some x =>
      have rest : s ∈ l := (List.mem_cons.mp hs).resolve_left fun he => by simp [he ▸ bad] at hp
      rw [readToken, hp]
      exact ih rest _

/-- A list filter is the values of its tokens, each at its first place, or an error where a token has none. -/
theorem list_outcome (parse : String → Option T) (label : String) (pairs : Pairs) (key : String) : (parseFilterList pairs key parse label = .ok ((tokens pairs key).filterMap parse).eraseDups ∧
      ∀ s ∈ tokens pairs key, parse s ≠ none) ∨
    ((∃ e, parseFilterList pairs key parse label = .error e) ∧ ∃ s ∈ tokens pairs key, parse s = none) := by
  rw [list_tokens]
  by_cases bad : ∃ s ∈ tokens pairs key, parse s = none
  · obtain ⟨s, hs, hp⟩ := bad
    exact Or.inr ⟨tokens_fail hs hp [], s, hs, hp⟩
  · have valid : ∀ s ∈ tokens pairs key, parse s ≠ none := fun s hs hp => bad ⟨s, hs, hp⟩
    exact Or.inl ⟨tokens_ok fun s hs => Option.isSome_iff_ne_none.mpr (valid s hs), valid⟩

end lists

section scalars

variable {pairs : Pairs} {p : String × String} {key s : String}

theorem trim_trim (cs : List Char) : trim (trim cs) = trim cs := by
  have ends : trim cs = (cs.dropWhile isWhitespace).rdropWhile isWhitespace := rfl
  have front : (trim cs).dropWhile isWhitespace = trim cs := by
    rw [List.dropWhile_eq_self_iff]
    intro hl
    have hd : 0 < (cs.dropWhile isWhitespace).length := by
      have := (List.rdropWhile_prefix isWhitespace (cs.dropWhile isWhitespace)).length_le
      rw [ends] at hl
      omega
    have first := List.dropWhile_get_zero_not isWhitespace cs hd
    have same : (trim cs)[0] = (cs.dropWhile isWhitespace)[0] :=
      List.IsPrefix.getElem (List.rdropWhile_prefix isWhitespace _) hl
    rw [same]
    exact first
  have back : (trim cs).rdropWhile isWhitespace = trim cs := by
    rw [ends]
    exact List.rdropWhile_idempotent isWhitespace _
  change ((trim cs).dropWhile isWhitespace).rdropWhile isWhitespace = trim cs
  rw [front, back]

theorem blankToNone_some {v : String} : blankToNone (some v) = some s ↔ s = String.ofList (trim v.toList) ∧ trim v.toList ≠ [] := by
  simp only [blankToNone, Option.bind_some]
  split
  next blank => simp [blank]
  next visible => simp [visible, eq_comm]

theorem lastScalar_snoc : lastScalar (pairs ++ [p]) key =
    (if p.1 = key then blankToNone (some p.2) else none).or (lastScalar pairs key) := by
  unfold lastScalar
  rw [List.filter_append, List.filterMap_append]
  by_cases hk : p.1 = key
  · cases hv : blankToNone (some p.2) with
    | none => simp [hk, hv]
    | some t => simp [hk, hv]
  · simp [hk]

theorem lastValue_snoc : LastValue (pairs ++ [p]) key s ↔ (p.1 = key ∧ s = String.ofList (trim p.2.toList) ∧ trim p.2.toList ≠ []) ∨
    ((p.1 = key → trim p.2.toList = []) ∧ LastValue pairs key s) := by
  constructor
  · rintro ⟨u, v, w, hpairs, hs, visible, blank⟩
    rcases List.eq_nil_or_concat w with rfl | ⟨w', q, rfl⟩
    · obtain ⟨_, hp⟩ := List.append_inj' hpairs rfl
      obtain rfl := (List.cons.inj hp).1
      exact Or.inl ⟨rfl, hs, visible⟩
    · have shape : pairs ++ [p] = (u ++ (key, v) :: w') ++ [q] := by rw [hpairs]; simp
      obtain ⟨hpre, hp⟩ := List.append_inj' shape rfl
      obtain rfl := (List.cons.inj hp).1
      exact Or.inr ⟨blank p (by simp), u, v, w', hpre, hs, visible, fun q hq => blank q (by simp [hq])⟩
  · rintro (⟨hk, hs, visible⟩ | ⟨hblank, u, v, w, rfl, hs, visible, blank⟩)
    · exact ⟨pairs, p.2, [], by rw [← hk], hs, visible, fun q hq => by cases hq⟩
    · refine ⟨u, v, w ++ [p], by simp, hs, visible, fun q hq => ?_⟩
      rcases List.mem_append.mp hq with hq | hq
      · exact blank q hq
      · rw [List.mem_singleton.mp hq]
        exact hblank

/-- `last_scalar` finds the last value that is not blank. -/
theorem lastScalar_eq : lastScalar pairs key = some s ↔ LastValue pairs key s := by
  induction pairs using List.reverseRecOn with
  | nil => exact iff_of_false (fun h => by cases h) fun ⟨u, v, w, h, _⟩ => by simp at h
  | append_singleton pairs p ih =>
    rw [lastScalar_snoc, lastValue_snoc, ← ih]
    by_cases hk : p.1 = key
    · rw [if_pos hk]
      by_cases blank : trim p.2.toList = []
      · have hnone : blankToNone (some p.2) = none := by simp [blankToNone, blank]
        simp [hnone, hk, blank]
      · have hsome := blankToNone_some.mpr ⟨rfl, blank⟩
        rw [hsome, Option.some_or]
        simp [hk, blank, eq_comm]
    · simp [hk]

theorem blank_again : blankToNone (lastScalar pairs key) = lastScalar pairs key := by
  cases h : lastScalar pairs key with
  | none => rfl
  | some s =>
    obtain ⟨_, v, _, _, rfl, visible, _⟩ := lastScalar_eq.mp h
    rw [blankToNone_some, String.toList_ofList, trim_trim]
    exact ⟨rfl, visible⟩

end scalars

section spelling

variable {pairs pairs' : Pairs} {key : String}

theorem tokens_append (u w : Pairs) : tokens (u ++ w) key = tokens u key ++ tokens w key := by
  simp [tokens]

theorem tokens_cons (p : String × String) (w : Pairs) : tokens (p :: w) key = tokens [p] key ++ tokens w key :=
  tokens_append [p] w

theorem tokens_other {k : String} (hne : k ≠ key) (v : String) : tokens [(k, v)] key = [] := by
  simp [tokens, hne]

theorem tokens_own (v : String) : tokens [(key, v)] key = (valueTokens v).map String.ofList := by
  simp [tokens]

theorem valueTokens_joined (v v' : String) : valueTokens (v ++ "," ++ v') = valueTokens v ++ valueTokens v' := by
  have comma : ",".toList = [','] := by decide
  have shape : (v ++ "," ++ v').toList = v.toList ++ ',' :: v'.toList := by
    rw [String.toList_append, String.toList_append, comma, List.append_assoc]
    rfl
  simp only [valueTokens, shape, List.splitOn_append_cons_self, List.map_append, List.filter_append]

theorem piece_plain {s cs : List Char} (h : cs ∈ s.splitOn ',') : ',' ∉ cs := by
  induction s generalizing cs with
  | nil =>
    rw [List.splitOn_nil, List.mem_singleton] at h
    simp [h]
  | cons c s ih =>
    rw [List.splitOn_cons_eq_if_modifyHead] at h
    split at h
    next =>
      rcases List.mem_cons.mp h with rfl | h
      · simp
      · exact ih h
    next hc =>
      obtain ⟨head, tail, hs⟩ := List.exists_cons_of_ne_nil (List.splitOn_ne_nil ',' s)
      rw [hs, List.modifyHead_cons] at h
      rcases List.mem_cons.mp h with rfl | h
      · have plain := ih (hs ▸ List.mem_cons_self)
        simp only [beq_iff_eq] at hc
        simp [plain, Ne.symm hc]
      · exact ih (hs ▸ List.mem_cons_of_mem _ h)

theorem valueTokens_piece {v t : String} (ht : t ∈ commaPieces v) : valueTokens t = [trim t.toList].filter (· ≠ []) := by
  obtain ⟨cs, hcs, rfl⟩ := List.mem_map.mp ht
  have plain := piece_plain hcs
  rw [valueTokens, String.toList_ofList, List.splitOn_eq_singleton plain]
  rfl

theorem valueTokens_pieces (v : String) : (commaPieces v).flatMap valueTokens = valueTokens v := by
  have each : (commaPieces v).flatMap valueTokens = (commaPieces v).flatMap fun t => [trim t.toList].filter (· ≠ []) :=
    List.flatMap_congr fun t ht => valueTokens_piece ht
  rw [each]
  unfold commaPieces valueTokens
  induction v.toList.splitOn ',' with
  | nil => rfl
  | cons c cs ih =>
    rw [List.map_cons, List.flatMap_cons, ih, List.map_cons, String.toList_ofList]
    simp only [List.filter_cons, List.filter_nil]
    split <;> rfl

theorem tokens_pieces (v : String) : tokens ((commaPieces v).map fun t => (key, t)) key = tokens [(key, v)] key := by
  rw [tokens_own, ← valueTokens_pieces]
  have all : ((commaPieces v).map fun t => (key, t)).filter (·.1 = key) = (commaPieces v).map fun t => (key, t) :=
    List.filter_eq_self.mpr fun p hp => by
      obtain ⟨t, _, rfl⟩ := List.mem_map.mp hp
      exact decide_eq_true rfl
  rw [tokens, all, List.flatMap_map]

theorem tokens_others {k : String} (hne : k ≠ key) (l : List String) : tokens (l.map fun t => (k, t)) key = [] := by
  induction l with
  | nil => rfl
  | cons t l ih => rw [List.map_cons, tokens_cons, tokens_other hne, ih, List.append_nil]

/-- Another spelling has the same tokens. -/
theorem Respelled.tokens (h : Respelled pairs pairs') (known : key ∈ listKeys ∨ key ∈ scalarKeys) :
    Invokr.tokens pairs key = Invokr.tokens pairs' key := by
  cases h with
  | @split u w k v hk =>
    rw [tokens_append, tokens_cons (k, v), tokens_append, tokens_append, List.append_assoc]
    by_cases hkey : k = key
    · rw [hkey, tokens_pieces]
    · rw [tokens_other hkey, tokens_others hkey]
  | @joined u w k v v' hk =>
    rw [tokens_append, tokens_cons (k, v), tokens_cons (k, v'), tokens_append, tokens_cons (k, v ++ "," ++ v')]
    by_cases hkey : k = key
    · rw [hkey, tokens_own, tokens_own, tokens_own, valueTokens_joined, List.map_append, List.append_assoc]
    · rw [tokens_other hkey, tokens_other hkey, tokens_other hkey, List.nil_append, List.nil_append]
  | reordered h =>
    unfold Invokr.tokens
    rw [h key]
  | @unknown u w k v hk hk' =>
    have hkey : k ≠ key := fun he => known.elim (fun hl => hk (he ▸ hl)) fun hs => hk' (he ▸ hs)
    rw [tokens_append, tokens_append, tokens_cons (k, v), tokens_other hkey, List.nil_append]

/-- Another spelling leaves the pairs of a scalar key as they are. -/
theorem Respelled.scalar (h : Respelled pairs pairs') (scalar : key ∈ scalarKeys) :
    pairs.filter (·.1 = key) = pairs'.filter (·.1 = key) := by
  have disjoint : ∀ k ∈ listKeys, k ∉ scalarKeys := by decide
  have apart : ∀ k ∈ listKeys, k ≠ key := fun k hk he => disjoint k hk (he ▸ scalar)
  cases h with
  | @split u w k v hk =>
    have none : ((commaPieces v).map fun t => (k, t)).filter (·.1 = key) = [] :=
      List.filter_eq_nil_iff.mpr fun p hp => by
        obtain ⟨t, _, rfl⟩ := List.mem_map.mp hp
        simp [apart k hk]
    simp [none, apart k hk]
  | @joined u w k v v' hk => simp [apart k hk]
  | reordered h => exact h key
  | @unknown u w k v hk hk' =>
    have hkey : k ≠ key := fun he => hk' (he ▸ scalar)
    simp [hkey]

theorem Respelled.outcome {rfc : Rfc3339} (h : Respelled pairs pairs') : parseJobFilters rfc pairs = parseJobFilters rfc pairs' := by
  have scalar : ∀ key ∈ scalarKeys, lastScalar pairs key = lastScalar pairs' key := fun key hk => by
    unfold lastScalar
    rw [h.scalar hk]
  have list : ∀ {T : Type} [DecidableEq T] (parse : String → Option T) (label : String), ∀ key ∈ listKeys,
      parseFilterList pairs key parse label = parseFilterList pairs' key parse label := fun parse label key hk => by
    rw [list_tokens, list_tokens, h.tokens (Or.inl hk)]
  unfold parseJobFilters
  rw [scalar "job_id" (by decide), scalar "endpoint" (by decide), scalar "created_after" (by decide),
    scalar "created_before" (by decide), list _ _ "status" (by decide), list _ _ "trigger_type" (by decide),
    list _ _ "endpoint_type" (by decide)]

end spelling

section outcome

theorem date_outcome (rfc : Rfc3339) (pairs : Pairs) (key label : String) : (parseDatetime rfc (lastScalar pairs key) label = .ok ((lastScalar pairs key).bind rfc.parse) ∧
      ∀ s, LastValue pairs key s → rfc.parse s ≠ none) ∨
    ((∃ e, parseDatetime rfc (lastScalar pairs key) label = .error e) ∧ ∃ s, LastValue pairs key s ∧ rfc.parse s = none) := by
  unfold parseDatetime
  rw [blank_again]
  cases h : lastScalar pairs key with
  | none => exact Or.inl ⟨rfl, fun s hs => by rw [← lastScalar_eq, h] at hs; cases hs⟩
  | some s =>
    have last := lastScalar_eq.mp h
    cases hp : rfc.parse s with
    | none => exact Or.inr ⟨⟨_, by simp only [hp]; rfl⟩, s, last, hp⟩
    | some dt =>
      refine Or.inl ⟨by simp [hp], fun s' hs' => ?_⟩
      rw [← lastScalar_eq, h] at hs'
      cases hs'
      simp [hp]

theorem inverted_iff {after before : Option Instant} :
    (after.any fun a => before.any fun b => a > b) = true ↔ ∃ a b, after = some a ∧ before = some b ∧ a > b := by
  cases after with
  | none => simp
  | some a =>
    cases before with
    | none => simp
    | some b => simp

/-- The outcome follows from the dates, their order and the tokens, in whatever order these are looked at. -/
theorem outcome_cases (rfc : Rfc3339) (pairs : Pairs) :
    (∃ filters, parseJobFilters rfc pairs = .ok filters ∧
      filters.status = ((tokens pairs "status").filterMap JobStatus.fromStrVal).eraseDups ∧
      filters.trigger = ((tokens pairs "trigger_type").filterMap TriggerType.fromStrVal).eraseDups ∧
      filters.endpointType = ((tokens pairs "endpoint_type").filterMap EndpointType.fromStrVal).eraseDups ∧
      ¬(BadToken pairs ∨ BadDate rfc pairs ∨ Inverted rfc pairs)) ∨
    ((∃ e, parseJobFilters rfc pairs = .error e) ∧ (BadToken pairs ∨ BadDate rfc pairs ∨ Inverted rfc pairs)) := by
  have dates : Inverted rfc pairs ↔ ((lastScalar pairs "created_after").bind rfc.parse).any (fun a =>
      ((lastScalar pairs "created_before").bind rfc.parse).any fun b => a > b) = true := by
    simp only [inverted_iff, Inverted, Option.bind_eq_some_iff, lastScalar_eq]
    constructor
    · rintro ⟨s, s', a, b, hs, ha, hs', hb, lt⟩
      exact ⟨a, b, ⟨s, hs, ha⟩, ⟨s', hs', hb⟩, lt⟩
    · rintro ⟨a, b, ⟨s, hs, ha⟩, ⟨s', hs', hb⟩, lt⟩
      exact ⟨s, s', a, b, hs, ha, hs', hb, lt⟩
  unfold parseJobFilters
  rcases date_outcome rfc pairs "created_after" "created_after" with ⟨ha, goodAfter⟩ | ⟨⟨e, ha⟩, s, hs, hp⟩
  case inr => exact Or.inr ⟨⟨e, by rw [ha]; rfl⟩, Or.inr (Or.inl ⟨_, by simp, s, hs, hp⟩)⟩
  rcases date_outcome rfc pairs "created_before" "created_before" with ⟨hb, goodBefore⟩ | ⟨⟨e, hb⟩, s, hs, hp⟩
  case inr => exact Or.inr ⟨⟨e, by rw [ha, hb]; rfl⟩, Or.inr (Or.inl ⟨_, by simp, s, hs, hp⟩)⟩
  by_cases order : ((lastScalar pairs "created_after").bind rfc.parse).any (fun a =>
      ((lastScalar pairs "created_before").bind rfc.parse).any fun b => a > b) = true
  · refine Or.inr ⟨⟨.invalidRequest "created_after must not be after created_before", ?_⟩, Or.inr (Or.inr (dates.mpr order))⟩
    simp only [ha, hb, bind, Except.bind, order, if_true]
    rfl
  have notDates : ¬BadDate rfc pairs := by
    rintro ⟨key, hkey, s, hs, hp⟩
    simp only [List.mem_cons, List.not_mem_nil, or_false] at hkey
    rcases hkey with rfl | rfl
    · exact goodAfter s hs hp
    · exact goodBefore s hs hp
  rcases list_outcome JobStatus.fromStrVal "status" pairs "status" with ⟨hstatus, goodStatus⟩ | ⟨⟨e, hstatus⟩, bad⟩
  case inr => exact Or.inr ⟨⟨e, by simp only [ha, hb, bind, Except.bind, order, hstatus]; rfl⟩, Or.inl (Or.inl bad)⟩
  rcases list_outcome TriggerType.fromStrVal "trigger" pairs "trigger_type" with ⟨htrigger, goodTrigger⟩ | ⟨⟨e, htrigger⟩, bad⟩
  case inr =>
    exact Or.inr ⟨⟨e, by simp only [ha, hb, bind, Except.bind, order, hstatus, htrigger]; rfl⟩, Or.inl (Or.inr (Or.inl bad))⟩
  rcases list_outcome EndpointType.fromStrVal "endpoint_type" pairs "endpoint_type" with ⟨htype, goodType⟩ | ⟨⟨e, htype⟩, bad⟩
  case inr =>
    exact Or.inr ⟨⟨e, by simp only [ha, hb, bind, Except.bind, order, hstatus, htrigger, htype]; rfl⟩,
      Or.inl (Or.inr (Or.inr bad))⟩
  refine Or.inl ⟨_, by simp only [ha, hb, bind, Except.bind, order, hstatus, htrigger, htype]; rfl, rfl, rfl, rfl, ?_⟩
  rintro ((⟨s, hs, hp⟩ | ⟨s, hs, hp⟩ | ⟨s, hs, hp⟩) | bad | bad)
  · exact goodStatus s hs hp
  · exact goodTrigger s hs hp
  · exact goodType s hs hp
  · exact notDates bad
  · exact order (dates.mp bad)

/-- Two spellings of the same filters have the same outcome. The lists of a successful one are the values of the
tokens, each at its first place, and a failure has one of three reasons. -/
theorem filters_spelling (rfc : Rfc3339) :
    (∀ pairs pairs', Relation.EqvGen Respelled pairs pairs' → parseJobFilters rfc pairs = parseJobFilters rfc pairs') ∧
      (∀ pairs filters, parseJobFilters rfc pairs = .ok filters →
        filters.status = ((tokens pairs "status").filterMap JobStatus.fromStrVal).eraseDups ∧
        filters.trigger = ((tokens pairs "trigger_type").filterMap TriggerType.fromStrVal).eraseDups ∧
        filters.endpointType = ((tokens pairs "endpoint_type").filterMap EndpointType.fromStrVal).eraseDups) ∧
      ∀ pairs, (∃ e, parseJobFilters rfc pairs = .error e) ↔ BadToken pairs ∨ BadDate rfc pairs ∨ Inverted rfc pairs := by
  refine ⟨fun pairs pairs' h => ?_, fun pairs filters h => ?_, fun pairs => ?_⟩
  · induction h with
    | rel _ _ h => exact h.outcome
    | refl _ => rfl
    | symm _ _ _ ih => exact ih.symm
    | trans _ _ _ _ _ ih ih' => exact ih.trans ih'
  · rcases outcome_cases rfc pairs with ⟨filters', h', hstatus, htrigger, htype, -⟩ | ⟨⟨e, h'⟩, -⟩
    · rw [h] at h'
      cases h'
      exact ⟨hstatus, htrigger, htype⟩
    · rw [h] at h'
      cases h'
  · rcases outcome_cases rfc pairs with ⟨filters, h, -, -, -, good⟩ | ⟨failed, bad⟩
    · refine iff_of_false ?_ good
      rintro ⟨e, he⟩
      rw [h] at he
      cases he
    · exact iff_of_true failed bad

end outcome

end Invokr
