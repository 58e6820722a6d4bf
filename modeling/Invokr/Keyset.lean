import Mathlib.Data.List.Sort
import Mathlib.Data.List.Chain
import Mathlib.Data.List.Nodup

namespace Keyset

variable {α K : Type} [LinearOrder K] {key : α → K} {rows rows' : List α} {below : Option K} {limit : Nat}

/-- `WHERE key < below ORDER BY key DESC LIMIT limit`. -/
def select (key : α → K) (rows : List α) (below : Option K) (limit : Nat) : List α :=
  ((rows.filter fun r => below.all (key r < ·)).insertionSort fun a b => key b ≤ key a).take limit

/-- A page of at most `limit` rows, and its last row when a look-ahead row shows that more follow. -/
def page (key : α → K) (rows : List α) (below : Option K) (limit : Nat) : List α × Option α :=
  let found := select key rows below (limit + 1)
  (found.take limit, if found.length > limit then (found.take limit).getLast? else none)

/-- The rows go down strictly. -/
def Descends (key : α → K) (l : List α) : Prop := l.Pairwise fun a b => key b < key a

section select

theorem sorted_descends (distinct : rows.Pairwise fun a b => key a ≠ key b) (p : α → Bool) :
    Descends key ((rows.filter p).insertionSort fun a b => key b ≤ key a) := by
  have total : Std.Total fun a b : α => key b ≤ key a := ⟨fun a b => le_total (key b) (key a)⟩
  have trans : IsTrans α fun a b => key b ≤ key a := ⟨fun a b c hab hbc => hbc.trans hab⟩
  have sorted := List.pairwise_insertionSort (fun a b => key b ≤ key a) (rows.filter p)
  have apart : ((rows.filter p).insertionSort fun a b => key b ≤ key a).Pairwise fun a b => key a ≠ key b :=
    ((List.perm_insertionSort _ _).pairwise_iff fun h => h.symm).mpr (distinct.filter p)
  exact (sorted.and apart).imp fun h => lt_of_le_of_ne h.1 fun he => h.2 he.symm

/-- What a page is: the first rows of those below the cursor, in descending order. -/
theorem page_split (below : Option K) (limit : Nat) (distinct : rows.Pairwise fun a b => key a ≠ key b) :
    ∃ all : List α, Descends key all ∧ (∀ r, r ∈ all ↔ r ∈ rows ∧ ∀ b, below = some b → key r < b) ∧
      page key rows below limit = (all.take limit, if all.length > limit then (all.take limit).getLast? else none) := by
  refine ⟨(rows.filter fun r => below.all (key r < ·)).insertionSort fun a b => key b ≤ key a,
    sorted_descends distinct _, fun r => ?_, ?_⟩
  · rw [List.mem_insertionSort, List.mem_filter]
    cases below <;> simp
  · have shorter : ∀ l : List α, (l.take (limit + 1)).take limit = l.take limit := fun l => by
      rw [List.take_take, Nat.min_eq_left (Nat.le_succ limit)]
    have longer : ∀ l : List α, (l.take (limit + 1)).length > limit ↔ l.length > limit := fun l => by
      rw [List.length_take]
      omega
    simp only [page, select, shorter, longer]

end select

/-- What the page, with the rows below its cursor, tells the reader. -/
structure Spec (key : α → K) (rows : List α) (below : Option K) (shown : List α) (next : Option α) : Prop where
  descends : Descends key shown
  mem : ∀ r ∈ shown, r ∈ rows ∧ ∀ b, below = some b → key r < b
  last : ∀ l, next = some l → l ∈ shown ∧ ∀ r ∈ shown, key l ≤ key r
  rest : ∀ r ∈ rows, (∀ b, below = some b → key r < b) → r ∈ shown ∨ ∃ l, next = some l ∧ key r < key l

theorem page_spec (below : Option K) (distinct : rows.Pairwise fun a b => key a ≠ key b) (positive : 0 < limit) :
    Spec key rows below (page key rows below limit).1 (page key rows below limit).2 := by
  obtain ⟨all, descends, mem, eq⟩ := page_split below limit distinct
  rw [eq]
  have split : all = all.take limit ++ all.drop limit := (List.take_append_drop limit all).symm
  have parts : Descends key (all.take limit ++ all.drop limit) := split ▸ descends
  obtain ⟨front, _, across⟩ := List.pairwise_append.mp parts
  refine ⟨front, fun r hr => (mem r).mp (List.mem_of_mem_take hr), fun l hl => ?_, fun r hr hb => ?_⟩
  · split at hl
    next =>
      obtain ⟨init, hinit⟩ := List.getLast?_eq_some_iff.mp hl
      rw [hinit] at front ⊢
      refine ⟨by simp, fun r hr => ?_⟩
      rcases List.mem_append.mp hr with h | h
      · exact le_of_lt ((List.pairwise_append.mp front).2.2 r h l (by simp))
      · rw [List.mem_singleton.mp h]
    next => cases hl
  · have hall : r ∈ all.take limit ++ all.drop limit := split ▸ (mem r).mpr ⟨hr, hb⟩
    rcases List.mem_append.mp hall with h | h
    · exact Or.inl h
    · have long : all.length > limit := by
        have := List.length_pos_of_mem h
        rw [List.length_drop] at this
        omega
      have filled : all.take limit ≠ [] := by
        intro he
        have := congrArg List.length he
        rw [List.length_take, List.length_nil] at this
        omega
      refine Or.inr ⟨(all.take limit).getLast filled, ?_, across _ (List.getLast_mem filled) r h⟩
      rw [if_pos long, List.getLast?_eq_some_getLast filled]

/-- Pages read one after the other of tables that change, from a cursor on: what they show, and the
cursor that the last of them leaves. -/
inductive Reads (key : α → K) : List (List α) → Option K → List α → Option α → Prop where
  | one {rows : List α} {below : Option K} {shown : List α} {next : Option α} (page : Spec key rows below shown next) :
      Reads key [rows] below shown next
  | more {rows : List α} {tables : List (List α)} {below : Option K} {shown rest : List α} {l : α} {next : Option α}
      (page : Spec key rows below shown (some l)) (then_ : Reads key tables (some (key l)) rest next) :
      Reads key (rows :: tables) below (shown ++ rest) next

variable {I : Type} {ident : α → I}

/-- A row that is in the table stays in it, with its key and its identity. -/
def Keeps (key : α → K) (ident : α → I) (rows rows' : List α) : Prop :=
  ∀ r ∈ rows, ∃ r' ∈ rows', key r' = key r ∧ ident r' = ident r

omit [LinearOrder K] in
theorem keeps_refl (rows : List α) : Keeps key ident rows rows := fun r hr => ⟨r, hr, rfl, rfl⟩

omit [LinearOrder K] in
theorem Keeps.trans {rows'' : List α} (h : Keeps key ident rows rows') (h' : Keeps key ident rows' rows'') :
    Keeps key ident rows rows'' := by
  intro r hr
  obtain ⟨r₁, h₁, k₁, i₁⟩ := h r hr
  obtain ⟨r₂, h₂, k₂, i₂⟩ := h' r₁ h₁
  exact ⟨r₂, h₂, k₂.trans k₁, i₂.trans i₁⟩

omit [LinearOrder K] in
/-- From the first table to the last. -/
theorem keeps_last {tables : List (List α)} (chain : (rows :: tables).IsChain (Keeps key ident))
    (last : (rows :: tables).getLast? = some rows') : Keeps key ident rows rows' := by
  induction tables generalizing rows with
  | nil =>
    cases last
    exact keeps_refl _
  | cons rows₁ tables ih =>
    obtain ⟨keeps, chain'⟩ := List.isChain_cons_cons.mp chain
    rw [List.getLast?_cons_cons] at last
    exact keeps.trans (ih chain' last)

section reads

variable {tables : List (List α)} {shown : List α} {next : Option α}

theorem Reads.nonempty (h : Reads key tables below shown next) : tables ≠ [] := by
  cases h <;> simp

/-- What is shown goes down strictly from the cursor on. -/
theorem Reads.descends (h : Reads key tables below shown next) :
    Descends key shown ∧ ∀ r ∈ shown, ∀ b, below = some b → key r < b := by
  induction h with
  | one page => exact ⟨page.descends, fun r hr => (page.mem r hr).2⟩
  | @more rows tables below shown rest l next page _ ih =>
    obtain ⟨ihd, ihb⟩ := ih
    obtain ⟨hl, least⟩ := page.last l rfl
    refine ⟨List.pairwise_append.mpr ⟨page.descends, ihd, fun a ha b hb => ?_⟩, fun r hr b hbelow => ?_⟩
    · exact (ihb b hb _ rfl).trans_le (least a ha)
    · rcases List.mem_append.mp hr with h | h
      · exact (page.mem r h).2 b hbelow
      · exact (ihb r h _ rfl).trans ((page.mem l hl).2 b hbelow)

/-- Every row of the first table is shown, or is below the cursor that is left. -/
theorem Reads.complete (h : Reads key tables below shown next) (chain : tables.IsChain (Keeps key ident)) :
    ∀ rows, tables.head? = some rows → ∀ r ∈ rows, (∀ b, below = some b → key r < b) →
      (∃ s ∈ shown, key s = key r ∧ ident s = ident r) ∨ ∃ l, next = some l ∧ key r < key l := by
  induction h with
  | one page =>
    intro rows hrows r hr hb
    cases hrows
    exact (page.rest r hr hb).imp_left fun h => ⟨r, h, rfl, rfl⟩
  | @more rows₀ tables below shown rest l next page then_ ih =>
    intro rows hrows r hr hb
    cases hrows
    rcases page.rest r hr hb with h | ⟨l', hl', hlt⟩
    · exact Or.inl ⟨r, List.mem_append_left _ h, rfl, rfl⟩
    · cases hl'
      obtain ⟨rows₁, tables₁, rfl⟩ := List.exists_cons_of_ne_nil then_.nonempty
      obtain ⟨keeps, chain'⟩ := List.isChain_cons_cons.mp chain
      obtain ⟨r₁, hr₁, hk₁, hi₁⟩ := keeps r hr
      rcases ih chain' rows₁ rfl r₁ hr₁ (fun b hb => by cases hb; rw [hk₁]; exact hlt) with ⟨s, hs, hks, his⟩ | ⟨l', hl', hlt'⟩
      · exact Or.inl ⟨s, List.mem_append_right _ hs, hks.trans hk₁, his.trans hi₁⟩
      · exact Or.inr ⟨l', hl', hk₁ ▸ hlt'⟩

/-- Every row shown is in the last table. -/
theorem Reads.shown_last (h : Reads key tables below shown next) (chain : tables.IsChain (Keeps key ident)) :
    ∀ rows, tables.getLast? = some rows → ∀ s ∈ shown, ∃ r ∈ rows, key r = key s ∧ ident r = ident s := by
  induction h with
  | one page =>
    intro rows hrows s hs
    cases hrows
    exact ⟨s, (page.mem s hs).1, rfl, rfl⟩
  | @more rows₀ tables below shown rest l next page then_ ih =>
    intro rows hrows s hs
    obtain ⟨rows₁, tables₁, rfl⟩ := List.exists_cons_of_ne_nil then_.nonempty
    obtain ⟨keeps, chain'⟩ := List.isChain_cons_cons.mp chain
    have hlast : (rows₁ :: tables₁).getLast? = some rows := by
      rw [List.getLast?_cons_cons] at hrows
      exact hrows
    rcases List.mem_append.mp hs with h | h
    · exact keeps_last chain hrows s (page.mem s h).1
    · exact ih chain' rows hlast s h

/-- Every page but the last shows a row. -/
theorem Reads.length_le (h : Reads key tables below shown next) : tables.length ≤ shown.length + 1 := by
  induction h with
  | one _ => simp
  | @more rows tables below shown rest l next page _ ih =>
    have := List.length_pos_of_mem (page.last l rfl).1
    rw [List.length_cons, List.length_append]
    omega

/-- No row is shown twice where the last table tells its rows apart. -/
theorem Reads.nodup (h : Reads key tables below shown next) (chain : tables.IsChain (Keeps key ident))
    (last : tables.getLast? = some rows) (apart : ∀ a ∈ rows, ∀ b ∈ rows, ident a = ident b → key a = key b) :
    (shown.map ident).Nodup := by
  refine List.pairwise_map.mpr (h.descends.1.imp_of_mem fun {a b} ha hb hlt he => ?_)
  obtain ⟨ra, hra, hka, hia⟩ := h.shown_last chain rows last a ha
  obtain ⟨rb, hrb, hkb, hib⟩ := h.shown_last chain rows last b hb
  have same : key ra = key rb := apart ra hra rb hrb (by rw [hia, hib, he])
  rw [← hka, ← hkb, same] at hlt
  exact lt_irrefl _ hlt

/-- There are no more pages than rows in the last table and one. -/
theorem Reads.bounded (h : Reads key tables below shown next) (chain : tables.IsChain (Keeps key ident))
    (last : tables.getLast? = some rows) (apart : ∀ a ∈ rows, ∀ b ∈ rows, ident a = ident b → key a = key b)
    (ids : List I) (all : ∀ r ∈ rows, ident r ∈ ids) : tables.length ≤ ids.length + 1 := by
  have subset : shown.map ident ⊆ ids := by
    intro i hi
    obtain ⟨s, hs, rfl⟩ := List.mem_map.mp hi
    obtain ⟨r, hr, _, he⟩ := h.shown_last chain rows last s hs
    exact he ▸ all r hr
  have shorter := (List.subperm_of_subset (h.nodup chain last apart) subset).length_le
  have pages := h.length_le
  rw [List.length_map] at shorter
  omega

end reads

end Keyset
