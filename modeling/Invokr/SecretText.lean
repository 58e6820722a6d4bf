import Invokr.SecretSpans
import Invokr.JsonbText

namespace Invokr

open TextLib

section seams

variable {pat s t : List Char} {c : Char}

/-- No occurrence of the pattern goes across the end of the text. -/
def Seamless (pat t : List Char) : Prop := ∀ rest, pat <:+: t ++ rest ↔ pat <:+: t ∨ pat <:+: rest

theorem Seamless.append (hs : Seamless pat s) (ht : Seamless pat t) : Seamless pat (s ++ t) := by
  intro rest
  rw [List.append_assoc, hs, ht, hs, or_assoc]

theorem infix_cons_unless (h : ¬pat <+: c :: s) : pat <:+: c :: s ↔ pat <:+: s := by
  rw [List.infix_cons_iff]
  exact or_iff_right h

/-- What the patterns under consideration have in common. -/
structure Marked (pat : List Char) : Prop where
  braces : ['\x7b', '\x7b'] <+: pat
  quote : '"' ∉ pat

variable (marked : Marked pat)
include marked

theorem Marked.not_nil : ¬pat <:+: [] := by
  intro h
  have hnil := marked.braces
  rw [List.infix_nil.mp h] at hnil
  exact absurd hnil (by decide)

theorem seamless_nil : Seamless pat [] := fun rest => by
  rw [List.nil_append, or_iff_right marked.not_nil]

theorem Marked.not_prefix (hc : c ≠ '\x7b') : ¬pat <+: c :: s := by
  intro h
  exact hc (List.cons_prefix_cons.mp (marked.braces.trans h)).1.symm

theorem seamless_char (hc : c ≠ '\x7b') : Seamless pat [c] ∧ ¬pat <:+: [c] := by
  have none : ¬pat <:+: [c] := by
    rw [infix_cons_unless (marked.not_prefix hc)]
    exact marked.not_nil
  refine ⟨fun rest => ?_, none⟩
  rw [or_iff_right none, List.singleton_append]
  exact infix_cons_unless (marked.not_prefix hc)

theorem seamless_plain (h : '\x7b' ∉ s) : Seamless pat s ∧ ¬pat <:+: s := by
  induction s with
  | nil => exact ⟨seamless_nil marked, marked.not_nil⟩
  | cons c s ih =>
    simp only [List.mem_cons, not_or] at h
    obtain ⟨hc, hs⟩ := h
    obtain ⟨seam, none⟩ := ih hs
    obtain ⟨seam', none'⟩ := seamless_char marked (Ne.symm hc)
    refine ⟨seam'.append seam, fun hmem => ?_⟩
    rcases (seam' s).mp hmem with h | h
    · exact none' h
    · exact none h

/-- The brace that opens an object does not begin a mark. -/
theorem seamless_open (hs : Seamless pat (c :: s)) (hc : c ≠ '\x7b') :
    Seamless pat ('\x7b' :: c :: s) ∧ (pat <:+: '\x7b' :: c :: s ↔ pat <:+: c :: s) := by
  have here : ∀ rest, ¬pat <+: '\x7b' :: c :: rest := by
    intro rest h
    have := (List.cons_prefix_cons.mp (List.cons_prefix_cons.mp (marked.braces.trans h)).2).1
    exact hc this.symm
  have one : pat <:+: '\x7b' :: c :: s ↔ pat <:+: c :: s := infix_cons_unless (here s)
  refine ⟨fun rest => ?_, one⟩
  rw [one, ← hs rest]
  exact infix_cons_unless (here (s ++ rest))

theorem seamless_quote (s : String) : Seamless pat (quote s) ∧ (pat <:+: quote s ↔ pat <:+: escape s.toList) := by
  have hquote : ∀ rest, quote s ++ rest = '"' :: (escape s.toList ++ '"' :: rest) := by
    intro rest
    simp [quote, escape]
  have stop : ∀ rest, pat <:+: quote s ++ rest ↔ pat <:+: escape s.toList ∨ pat <:+: rest := by
    intro rest
    rw [hquote, infix_cons_unless (marked.not_prefix (by decide)), infix_stop marked.quote]
  have whole := stop []
  rw [List.append_nil, or_iff_left marked.not_nil] at whole
  exact ⟨fun rest => by rw [stop, whole], whole⟩

theorem seamless_intercalate {sep : List Char} (hsep : '\x7b' ∉ sep) {l : List (List Char)}
    (h : ∀ p ∈ l, Seamless pat p) :
    Seamless pat (sep.intercalate l) ∧ (pat <:+: sep.intercalate l ↔ ∃ p ∈ l, pat <:+: p) := by
  induction l with
  | nil => exact ⟨seamless_nil marked, by simpa using marked.not_nil⟩
  | cons p pieces ih =>
    obtain ⟨seam, mem⟩ := ih fun q hq => h q (List.mem_cons_of_mem _ hq)
    have hp := h p List.mem_cons_self
    cases pieces with
    | nil => simpa [List.intercalate_singleton] using hp
    | cons q pieces =>
      obtain ⟨hsep, none⟩ := seamless_plain marked hsep
      rw [List.intercalate_cons_cons]
      refine ⟨(hp.append hsep).append seam, ?_⟩
      rw [List.append_assoc, hp, hsep, mem, or_iff_right none]
      simp

end seams

/-- What the two ways of writing a JSON value have in common. -/
structure Prints (pr : Json → List Char) : Prop where
  null : '\x7b' ∉ pr .null
  bool b : '\x7b' ∉ pr (.bool b)
  num n : '\x7b' ∉ pr (.num n)
  str s : pr (.str s) = quote s
  arr items : ∃ sep : List Char, '\x7b' ∉ sep ∧ pr (.arr items) = '[' :: (sep.intercalate (items.map pr) ++ [']'])
  obj fields : ∃ (sep colon : List Char) (pieces : List (List Char)), '\x7b' ∉ sep ∧ '\x7b' ∉ colon ∧
    pieces.Perm (fields.map fun f => quote f.1 ++ (colon ++ pr f.2)) ∧
      pr (.obj fields) = '\x7b' :: (sep.intercalate pieces ++ ['\x7d'])

theorem mem_stringsItems {items : List Json} {s : String} : s ∈ Json.stringsItems items ↔ ∃ j ∈ items, s ∈ j.strings := by
  induction items with
  | nil => simp [Json.stringsItems]
  | cons j items ih => simp [Json.stringsItems, ih]

theorem mem_stringsFields {fields : List (String × Json)} {s : String} :
    s ∈ Json.stringsFields fields ↔ ∃ f ∈ fields, s = f.1 ∨ s ∈ f.2.strings := by
  induction fields with
  | nil => simp [Json.stringsFields]
  | cons f fields ih => simp [Json.stringsFields, ih, or_assoc]

/-- A pattern that begins with two braces and has no quotation mark stands in the text of a value where it stands in
one of its strings. -/
theorem seamless_json {pat : List Char} (marked : Marked pat) {pr : Json → List Char} (prints : Prints pr) (j : Json) :
    Seamless pat (pr j) ∧ (pat <:+: pr j ↔ ∃ s ∈ j.strings, pat <:+: escape s.toList) := by
  have plain : ∀ {j : Json}, '\x7b' ∉ pr j → j.strings = [] →
      Seamless pat (pr j) ∧ (pat <:+: pr j ↔ ∃ s ∈ j.strings, pat <:+: escape s.toList) := by
    intro j hj hs
    obtain ⟨seam, none⟩ := seamless_plain marked hj
    refine ⟨seam, ?_⟩
    rw [hs]
    simpa using none
  match j with
  | .null => exact plain prints.null rfl
  | .bool b => exact plain (prints.bool b) rfl
  | .num n => exact plain (prints.num n) rfl
  | .str s =>
    rw [prints.str]
    obtain ⟨seam, mem⟩ := seamless_quote marked s
    exact ⟨seam, by simpa [Json.strings] using mem⟩
  | .arr items =>
    obtain ⟨sep, hsep, heq⟩ := prints.arr items
    have each : ∀ j ∈ items, Seamless pat (pr j) ∧ (pat <:+: pr j ↔ ∃ s ∈ j.strings, pat <:+: escape s.toList) :=
      fun j hj => seamless_json marked prints j
    obtain ⟨seam, mem⟩ := seamless_intercalate marked hsep (l := items.map pr) (by simpa using fun j hj => (each j hj).1)
    obtain ⟨hopen, nopen⟩ := seamless_char marked (show '[' ≠ '\x7b' by decide)
    obtain ⟨hclose, nclose⟩ := seamless_char marked (show ']' ≠ '\x7b' by decide)
    rw [heq, ← List.singleton_append]
    refine ⟨hopen.append (seam.append hclose), ?_⟩
    rw [hopen, seam, or_iff_right nopen, or_iff_left nclose, mem, Json.strings]
    simp only [List.mem_map, exists_exists_and_eq_and, mem_stringsItems]
    constructor
    · rintro ⟨j, hj, h⟩
      obtain ⟨s, hs, h⟩ := (each j hj).2.mp h
      exact ⟨s, ⟨j, hj, hs⟩, h⟩
    · rintro ⟨s, ⟨j, hj, hs⟩, h⟩
      exact ⟨j, hj, (each j hj).2.mpr ⟨s, hs, h⟩⟩
  | .obj fields =>
    obtain ⟨sep, colon, pieces, hsep, hcolon, perm, heq⟩ := prints.obj fields
    obtain ⟨hcol, ncol⟩ := seamless_plain marked hcolon
    have each : ∀ f ∈ fields, Seamless pat (pr f.2) ∧ (pat <:+: pr f.2 ↔ ∃ s ∈ f.2.strings, pat <:+: escape s.toList) :=
      fun f hf => seamless_json marked prints f.2
    have field : ∀ f ∈ fields, Seamless pat (quote f.1 ++ (colon ++ pr f.2)) ∧
        (pat <:+: quote f.1 ++ (colon ++ pr f.2) ↔ ∃ s, (s = f.1 ∨ s ∈ f.2.strings) ∧ pat <:+: escape s.toList) := by
      intro f hf
      obtain ⟨hkey, mkey⟩ := seamless_quote marked f.1
      refine ⟨hkey.append (hcol.append (each f hf).1), ?_⟩
      rw [hkey, hcol, or_iff_right ncol, mkey, (each f hf).2]
      simp only [or_and_right, exists_or, exists_eq_left]
    obtain ⟨seam, mem⟩ := seamless_intercalate marked hsep (l := pieces) fun p hp => by
      obtain ⟨f, hf, rfl⟩ := List.mem_map.mp (perm.mem_iff.mp hp)
      exact (field f hf).1
    obtain ⟨hclose, nclose⟩ := seamless_char marked (show '\x7d' ≠ '\x7b' by decide)
    have inner := seam.append hclose
    obtain ⟨c, rest, hc, hne⟩ : ∃ c rest, sep.intercalate pieces ++ ['\x7d'] = c :: rest ∧ c ≠ '\x7b' := by
      cases pieces with
      | nil => exact ⟨'\x7d', [], rfl, by decide⟩
      | cons p pieces =>
        obtain ⟨f, _, rfl⟩ := List.mem_map.mp (perm.mem_iff.mp List.mem_cons_self)
        cases pieces with
        | nil => exact ⟨'"', _, by rw [List.intercalate_singleton]; rfl, by decide⟩
        | cons q pieces => exact ⟨'"', _, by rw [List.intercalate_cons_cons]; rfl, by decide⟩
    rw [hc] at inner
    obtain ⟨hopen, mopen⟩ := seamless_open marked inner hne
    rw [heq, hc]
    refine ⟨hopen, ?_⟩
    rw [mopen, ← hc, seam, or_iff_left nclose, mem, Json.strings]
    simp only [mem_stringsFields]
    constructor
    · rintro ⟨p, hp, h⟩
      obtain ⟨f, hf, rfl⟩ := List.mem_map.mp (perm.mem_iff.mp hp)
      obtain ⟨s, hs, h⟩ := (field f hf).2.mp h
      exact ⟨s, ⟨f, hf, hs⟩, h⟩
    · rintro ⟨s, ⟨f, hf, hs⟩, h⟩
      exact ⟨_, perm.mem_iff.mpr (List.mem_map_of_mem hf), (field f hf).2.mpr ⟨s, hs, h⟩⟩
termination_by sizeOf j
decreasing_by
  · simp only [Json.arr.sizeOf_spec]
    have := List.sizeOf_lt_of_mem hj
    omega
  · simp only [Json.obj.sizeOf_spec]
    have := List.sizeOf_lt_of_mem hf
    obtain ⟨k, v⟩ := f
    simp only [Prod.mk.sizeOf_spec] at this ⊢
    omega

end Invokr
