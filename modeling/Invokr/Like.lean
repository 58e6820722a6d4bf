import Mathlib.Data.List.Infix

namespace TextLib

/-- A part of the pattern of a `LIKE`. -/
inductive Wild where
  | any
  | one
  | lit (c : Char)
  deriving DecidableEq, Repr

/-- The parts of a pattern; the escape character is the backslash. A pattern that ends with it has no meaning. -/
def wilds : List Char → List Wild
  | [] => []
  | c :: rest =>
    if c = '%' then .any :: wilds rest
    else if c = '_' then .one :: wilds rest
    else if c = '\\' then
      match rest with
      | [] => []
      | d :: rest => .lit d :: wilds rest
    else .lit c :: wilds rest

/-- The escape character is followed by a character everywhere in the pattern. -/
def wellFormed : List Char → Bool
  | [] => true
  | c :: rest =>
    if c = '\\' then
      match rest with
      | [] => false
      | _ :: rest => wellFormed rest
    else wellFormed rest

section fits

variable {β : Type} [DecidableEq β] {f : Char → β}

/-- The whole text is of the form of the pattern; characters count as equal when `f` takes them to the same. -/
def fits (f : Char → β) : List Wild → List Char → Bool
  | [], s => s.isEmpty
  | .any :: p, s => s.tails.any (fits f p)
  | .one :: _, [] => false
  | .one :: p, _ :: s => fits f p s
  | .lit _ :: _, [] => false
  | .lit c :: p, d :: s => f c = f d && fits f p s

variable {p q : List Wild} {s t l : List Char}

theorem fits_any : fits f (.any :: p) s = true ↔ ∃ a b, s = a ++ b ∧ fits f p b = true := by
  simp only [fits, List.any_eq_true, List.mem_tails]
  constructor
  · rintro ⟨b, ⟨a, rfl⟩, h⟩
    exact ⟨a, b, rfl, h⟩
  · rintro ⟨a, b, rfl, h⟩
    exact ⟨b, List.suffix_append a b, h⟩

theorem fits_append : fits f (p ++ q) s = true ↔ ∃ a b, s = a ++ b ∧ fits f p a = true ∧ fits f q b = true := by
  induction p generalizing s with
  | nil =>
    constructor
    · exact fun h => ⟨[], s, rfl, rfl, h⟩
    · rintro ⟨a, b, rfl, ha, hb⟩
      rw [fits, List.isEmpty_iff] at ha
      rw [ha]
      exact hb
  | cons w p ih =>
    cases w with
    | any =>
      rw [List.cons_append, fits_any]
      constructor
      · rintro ⟨a, b, rfl, h⟩
        obtain ⟨c, d, rfl, hc, hd⟩ := ih.mp h
        exact ⟨a ++ c, d, (List.append_assoc _ _ _).symm, fits_any.mpr ⟨a, c, rfl, hc⟩, hd⟩
      · rintro ⟨a, b, rfl, ha, hb⟩
        obtain ⟨c, d, rfl, hd⟩ := fits_any.mp ha
        exact ⟨c, d ++ b, List.append_assoc _ _ _, ih.mpr ⟨d, b, rfl, hd, hb⟩⟩
    | one =>
      cases s with
      | nil =>
        refine iff_of_false (by simp [fits]) ?_
        rintro ⟨a, b, hs, ha, _⟩
        rw [(List.append_eq_nil_iff.mp hs.symm).1] at ha
        cases ha
      | cons c s =>
        rw [List.cons_append, fits, ih]
        constructor
        · rintro ⟨a, b, rfl, ha, hb⟩
          exact ⟨c :: a, b, rfl, ha, hb⟩
        · rintro ⟨a, b, hs, ha, hb⟩
          cases a with
          | nil => cases ha
          | cons d a =>
            obtain ⟨rfl, rfl⟩ := List.cons.inj hs
            exact ⟨a, b, rfl, ha, hb⟩
    | lit e =>
      cases s with
      | nil =>
        refine iff_of_false (by simp [fits]) ?_
        rintro ⟨a, b, hs, ha, _⟩
        rw [(List.append_eq_nil_iff.mp hs.symm).1] at ha
        cases ha
      | cons c s =>
        rw [List.cons_append, fits, Bool.and_eq_true, ih]
        constructor
        · rintro ⟨he, a, b, rfl, ha, hb⟩
          exact ⟨c :: a, b, rfl, by rw [fits, he, ha]; rfl, hb⟩
        · rintro ⟨a, b, hs, ha, hb⟩
          cases a with
          | nil => cases ha
          | cons d a =>
            obtain ⟨rfl, rfl⟩ := List.cons.inj hs
            obtain ⟨he, ha⟩ := Bool.and_eq_true_iff.mp ha
            exact ⟨he, a, b, rfl, ha, hb⟩

theorem fits_lits : fits f (l.map .lit) s = true ↔ s.map f = l.map f := by
  induction l generalizing s with
  | nil => simp [fits]
  | cons c l ih =>
    cases s with
    | nil => simp [fits]
    | cons d s =>
      rw [List.map_cons, fits, Bool.and_eq_true, decide_eq_true_iff, ih, List.map_cons, List.map_cons, List.cons.injEq]
      exact and_congr_left' eq_comm

/-- `LIKE '%' || … || '%'` with a literal text between asks for an infix. -/
theorem fits_infix : fits f (.any :: (l.map .lit ++ [.any])) s = true ↔ l.map f <:+: s.map f := by
  rw [fits_any]
  constructor
  · rintro ⟨a, b, rfl, h⟩
    obtain ⟨c, d, rfl, hc, _⟩ := fits_append.mp h
    refine ⟨a.map f, d.map f, ?_⟩
    rw [List.map_append, List.map_append, fits_lits.mp hc, List.append_assoc]
  · rintro ⟨a, b, h⟩
    obtain ⟨ac, d, rfl, hac, rfl⟩ := List.map_eq_append_iff.mp h.symm
    obtain ⟨a', c, rfl, rfl, hc⟩ := List.map_eq_append_iff.mp hac
    refine ⟨a', c ++ d, List.append_assoc _ _ _, fits_append.mpr ⟨c, d, rfl, fits_lits.mpr hc, fits_any.mpr ⟨d, [], ?_, rfl⟩⟩⟩
    rw [List.append_nil]

end fits

def isWild (c : Char) : Bool := c = '%' || c = '_' || c = '\\'

theorem wilds_lit {c : Char} {s : List Char} (h : isWild c = false) : wilds (c :: s) = .lit c :: wilds s := by
  simp only [isWild, Bool.or_eq_false_iff, decide_eq_false_iff_not] at h
  obtain ⟨⟨hany, hone⟩, hesc⟩ := h
  rw [wilds.eq_def]
  simp only [hany, hone, hesc, ↓reduceIte]

theorem wilds_percent (s : List Char) : wilds ('%' :: s) = .any :: wilds s := by
  rw [wilds.eq_def]
  rfl

theorem wellFormed_percent (s : List Char) : wellFormed ('%' :: s) = wellFormed s := by
  rw [wellFormed.eq_def]
  rfl

theorem wellFormed_lit {c : Char} {s : List Char} (h : isWild c = false) : wellFormed (c :: s) = wellFormed s := by
  simp only [isWild, Bool.or_eq_false_iff, decide_eq_false_iff_not] at h
  rw [wellFormed.eq_def]
  simp only [h.2, ↓reduceIte]

theorem wellFormed_escaped (c : Char) (s : List Char) : wellFormed ('\\' :: c :: s) = wellFormed s := by
  rw [wellFormed.eq_def]
  rfl

theorem wilds_escaped (c : Char) (s : List Char) : wilds ('\\' :: c :: s) = .lit c :: wilds s := by
  rw [wilds.eq_def]
  rfl

theorem wilds_lits {l s : List Char} (h : l.all (fun c => !isWild c) = true) : wilds (l ++ s) = l.map .lit ++ wilds s := by
  induction l with
  | nil => rfl
  | cons c l ih =>
    simp only [List.all_cons, Bool.and_eq_true, Bool.not_eq_true'] at h
    rw [List.cons_append, wilds_lit h.1, ih h.2]
    rfl

section cut

variable {c : Char} (hc : isWild c = false)
include hc

/-- A pattern may be cut behind a character that is not special. -/
theorem wilds_cut (s t : List Char) : wilds (s ++ c :: t) = wilds (s ++ [c]) ++ wilds t := by
  match s with
  | [] => rw [List.nil_append, List.nil_append, wilds_lit hc, wilds_lit hc, wilds, List.singleton_append]
  | d :: s =>
    have ih := wilds_cut s t
    rw [List.cons_append, List.cons_append, wilds.eq_def (d :: (s ++ c :: t)), wilds.eq_def (d :: (s ++ [c]))]
    simp only
    split
    next => rw [ih, List.cons_append]
    next =>
      split
      next => rw [ih, List.cons_append]
      next =>
        split
        next =>
          match s with
          | [] => rfl
          | e :: s => exact congrArg (Wild.lit e :: ·) (wilds_cut s t)
        next => rw [ih, List.cons_append]

/-- What a pattern says of the last character it names. -/
theorem wilds_last (s : List Char) : ∃ p, wilds (s ++ [c]) = p ++ [.lit c] := by
  match s with
  | [] => exact ⟨[], by rw [List.nil_append, wilds_lit hc, wilds, List.nil_append]⟩
  | d :: s =>
    obtain ⟨p, ih⟩ := wilds_last s
    rw [List.cons_append, wilds.eq_def (d :: (s ++ [c]))]
    simp only
    split
    next => exact ⟨.any :: p, by rw [ih, List.cons_append]⟩
    next =>
      split
      next => exact ⟨.one :: p, by rw [ih, List.cons_append]⟩
      next =>
        split
        next =>
          match s with
          | [] => exact ⟨[], rfl⟩
          | e :: s =>
            obtain ⟨q, hq⟩ := wilds_last s
            exact ⟨.lit e :: q, congrArg (Wild.lit e :: ·) hq⟩
        next => exact ⟨.lit d :: p, by rw [ih, List.cons_append]⟩

end cut

/-- A pattern without the escape character is of its own form. -/
theorem fits_self {s : List Char} (h : '\\' ∉ s) : fits id (wilds s) s = true := by
  induction s with
  | nil => rfl
  | cons c s ih =>
    simp only [List.mem_cons, not_or] at h
    have hs := ih h.2
    rw [wilds.eq_def]
    simp only
    split
    next => exact fits_any.mpr ⟨[c], s, rfl, hs⟩
    next =>
      split
      next => exact hs
      next =>
        split
        next he => exact absurd he.symm h.1
        next => simpa [fits] using hs

end TextLib
