import Invokr.FastPath

namespace Invokr

open TextLib

/-- What `load_secrets` looks for. -/
def secretMark : List Char := openMark ++ "secret.".toList

/-- The names that `load_secrets` requests for a spec. -/
def requestedSecrets (spec : Json) : List String := secretNames spec.chars.length spec.chars

/-- The names that `resolve` looks up in the namespace of the secrets. -/
def secretLookups (names : List (List Char)) : List String := names.filterMap (stripPrefix "secret.")

/-- A name that is in the text of a spec as it is in the spec, and that `trim` leaves alone. -/
def plainName (name : List Char) : Bool :=
  trimEnd name = name && name.all (fun c => escapeChar c = [c]) && (splitAt closeMark (name ++ ['\x7d'])).isNone

/-- The text between two marks: `secret.` and a plain name, or nothing that has to do with secrets. -/
def plainVariable (raw : List Char) : Bool :=
  match stripPrefix "secret." raw with
  | some name => plainName name.toList
  | none => (stripPrefix "secret." (trim raw)).isNone && (splitAt secretMark (openMark ++ raw)).isNone

/-- A `{{secret.` that is left open does no harm if no `}}` follows in the text. -/
def plainPieces : Nat → List Char → (follows : List Char) → Bool
  | 0, rest, _ => (splitAt secretMark rest).isNone
  | fuel + 1, rest, follows =>
    match splitAt openMark rest with
    | none => true
    | some (_, after) =>
      match splitAt closeMark after with
      | none => (splitAt secretMark rest).isNone || (splitAt closeMark follows).isNone
      | some (raw, tail) => plainVariable raw && plainPieces fuel tail follows

def plainString (s : String) (follows : List Char) : Bool :=
  match isSingleTemplate s.toList with
  | some _ => plainVariable (((trim s.toList).drop 2).take ((trim s.toList).length - 4))
  | none => plainPieces s.length s.toList follows

mutual

/-- Every variable that a string of the spec names is plain, and no string leaves a `{{secret.` open
that the rest of the spec's text closes. -/
def plainIn : Json → (follows : List Char) → Bool
  | .str s, follows => plainString s follows
  | .arr items, follows => plainItems items (']' :: follows)
  | .obj fields, follows => plainFields fields ('\x7d' :: follows)
  | _, _ => true

def plainItems : List Json → (follows : List Char) → Bool
  | [], _ => true
  | [j], follows => plainIn j follows
  | j :: rest, follows => plainIn j (',' :: (Json.charsItems rest ++ follows)) && plainItems rest follows

def plainFields : List (String × Json) → (follows : List Char) → Bool
  | [], _ => true
  | [(k, v)], follows => plainString k (':' :: (v.chars ++ follows)) && plainIn v follows
  | (k, v) :: rest, follows =>
    plainString k (':' :: (v.chars ++ ',' :: (Json.charsFields rest ++ follows))) &&
      (plainIn v (',' :: (Json.charsFields rest ++ follows)) && plainFields rest follows)

end

def plainSpec (spec : Json) : Bool := plainIn spec []

section escapes

def escape (s : List Char) : List Char := s.flatMap escapeChar

variable {s t : List Char} {c d : Char}

theorem escape_append (s t : List Char) : escape (s ++ t) = escape s ++ escape t := List.flatMap_append

theorem escape_cons (c : Char) (s : List Char) : escape (c :: s) = escapeChar c ++ escape s := rfl

/-- A character is written as it is or behind a backslash, and never as a brace. -/
theorem escapeChar_cases (c : Char) :
    escapeChar c = [c] ∨ ∃ esc, escapeChar c = '\\' :: esc ∧ '\x7b' ∉ '\\' :: esc ∧ '\x7d' ∉ '\\' :: esc := by
  have digit : ∀ n, n < 16 → hexDigit n ≠ '\x7b' ∧ hexDigit n ≠ '\x7d' := by
    intro n hn
    have hmem : n ∈ List.range 16 := List.mem_range.mpr hn
    clear hn
    revert n
    decide
  unfold escapeChar
  split
  next => exact Or.inr ⟨_, rfl, by decide, by decide⟩
  next =>
  split
  next => exact Or.inr ⟨_, rfl, by decide, by decide⟩
  next =>
  split
  next => exact Or.inr ⟨_, rfl, by decide, by decide⟩
  next =>
  split
  next => exact Or.inr ⟨_, rfl, by decide, by decide⟩
  next =>
  split
  next => exact Or.inr ⟨_, rfl, by decide, by decide⟩
  next =>
  split
  next => exact Or.inr ⟨_, rfl, by decide, by decide⟩
  next =>
  split
  next => exact Or.inr ⟨_, rfl, by decide, by decide⟩
  next =>
  split
  next hlt =>
    have hdiv := digit (c.toNat / 16) (by omega)
    have hmod := digit (c.toNat % 16) (by omega)
    refine Or.inr ⟨_, rfl, fun hmem => ?_, fun hmem => ?_⟩
    · simp only [List.mem_cons, List.not_mem_nil, or_false] at hmem
      rcases hmem with h | h | h | h | h | h
      · exact absurd h (by decide)
      · exact absurd h (by decide)
      · exact absurd h (by decide)
      · exact absurd h (by decide)
      · exact hdiv.1 h.symm
      · exact hmod.1 h.symm
    · simp only [List.mem_cons, List.not_mem_nil, or_false] at hmem
      rcases hmem with h | h | h | h | h | h
      · exact absurd h (by decide)
      · exact absurd h (by decide)
      · exact absurd h (by decide)
      · exact absurd h (by decide)
      · exact hdiv.2 h.symm
      · exact hmod.2 h.symm
  next => exact Or.inl rfl

theorem escape_plain (h : s.all (fun c => escapeChar c = [c]) = true) : escape s = s := by
  induction s with
  | nil => rfl
  | cons c s ih =>
    simp only [List.all_cons, Bool.and_eq_true, decide_eq_true_eq] at h
    rw [escape_cons, h.1, ih h.2]
    rfl

theorem escape_length (s : List Char) : s.length ≤ (escape s).length := by
  induction s with
  | nil => exact Nat.le_refl _
  | cons c s ih =>
    rw [escape_cons, List.length_append, List.length_cons]
    rcases escapeChar_cases c with h | ⟨esc, h, _⟩
    · rw [h, List.length_singleton]
      omega
    · rw [h, List.length_cons]
      omega

/-- A text as long as its escaped form has nothing to escape. -/
theorem plain_of_length (h : (escape s).length = s.length) : s.all (fun c => escapeChar c = [c]) = true := by
  induction s with
  | nil => rfl
  | cons c s ih =>
    have hle := escape_length s
    rw [escape_cons, List.length_append, List.length_cons] at h
    rcases escapeChar_cases c with hc | ⟨esc, hc, _⟩
    · rw [hc, List.length_singleton] at h
      simp only [List.all_cons, Bool.and_eq_true, decide_eq_true_eq]
      exact ⟨hc, ih (by omega)⟩
    · have hesc : esc ≠ [] := by
        rintro rfl
        revert hc
        unfold escapeChar
        repeat' split
        all_goals simp
        rintro rfl
        contradiction
      have hpos : 0 < esc.length := List.length_pos_of_ne_nil hesc
      rw [hc, List.length_cons] at h
      omega

theorem prefix_of_escape {pat : List Char} (hpat : '\\' ∉ pat) (h : pat <+: escape s) : pat <+: s := by
  induction s generalizing pat with
  | nil => exact h
  | cons c s ih =>
    cases pat with
    | nil => exact List.nil_prefix
    | cons p pat =>
      rw [escape_cons] at h
      rcases escapeChar_cases c with hc | ⟨esc, hc, _⟩
      · rw [hc] at h
        obtain ⟨rfl, hrest⟩ := List.cons_prefix_cons.mp h
        exact List.cons_prefix_cons.mpr ⟨rfl, ih (fun hmem => hpat (List.mem_cons_of_mem _ hmem)) hrest⟩
      · rw [hc] at h
        have hp := (List.cons_prefix_cons.mp h).1
        exact (hpat (hp ▸ List.mem_cons_self)).elim

/-- Escaping a text brings in no pattern that starts with a brace. -/
theorem avoids_escape {p : Char} {pat : List Char} (hp : p = '\x7b' ∨ p = '\x7d') (hpat : '\\' ∉ p :: pat)
    (h : Avoids (p :: pat) s []) : Avoids (p :: pat) (escape s) [] := by
  induction s with
  | nil => trivial
  | cons c s ih =>
    rw [escape_cons]
    refine avoids_append.mpr ⟨?_, ih h.2⟩
    rw [List.append_nil]
    rcases escapeChar_cases c with hc | ⟨esc, hc, hopen, hclose⟩
    · rw [hc]
      refine ⟨fun hpre => h.1 ?_, trivial⟩
      rw [List.append_nil]
      obtain ⟨he, hrest⟩ := List.cons_prefix_cons.mp hpre
      exact List.cons_prefix_cons.mpr ⟨he, prefix_of_escape (fun hmem => hpat (List.mem_cons_of_mem _ hmem)) hrest⟩
    · rw [hc]
      refine avoids_head ?_
      rcases hp with rfl | rfl
      · exact hopen
      · exact hclose

theorem escape_brace {b : Char} (hb : b = '\x7b' ∨ b = '\x7d') (h : b ∉ s) : b ∉ escape s := by
  induction s with
  | nil => exact h
  | cons c s ih =>
    simp only [List.mem_cons, not_or] at h
    rw [escape_cons, List.mem_append, not_or]
    refine ⟨?_, ih h.2⟩
    rcases escapeChar_cases c with hc | ⟨esc, hc, hopen, hclose⟩
    · rw [hc, List.mem_singleton]
      exact h.1
    · rw [hc]
      rcases hb with rfl | rfl
      · exact hopen
      · exact hclose

theorem brace_escape (h : '\x7b' ∉ s) : '\x7b' ∉ escape s := escape_brace (Or.inl rfl) h

end escapes

end Invokr
