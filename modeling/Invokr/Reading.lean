import Mathlib.Data.List.Infix
import Mathlib.Data.List.TakeWhile

namespace TextLib

variable {s s' : String} {cs rest : List Char} {n : Nat}

/-- The text at the front, and what follows it. -/
def lit (s : String) (cs : List Char) : Option (List Char) :=
  if s.toList <+: cs then some (cs.drop s.toList.length) else none

/-- The number at the front, and what follows it. -/
def number (cs : List Char) : Option (Nat × List Char) :=
  if cs.takeWhile Char.isDigit = [] then none
  else some (Nat.ofDigitChars 10 (cs.takeWhile Char.isDigit) 0, cs.dropWhile Char.isDigit)

/-- The two texts differ before one of them ends. -/
def apart (s s' : String) : Bool := (s.toList.zip s'.toList).any fun p => decide (p.1 ≠ p.2)

/-- No digit stands at the front. -/
def Undigited (cs : List Char) : Prop := ∀ c, cs.head? = some c → c.isDigit = false

theorem lit_append (s : String) (rest : List Char) : lit s (s.toList ++ rest) = some rest := by
  rw [lit, if_pos (List.prefix_append _ _), List.drop_left']
  rfl

theorem lit_concat (s s' : String) (cs : List Char) : lit (s ++ s') cs = (lit s cs).bind (lit s') := by
  rw [lit, String.toList_append]
  by_cases h : s.toList <+: cs
  · obtain ⟨rest, rfl⟩ := h
    rw [lit_append, Option.bind_some, lit]
    by_cases h' : s'.toList <+: rest
    · rw [if_pos h', if_pos ((List.prefix_append_right_inj _).mpr h'), List.length_append, List.drop_append]
      simp
    · rw [if_neg h', if_neg fun whole => h' ((List.prefix_append_right_inj _).mp whole)]
  · have whole : ¬s.toList ++ s'.toList <+: cs := fun h' => h ((List.prefix_append _ _).trans h')
    rw [if_neg whole, lit, if_neg h]
    rfl

theorem apart_not_head {xs ys : List Char} (h : ((xs.zip ys).any fun p => decide (p.1 ≠ p.2)) = true) :
    ¬xs <+: ys ++ rest := by
  induction xs generalizing ys with
  | nil => cases h
  | cons x xs ih =>
    cases ys with
    | nil => cases h
    | cons y ys =>
      rintro ⟨tail, same⟩
      rw [List.zip_cons_cons, List.any_cons, Bool.or_eq_true] at h
      injection same with head tails
      rcases h with here | later
      · exact absurd head (of_decide_eq_true here)
      · exact ih later ⟨tail, tails⟩

theorem lit_apart (h : apart s s' = true) (rest : List Char) : lit s (s'.toList ++ rest) = none := by
  rw [lit, if_neg (apart_not_head h)]

theorem number_append (n : Nat) (h : Undigited rest) : number ((toString n).toList ++ rest) = some (n, rest) := by
  have digits : ∀ c ∈ Nat.toDigits 10 n, c.isDigit = true := fun c hc =>
    Nat.isDigit_of_mem_toDigits (by decide) (by decide) hc
  have text : (toString n).toList = Nat.toDigits 10 n := Nat.toList_repr
  have stops : rest.takeWhile Char.isDigit = [] ∧ rest.dropWhile Char.isDigit = rest := by
    cases rest with
    | nil => exact ⟨rfl, rfl⟩
    | cons c cs =>
      have stop : ¬c.isDigit = true := by simp [h c rfl]
      exact ⟨List.takeWhile_cons_of_neg stop, List.dropWhile_cons_of_neg stop⟩
  have front : (Nat.toDigits 10 n ++ rest).takeWhile Char.isDigit = Nat.toDigits 10 n := by
    rw [List.takeWhile_append_of_pos digits, stops.1, List.append_nil]
  have back : (Nat.toDigits 10 n ++ rest).dropWhile Char.isDigit = rest := by
    rw [List.dropWhile_append_of_pos digits, stops.2]
  have some_ : Nat.toDigits 10 n ≠ [] := Nat.toDigits_ne_nil
  rw [text, number, front, back, if_neg some_, Nat.ofDigitChars_ten_toDigits]

theorem undigited_append (h : (s.toList.head?.any fun c => !c.isDigit) = true) : Undigited (s.toList ++ rest) := by
  intro c hc
  cases hs : s.toList with
  | nil =>
    rw [hs] at h
    cases h
  | cons d ds =>
    rw [hs] at h hc
    cases hc
    simpa using h

theorem head_append {c : Char} (h : s.toList.head? = some c) : (s.toList ++ rest).head? = some c := by
  cases hs : s.toList with
  | nil =>
    rw [hs] at h
    cases h
  | cons d ds =>
    rw [hs] at h
    exact h

/-- A word ends where the character that it does not have stands. -/
theorem word_append {c : Char} (h : c ∉ s.toList) (stop : rest.head? = some c) :
    (s.toList ++ rest).takeWhile (· ≠ c) = s.toList ∧ (s.toList ++ rest).dropWhile (· ≠ c) = rest := by
  have inside : ∀ d ∈ s.toList, decide (d ≠ c) = true := by
    intro d hd
    have ne : d ≠ c := fun same => h (same ▸ hd)
    simpa using ne
  cases rest with
  | nil => cases stop
  | cons d ds =>
    cases stop
    rw [List.takeWhile_append_of_pos inside, List.dropWhile_append_of_pos inside]
    simp

end TextLib
