import Invokr.Listing

namespace Invokr

open TextLib

section escape

theorem escapeLike_cons (c : Char) (s : List Char) :
    Jobs.escapeLike (c :: s) = (if isWild c = true then ['\\', c] else [c]) ++ Jobs.escapeLike s := by
  have same : (c = '\\' || c = '%' || c = '_') = isWild c := by
    simp only [isWild, Bool.or_assoc]
    rw [Bool.or_comm, Bool.or_assoc]
  rw [Jobs.escapeLike, same]
  split <;> rfl

/-- Every character of the escaped text stands for itself. -/
theorem wilds_escapeLike (s t : List Char) : wilds (Jobs.escapeLike s ++ t) = s.map .lit ++ wilds t := by
  induction s with
  | nil => rfl
  | cons c s ih =>
    rw [escapeLike_cons, List.append_assoc, List.map_cons, List.cons_append, ← ih]
    cases hc : isWild c with
    | true => exact wilds_escaped c _
    | false => exact wilds_lit hc

/-- No escape character of the escaped text is left without its character. -/
theorem wellFormed_escapeLike (s t : List Char) : wellFormed (Jobs.escapeLike s ++ t) = wellFormed t := by
  induction s with
  | nil => rfl
  | cons c s ih =>
    rw [escapeLike_cons, List.append_assoc]
    cases hc : isWild c with
    | true => exact (wellFormed_escaped c _).trans ih
    | false => exact (wellFormed_lit hc).trans ih

theorem wilds_between (s : List Char) : wilds ('%' :: Jobs.escapeLike s ++ ['%']) = .any :: (s.map .lit ++ [.any]) := by
  have front : wilds ('%' :: (Jobs.escapeLike s ++ ['%'])) = .any :: wilds (Jobs.escapeLike s ++ ['%']) := wilds_percent _
  rw [List.cons_append, front, wilds_escapeLike]
  rfl

end escape

/-- Between two `%` the escaped text is a pattern, which the texts fit that contain the text: as it is for `LIKE`, and
up to the case of single characters for `ILIKE`. -/
theorem escaped_substring (s x : String) : wellFormed ('%' :: Jobs.escapeLike s.toList ++ ['%']) = true ∧
    (fits id (wilds ('%' :: Jobs.escapeLike s.toList ++ ['%'])) x.toList = true ↔ s.toList <:+: x.toList) ∧
      ∀ pg : PgRules, Jobs.ilike pg x ('%' :: Jobs.escapeLike s.toList ++ ['%']) = true ↔
        s.toList.map pg.lower <:+: x.toList.map pg.lower := by
  refine ⟨?_, ?_, fun pg => ?_⟩
  · have front : wellFormed ('%' :: (Jobs.escapeLike s.toList ++ ['%'])) = wellFormed (Jobs.escapeLike s.toList ++ ['%']) :=
      wellFormed_percent _
    rw [List.cons_append, front, wellFormed_escapeLike]
    rfl
  · rw [wilds_between, fits_infix, List.map_id, List.map_id]
  · rw [Jobs.ilike, wilds_between, fits_infix]

example : wilds ('%' :: Jobs.escapeLike "50%\\_".toList ++ ['%']) =
    [.any, .lit '5', .lit '0', .lit '%', .lit '\\', .lit '_', .any] := by decide

end Invokr
