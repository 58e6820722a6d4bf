import Mathlib.Data.List.Basic

namespace Civil

/-- The day of a year that begins in March, by the number of days since 1970-01-01. The years are
taken in turns of 400, of which the last century, and in it the last four years, are the longest. -/
def yearDay (z : Int) : Nat :=
  let era := ((z + 719468) % 146097).toNat
  let century := era - 36524 * min (era / 36524) 3
  let years := century % 1461
  years - 365 * min (years / 365) 3

/-- The month and the day of the month. -/
def date (z : Int) : Nat × Nat :=
  let mp := (5 * yearDay z + 2) / 153
  (if mp < 10 then mp + 3 else mp - 9, yearDay z - (153 * mp + 2) / 5 + 1)

/-- The day of the week, with Sunday as 0. -/
def weekday (z : Int) : Nat := ((z + 4) % 7).toNat

/-- The number of days from 1970-01-01 to a date of the year `2000 + k`. -/
def daysTo (k m d : Nat) : Nat :=
  let y := if m ≤ 2 then 1999 + k else 2000 + k
  let mp := if m ≤ 2 then m + 9 else m - 3
  365 * y + y / 4 - y / 100 + y / 400 + ((153 * mp + 2) / 5 + d - 1) - 719468

/-- The days a month has in some year. -/
def monthLength (m : Nat) : Nat := if m = 2 then 29 else if m = 4 ∨ m = 6 ∨ m = 9 ∨ m = 11 then 30 else 31

example : date 0 = (1, 1) ∧ weekday 0 = 4 ∧ date 19782 = (2, 29) ∧ weekday 19782 = 4 := by decide

theorem yearDay_le (z : Int) : yearDay z ≤ 365 := by
  have hlt : ((z + 719468) % 146097).toNat % 1461 < 1461 := Nat.mod_lt _ (by decide)
  unfold yearDay
  simp only
  omega

theorem date_valid (z : Int) : (1 ≤ (date z).1 ∧ (date z).1 ≤ 12) ∧ 1 ≤ (date z).2 ∧ (date z).2 ≤ monthLength (date z).1 := by
  have valid : ∀ n ≤ 365, (1 ≤ (if (5 * n + 2) / 153 < 10 then (5 * n + 2) / 153 + 3 else (5 * n + 2) / 153 - 9) ∧
      (if (5 * n + 2) / 153 < 10 then (5 * n + 2) / 153 + 3 else (5 * n + 2) / 153 - 9) ≤ 12) ∧
      1 ≤ n - (153 * ((5 * n + 2) / 153) + 2) / 5 + 1 ∧ n - (153 * ((5 * n + 2) / 153) + 2) / 5 + 1 ≤
        monthLength (if (5 * n + 2) / 153 < 10 then (5 * n + 2) / 153 + 3 else (5 * n + 2) / 153 - 9) := by decide +kernel
  exact valid _ (yearDay_le z)

/-- In 28 years every date falls on every day of the week. -/
def everyWeekday (m d : Nat) : Bool :=
  let years := (List.range 28).filter fun k => date (daysTo k m d) = (m, d)
  (List.range 7).all fun w => years.any fun k => weekday (daysTo k m d) = w

theorem everyWeekday_all : ((List.range 13).drop 1).all (fun m => ((List.range (monthLength m + 1)).drop 1).all
    (everyWeekday m)) = true := by decide +kernel

theorem date_occurs {m d w : Nat} (hm : 1 ≤ m ∧ m ≤ 12) (hd : 1 ≤ d ∧ d ≤ monthLength m) (hw : w < 7) :
    ∃ z : Int, date z = (m, d) ∧ weekday z = w := by
  have mem : ∀ {n b : Nat}, 1 ≤ n → n < b → n ∈ (List.range b).drop 1 := by
    intro n b h h'
    rw [List.mem_drop_iff_getElem]
    refine ⟨n - 1, by simp; omega, by simp; omega⟩
  have hall := List.all_eq_true.mp (List.all_eq_true.mp everyWeekday_all m (mem hm.1 (by omega))) d (mem hd.1 (by omega))
  obtain ⟨k, hk, hwk⟩ := List.any_eq_true.mp (List.all_eq_true.mp hall w (List.mem_range.mpr hw))
  exact ⟨daysTo k m d, of_decide_eq_true (List.mem_filter.mp hk).2, of_decide_eq_true hwk⟩

/-- The calendar repeats itself after 400 years. -/
theorem date_add (z : Int) (k : Nat) : date (z + 146097 * k) = date z ∧ weekday (z + 146097 * k) = weekday z := by
  have hera : (z + 146097 * (k : Int) + 719468) % 146097 = (z + 719468) % 146097 := by omega
  have hday : yearDay (z + 146097 * k) = yearDay z := by simp only [yearDay, hera]
  refine ⟨by simp only [date, hday], ?_⟩
  have hweek : (z + 146097 * (k : Int) + 4) % 7 = (z + 4) % 7 := by omega
  simp only [weekday, hweek]

end Civil
