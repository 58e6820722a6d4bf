import Invokr.Calendar
import Mathlib.Order.Monotone.Basic
import Mathlib.Algebra.Order.SuccPred
import Mathlib.Tactic.SplitIfs
import Mathlib.Tactic.IntervalCases
import Mathlib.Tactic.Ring
import Mathlib.Algebra.Order.Ring.Int
import Mathlib.Data.Int.ConditionallyCompleteOrder

namespace Civil

/-- The year that began last March. -/
def marchYear (z : Int) : Int :=
  let era := ((z + 719468) % 146097).toNat
  let century := era - 36524 * min (era / 36524) 3
  400 * ((z + 719468) / 146097) + (100 * min (era / 36524) 3 + 4 * (century / 1461) + min (century % 1461 / 365) 3 : Nat)

def year (z : Int) : Int := marchYear z + if (date z).1 ≤ 2 then 1 else 0

/-- The number of days from 1970-01-01 to a date. -/
def dayNumber (y : Int) (m d : Nat) : Int :=
  let y := if m ≤ 2 then y - 1 else y
  let mp := if m ≤ 2 then m + 9 else m - 3
  365 * y + y / 4 - y / 100 + y / 400 + ((153 * mp + 2) / 5 + d : Nat) - 719469

def isLeap (y : Int) : Prop := y % 4 = 0 ∧ (y % 100 ≠ 0 ∨ y % 400 = 0)

instance : DecidablePred isLeap := fun y => inferInstanceAs (Decidable (y % 4 = 0 ∧ (y % 100 ≠ 0 ∨ y % 400 = 0)))

/-- The days of a month. -/
def monthDays (y : Int) (m : Nat) : Nat :=
  if m = 2 then (if isLeap y then 29 else 28) else if m = 4 ∨ m = 6 ∨ m = 9 ∨ m = 11 then 30 else 31

/-- A day by its year of 400, the century, the four years and the year in these. -/
theorem year_parts (z : Int) : ∃ a : Int, ∃ q c d n : Nat, q ≤ 3 ∧ d ≤ 3 ∧ 4 * c + d ≤ 99 ∧ marchYear z = 400 * a + 100 * q + 4 * c + d ∧
    yearDay z = n ∧ z + 719468 = 146097 * a + 36524 * q + 1461 * c + 365 * d + n ∧
    (n < 365 ∨ n = 365 ∧ d = 3 ∧ (c < 24 ∨ q = 3)) := by
  have era : (((z + 719468) % 146097).toNat : Int) = (z + 719468) % 146097 := Int.toNat_of_nonneg (by omega)
  unfold marchYear yearDay
  simp only
  generalize he : ((z + 719468) % 146097).toNat = e at *
  have bound : e < 146097 := by omega
  generalize hq : min (e / 36524) 3 = q
  have left : e - 36524 * q ≤ 36524 ∧ (q < 3 → e - 36524 * q < 36524) ∧ 36524 * q ≤ e := by omega
  generalize hr : e - 36524 * q = r at *
  have years : r / 1461 ≤ 24 ∧ r = 1461 * (r / 1461) + r % 1461 ∧ r % 1461 < 1461 := by omega
  generalize r / 1461 = c at *
  generalize r % 1461 = w at *
  generalize hd : min (w / 365) 3 = d
  have days : 365 * d ≤ w ∧ w - 365 * d ≤ 365 ∧ (w - 365 * d = 365 → d = 3) := by omega
  refine ⟨(z + 719468) / 146097, q, c, d, w - 365 * d, by omega, by omega, by omega, by omega, rfl, ?_, ?_⟩
  · omega
  · omega

theorem marchYear_day (z : Int) : z = 365 * marchYear z + marchYear z / 4 - marchYear z / 100 + marchYear z / 400 + yearDay z - 719468 := by
  obtain ⟨a, q, c, d, n, hq, hd, hc, hy, hn, hz, -⟩ := year_parts z
  have fours : marchYear z / 4 = 100 * a + 25 * q + c := by omega
  have hundreds : marchYear z / 100 = 4 * a + q := by omega
  have eras : marchYear z / 400 = a := by omega
  rw [fours, hundreds, eras, hy, hn]
  omega

/-- A year has a last of its 366 days if it ends in a leap February. -/
theorem yearDay_leap (z : Int) (h : yearDay z = 365) : isLeap (marchYear z + 1) := by
  obtain ⟨a, q, c, d, n, hq, -, hc, hy, hn, -, last⟩ := year_parts z
  rw [hn] at h
  rcases last with short | ⟨-, hd, full⟩
  · omega
  have next : marchYear z + 1 = 400 * a + 100 * q + 4 * (c + 1) := by
    rw [hy, hd]
    push_cast
    ring
  rw [next]
  clear hy next hn h
  refine ⟨by omega, ?_⟩
  rcases full with inner | era
  · exact Or.inl (by omega)
  · by_cases inner : c < 24
    · exact Or.inl (by omega)
    · exact Or.inr (by omega)

theorem dayNumber_date (z : Int) : dayNumber (year z) (date z).1 (date z).2 = z := by
  have day := marchYear_day z
  have le := yearDay_le z
  unfold dayNumber year date
  generalize yearDay z = n at *
  generalize marchYear z = y at *
  simp only
  have table : (5 * n + 2) / 153 ≤ 11 := by omega
  generalize hmp : (5 * n + 2) / 153 = mp at *
  split_ifs <;> omega

theorem date_two {z : Int} (h : (date z).1 = 2) : year z = marchYear z + 1 ∧ (date z).2 + 336 = yearDay z := by
  have le := yearDay_le z
  refine ⟨by rw [year, if_pos (by omega)], ?_⟩
  unfold date at h ⊢
  simp only at h ⊢
  generalize yearDay z = n at *
  generalize hmp : (5 * n + 2) / 153 = mp at *
  split_ifs at h <;> omega

/-- A day of a month is one of the days that the month has in its year. -/
theorem day_le (z : Int) : 1 ≤ (date z).2 ∧ (date z).2 ≤ monthDays (year z) (date z).1 := by
  obtain ⟨-, first, last⟩ := date_valid z
  refine ⟨first, ?_⟩
  unfold monthLength at last
  unfold monthDays
  by_cases two : (date z).1 = 2
  · obtain ⟨hy, hd⟩ := date_two two
    rw [if_pos two] at last ⊢
    split
    next => exact last
    next short =>
      have day : yearDay z ≠ 365 := fun h => short (hy ▸ yearDay_leap z h)
      have le := yearDay_le z
      omega
  · rw [if_neg two] at last ⊢
    exact last

theorem dayNumber_add (y : Int) (m d k : Nat) : dayNumber y m (d + k) = dayNumber y m d + k := by
  unfold dayNumber
  simp only
  push_cast
  omega

theorem leap_day (y : Int) : y / 4 - y / 100 + y / 400 =
    (y - 1) / 4 - (y - 1) / 100 + (y - 1) / 400 + if isLeap y then 1 else 0 := by
  have fours : y / 4 = (y - 1) / 4 + if y % 4 = 0 then 1 else 0 := by
    split <;> omega
  have hundreds : y / 100 = (y - 1) / 100 + if y % 100 = 0 then 1 else 0 := by
    split <;> omega
  have eras : y / 400 = (y - 1) / 400 + if y % 400 = 0 then 1 else 0 := by
    split <;> omega
  rw [fours, hundreds, eras]
  unfold isLeap
  split_ifs <;> omega

/-- A month begins after the last day of the month before. -/
theorem next_month (y : Int) {m : Nat} (h : 1 ≤ m ∧ m ≤ 11) : dayNumber y (m + 1) 1 = dayNumber y m 1 + monthDays y m := by
  obtain ⟨low, high⟩ := h
  have leap := leap_day y
  unfold dayNumber monthDays
  by_cases feb : m = 2
  · subst feb
    simp only [Nat.reduceAdd, Nat.reduceLeDiff, if_false, if_true, Nat.reduceMul, Nat.reduceDiv, Nat.reduceSub]
    split_ifs at leap ⊢
    · omega
    · omega
  · rw [if_neg feb]
    interval_cases m <;> simp <;> omega

theorem next_year (y : Int) : dayNumber (y + 1) 1 1 = dayNumber y 12 1 + monthDays y 12 := by
  unfold dayNumber monthDays
  simp
  omega

section months

/-- The months are counted from the first of the year 0. -/
def monthIndex (z : Int) : Int := 12 * year z + (date z).1 - 1

def monthStart (k : Int) : Int := dayNumber (k / 12) (k % 12 + 1).toNat 1

theorem monthStart_next (k : Int) : monthStart (k + 1) = monthStart k + monthDays (k / 12) (k % 12 + 1).toNat := by
  unfold monthStart
  by_cases last : k % 12 = 11
  · have year : (k + 1) / 12 = k / 12 + 1 := by omega
    have month : ((k + 1) % 12 + 1).toNat = 1 := by omega
    have month' : (k % 12 + 1).toNat = 12 := by omega
    rw [year, month, month', next_year]
  · have year : (k + 1) / 12 = k / 12 := by omega
    have month : ((k + 1) % 12 + 1).toNat = (k % 12 + 1).toNat + 1 := by omega
    rw [year, month, next_month _ (by omega)]

theorem monthDays_pos (y : Int) (m : Nat) : 0 < monthDays y m := by
  unfold monthDays
  split_ifs <;> omega

theorem monthStart_lt : StrictMono monthStart :=
  strictMono_int_of_lt_succ fun k => by
    have pos := monthDays_pos (k / 12) (k % 12 + 1).toNat
    rw [monthStart_next]
    omega

theorem monthIndex_parts (z : Int) : monthIndex z / 12 = year z ∧ (monthIndex z % 12 + 1).toNat = (date z).1 := by
  obtain ⟨⟨low, high⟩, -⟩ := date_valid z
  unfold monthIndex
  constructor <;> omega

/-- A day lies in its month. -/
theorem monthStart_index (z : Int) : monthStart (monthIndex z) + (date z).2 - 1 = z ∧ z < monthStart (monthIndex z + 1) := by
  obtain ⟨hy, hm⟩ := monthIndex_parts z
  obtain ⟨first, last⟩ := day_le z
  have day := dayNumber_date z
  obtain ⟨d, hd⟩ : ∃ d, (date z).2 = 1 + d := ⟨(date z).2 - 1, by omega⟩
  rw [hd, dayNumber_add] at day
  rw [monthStart_next]
  unfold monthStart
  rw [hy, hm]
  omega

theorem monthIndex_eq {z k : Int} : monthIndex z = k ↔ monthStart k ≤ z ∧ z < monthStart (k + 1) := by
  obtain ⟨here, next⟩ := monthStart_index z
  obtain ⟨first, -⟩ := day_le z
  constructor
  · rintro rfl
    exact ⟨by omega, next⟩
  · rintro ⟨low, high⟩
    rcases lt_trichotomy (monthIndex z) k with lt | rfl | gt
    · have := monthStart_lt.monotone (show monthIndex z + 1 ≤ k by omega)
      omega
    · rfl
    · have := monthStart_lt.monotone (show k + 1 ≤ monthIndex z by omega)
      omega

end months

example : year 0 = 1970 ∧ year 19782 = 2024 ∧ date 19782 = (2, 29) ∧ dayNumber 2024 2 29 = 19782 ∧ monthDays 1900 2 = 28 := by decide

end Civil
