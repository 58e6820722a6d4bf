import Invokr.AppliedRanges

namespace Invokr

namespace DateRange

/-- `NaiveDate::from_ymd_opt`. -/
def fromYmdOpt (y : Int) (m d : Nat) : Option NaiveDate :=
  if 1 ≤ m ∧ m ≤ 12 ∧ 1 ≤ d ∧ d ≤ Civil.monthDays y m then some (Civil.dayNumber y m d) else none

/-- The first of the month that is `delta` months from the date's. -/
def addMonths (d : NaiveDate) (delta : Int) : NaiveDate :=
  let zero := Civil.year d * 12 + ((Civil.date d).1 - 1) + delta
  Civil.dayNumber (zero / 12) ((zero % 12).toNat + 1) 1

/-- The days of the month in rows of seven, after a pad for the days of the week before the first. -/
def monthCells (month : NaiveDate) : List (Option NaiveDate) :=
  let first := firstOfMonth month
  let lead := Civil.weekday first
  let daysInMonth := (Civil.date (addMonths first 1 - 1)).2
  List.replicate lead none ++ (List.range' 1 daysInMonth).map fun day => fromYmdOpt (Civil.year first) (Civil.date first).1 day

section grids

variable {month d k : Int} {i : Nat}

theorem monthIndex_start (k : Int) : Civil.monthIndex (Civil.monthStart k) = k :=
  Civil.monthIndex_eq.mpr ⟨Int.le_refl _, Civil.monthStart_lt (Int.lt_succ k)⟩

theorem addMonths_eq (d delta : Int) : addMonths d delta = Civil.monthStart (Civil.monthIndex d + delta) := by
  have index : Civil.year d * 12 + (((Civil.date d).1 : Int) - 1) + delta = Civil.monthIndex d + delta := by
    unfold Civil.monthIndex
    omega
  have month : ((Civil.monthIndex d + delta) % 12).toNat + 1 = ((Civil.monthIndex d + delta) % 12 + 1).toNat := by omega
  unfold addMonths Civil.monthStart
  simp only
  rw [index, month]

theorem fromYmdOpt_month (k : Int) {n : Nat} (low : 1 ≤ n) (high : n ≤ Civil.monthDays (k / 12) (k % 12 + 1).toNat) :
    fromYmdOpt (k / 12) (k % 12 + 1).toNat n = some (Civil.monthStart k + n - 1) := by
  have day := Civil.dayNumber_add (k / 12) (k % 12 + 1).toNat 1 (n - 1)
  rw [Nat.add_sub_cancel' low] at day
  have start : Civil.dayNumber (k / 12) (k % 12 + 1).toNat n = Civil.monthStart k + n - 1 := by
    unfold Civil.monthStart
    omega
  rw [fromYmdOpt, if_pos ⟨by omega, by omega, low, high⟩, start]

/-- The day before the next month begins is the month's last. -/
theorem daysInMonth_eq (k : Int) :
    (Civil.date (Civil.monthStart (k + 1) - 1)).2 = Civil.monthDays (k / 12) (k % 12 + 1).toNat := by
  have next := Civil.monthStart_next k
  have pos := Civil.monthDays_pos (k / 12) (k % 12 + 1).toNat
  have here : Civil.monthIndex (Civil.monthStart (k + 1) - 1) = k := Civil.monthIndex_eq.mpr ⟨by omega, by omega⟩
  have day := (Civil.monthStart_index (Civil.monthStart (k + 1) - 1)).1
  rw [here] at day
  omega

theorem monthCells_eq (hk : Civil.monthIndex month = k) :
    monthCells month = List.replicate (Civil.weekday (Civil.monthStart k)) none ++
      (List.range' 1 (Civil.monthDays (k / 12) (k % 12 + 1).toNat)).map fun n : Nat => some (Civil.monthStart k + n - 1) := by
  obtain ⟨hy, hm⟩ := Civil.monthIndex_parts (Civil.monthStart k)
  rw [monthIndex_start] at hy hm
  unfold monthCells
  simp only
  rw [firstOfMonth_eq, hk, addMonths_eq, monthIndex_start, daysInMonth_eq, ← hy, ← hm]
  have cells : ∀ n ∈ List.range' 1 (Civil.monthDays (k / 12) (k % 12 + 1).toNat),
      fromYmdOpt (k / 12) (k % 12 + 1).toNat n = some (Civil.monthStart k + n - 1) := by
    intro n hn
    have bounds := List.mem_range'_1.mp hn
    exact fromYmdOpt_month k (by omega) (by omega)
  rw [List.map_congr_left cells]

/-- The cell shows the day in its place of the month. -/
theorem monthCells_day : (monthCells month)[i]? = some (some d) ↔
    Civil.monthIndex d = Civil.monthIndex month ∧ i + 1 = Civil.weekday (firstOfMonth month) + (Civil.date d).2 := by
  have first := Civil.day_le d
  have here := Civil.monthStart_index d
  have parts := Civil.monthIndex_parts d
  generalize hk : Civil.monthIndex month = k
  rw [monthCells_eq hk, firstOfMonth_eq, hk, List.getElem?_append, List.length_replicate]
  generalize Civil.weekday (Civil.monthStart k) = lead
  split
  next pad =>
    rw [List.getElem?_replicate, if_pos pad]
    constructor
    · intro h
      cases h
    · intro h
      omega
  next days =>
    rw [List.getElem?_map]
    have next := Civil.monthStart_next k
    by_cases inside : i - lead < Civil.monthDays (k / 12) (k % 12 + 1).toNat
    · rw [List.getElem?_range' inside, Option.map_some]
      constructor
      · intro h
        cases h
        have month : Civil.monthIndex (Civil.monthStart k + (1 + 1 * (i - lead) : Nat) - 1) = k :=
          Civil.monthIndex_eq.mpr ⟨by omega, by omega⟩
        rw [month] at here
        exact ⟨month, by omega⟩
      · intro h
        rw [h.1] at here
        congr 2
        omega
    · rw [List.getElem?_eq_none (by rw [List.length_range']; omega), Option.map_none]
      constructor
      · intro h
        cases h
      · intro h
        rw [h.1] at parts
        rw [← parts.1, ← parts.2] at first
        omega

/-- The cells before the first are empty, and no others. -/
theorem monthCells_pad : (monthCells month)[i]? = some none ↔ i < Civil.weekday (firstOfMonth month) := by
  generalize hk : Civil.monthIndex month = k
  rw [monthCells_eq hk, firstOfMonth_eq, hk, List.getElem?_append, List.length_replicate]
  split
  next pad =>
    rw [List.getElem?_replicate, if_pos pad]
    exact iff_of_true rfl pad
  next days =>
    rw [iff_false_right days, List.getElem?_map]
    intro h
    obtain ⟨n, -, hn⟩ := Option.map_eq_some_iff.mp h
    cases hn

theorem weekday_add (z : Int) (n : Nat) : Civil.weekday (z + n) = (Civil.weekday z + n) % 7 := by
  unfold Civil.weekday
  omega

/-- A day stands in the column of its day of the week. -/
theorem monthCells_column (h : (monthCells month)[i]? = some (some d)) : i % 7 = Civil.weekday d := by
  obtain ⟨hm, hi⟩ := monthCells_day.mp h
  have here := (Civil.monthStart_index d).1
  have first := Civil.day_le d
  have day : d = Civil.monthStart (Civil.monthIndex d) + ((Civil.date d).2 - 1 : Nat) := by omega
  have column := congrArg Civil.weekday day
  rw [weekday_add] at column
  rw [firstOfMonth_eq, ← hm] at hi
  rw [column]
  omega

theorem firstOfMonth_start (k : Int) : firstOfMonth (Civil.monthStart k) = Civil.monthStart k := by
  rw [firstOfMonth_eq, monthIndex_start]

/-- June 2026 begins on a Monday. -/
example : (monthCells (Civil.dayNumber 2026 6 17)).take 2 = [none, some (Civil.dayNumber 2026 6 1)] ∧
    (monthCells (Civil.dayNumber 2026 6 17)).length = 31 := by decide

end grids

end DateRange

end Invokr
