import Invokr.DateRange
import Invokr.JobPages

namespace Invokr

namespace DateRange

/-- The day belongs to the preset's span when it is chosen today. -/
def InSpan (p : Preset) (today day : Int) : Prop :=
  match p with
  | .today => day = today
  | .last2Days => day = today ∨ day = today - 1
  | .last7Days => today - 7 < day ∧ day ≤ today
  | .thisMonth => Civil.year day = Civil.year today ∧ (Civil.date day).1 = (Civil.date today).1 ∧ day ≤ today
  | .lastMonth =>
    if (Civil.date today).1 = 1 then Civil.year day = Civil.year today - 1 ∧ (Civil.date day).1 = 12
    else Civil.year day = Civil.year today ∧ (Civil.date day).1 = (Civil.date today).1 - 1

/-- The UTC date of a time of the database. -/
def dayOf (t : Time) : Int := t / 86400000000

/-- The time is after 23:59:59 on the last day of the span. -/
def LastSecond (p : Preset) (today : Int) (t : Time) : Prop :=
  InSpan p today (dayOf t) ∧ ¬InSpan p today (dayOf t + 1) ∧ 86399000000 < t % 86400000000

/-- The filters that say nothing but the bounds. -/
def onlyDates (bounds : Instant × Instant) : JobFilters := ⟨none, [], [], none, [], some bounds.1, some bounds.2⟩

section spans

variable {today day first last : Int} {p : Preset}

theorem same_month {z w : Int} : Civil.monthIndex z = Civil.monthIndex w ↔
    Civil.year z = Civil.year w ∧ (Civil.date z).1 = (Civil.date w).1 := by
  obtain ⟨hz, -⟩ := Civil.date_valid z
  obtain ⟨hw, -⟩ := Civil.date_valid w
  unfold Civil.monthIndex
  omega

theorem firstOfMonth_eq (d : Int) : firstOfMonth d = Civil.monthStart (Civil.monthIndex d) := by
  obtain ⟨hy, hm⟩ := Civil.monthIndex_parts d
  rw [firstOfMonth, Civil.monthStart, hy, hm]

/-- The first and the last day of the span. -/
def spanOf (p : Preset) (today : Int) : Int × Int :=
  match p with
  | .today => (today, today)
  | .last2Days => (today - 1, today)
  | .last7Days => (today - 6, today)
  | .thisMonth => (firstOfMonth today, today)
  | .lastMonth => (firstOfMonth (firstOfMonth today - 1), firstOfMonth today - 1)

theorem range_span (p : Preset) (now : Instant) :
    p.range now = (startOf (spanOf p (dateNaive now)).1, endOf (spanOf p (dateNaive now)).2) := by
  cases p <;> rfl

/-- The preset's bounds are those of its span. -/
theorem inSpan_iff : InSpan p today day ↔ (spanOf p today).1 ≤ day ∧ day ≤ (spanOf p today).2 := by
  cases p with
  | today =>
    simp only [InSpan, spanOf]
    omega
  | last2Days =>
    simp only [InSpan, spanOf]
    omega
  | last7Days =>
    simp only [InSpan, spanOf]
    omega
  | thisMonth =>
    have here := Civil.monthStart_index today
    have day' := Civil.monthStart_index day
    have first := (Civil.day_le day).1
    simp only [InSpan, spanOf, firstOfMonth_eq]
    rw [← and_assoc, ← same_month, Civil.monthIndex_eq]
    omega
  | lastMonth =>
    have before : Civil.monthIndex (firstOfMonth today - 1) = Civil.monthIndex today - 1 := by
      have lt := Civil.monthStart_lt (show Civil.monthIndex today - 1 < Civil.monthIndex today by omega)
      rw [Civil.monthIndex_eq, firstOfMonth_eq, sub_add_cancel]
      omega
    have month : Civil.monthIndex day = Civil.monthIndex today - 1 ↔ InSpan .lastMonth today day := by
      obtain ⟨hz, -⟩ := Civil.date_valid day
      obtain ⟨hw, -⟩ := Civil.date_valid today
      simp only [InSpan, Civil.monthIndex]
      split <;> omega
    simp only [spanOf]
    rw [← month, firstOfMonth_eq (firstOfMonth today - 1), before, Civil.monthIndex_eq, sub_add_cancel, firstOfMonth_eq]
    omega

theorem whole_of_near {i t u : Int} (h : i = 1000 * t) (low : -500 ≤ 1000 * u - i) (high : 1000 * u - i ≤ 500) : u = t := by
  omega

/-- An instant of whole microseconds keeps its value in the database. -/
theorem timestamptz_whole (pg : PgRules) {i t : Int} (h : i = 1000 * t) : pg.timestamptz i = t := by
  obtain ⟨low, high⟩ := abs_le.mp (pg.nearest i)
  exact whole_of_near h low high

theorem startOf_micros (d : Int) : startOf d = 1000 * (d * 86400000000) := by
  have nanos : startOf d = d * (86400 * 1000000000) + 0 := rfl
  rw [nanos]
  ring

theorem endOf_micros (d : Int) : endOf d = 1000 * (d * 86400000000 + 86399000000) := by
  have nanos : endOf d = d * (86400 * 1000000000) + 86399 * 1000000000 := rfl
  rw [nanos]
  ring

theorem day_bounds {first last t : Int} : (first * 86400000000 ≤ t ∧ t ≤ last * 86400000000 + 86399000000 ↔
      first ≤ t / 86400000000 ∧ t / 86400000000 ≤ last) ↔
    ¬((first ≤ t / 86400000000 ∧ t / 86400000000 ≤ last) ∧ ¬(first ≤ t / 86400000000 + 1 ∧ t / 86400000000 + 1 ≤ last) ∧
      86399000000 < t % 86400000000) := by
  have parts : t = 86400000000 * (t / 86400000000) + t % 86400000000 := (Int.mul_ediv_add_emod t 86400000000).symm
  have low : 0 ≤ t % 86400000000 := Int.emod_nonneg _ (by decide)
  have high : t % 86400000000 < 86400000000 := Int.emod_lt_of_pos _ (by decide)
  generalize t / 86400000000 = day at *
  generalize t % 86400000000 = rest at *
  omega

theorem passes_dates (pg : PgRules) (bounds : Instant × Instant) (j : Job) : Jobs.passes pg (onlyDates bounds) j = true ↔
    pg.timestamptz bounds.1 ≤ j.createdAt ∧ j.createdAt ≤ pg.timestamptz bounds.2 := by
  simp [Jobs.passes, onlyDates]

end spans

/-- A preset selects the jobs of its whole days except for those of the last second of the last one, from 23:59:59 on. -/
theorem preset_days (pg : PgRules) (p : Preset) (now : Instant) (j : Job) :
    (Jobs.passes pg (onlyDates (p.range now)) j = true ↔ InSpan p (dateNaive now) (dayOf j.createdAt)) ↔
      ¬LastSecond p (dateNaive now) j.createdAt := by
  rw [LastSecond, inSpan_iff, inSpan_iff, passes_dates, range_span]
  generalize spanOf p (dateNaive now) = span
  obtain ⟨first, last⟩ := span
  have start : pg.timestamptz (startOf first) = first * 86400000000 := timestamptz_whole pg (startOf_micros first)
  have stop : pg.timestamptz (endOf last) = last * 86400000000 + 86399000000 := timestamptz_whole pg (endOf_micros last)
  rw [start, stop]
  exact day_bounds

/-- A job made half a second before midnight, and the presets of noon on that day. -/
theorem preset_days_fails : ∃ (pg : PgRules) (now : Instant) (j : Job),
    Jobs.passes pg (onlyDates (Preset.today.range now)) j = false ∧ InSpan .today (dateNaive now) (dayOf j.createdAt) := by
  refine ⟨plainRules, 1782302400000000000, Jobs.newJob ⟨"00000000-0000-4000-8000-000000000001", by decide⟩ 1782345599500000 "hook"
    .http .immediate none none, by decide +kernel, ?_⟩
  show dayOf 1782345599500000 = dateNaive 1782302400000000000
  decide +kernel

end DateRange

end Invokr
