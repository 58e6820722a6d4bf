import Invokr.CalendarPages

namespace Invokr

namespace DateRange

/-- A day's position in the band of the chosen days. -/
inductive DayHighlight where
  | none
  | only
  | start
  | span
  | stop
  deriving DecidableEq, Repr

def dayHighlight (d : NaiveDate) (after before : Option Instant) (hover : Option NaiveDate) : DayHighlight :=
  match after.map dateNaive with
  | none => .none
  | some start =>
    match (before.map dateNaive).or hover with
    | none => if d = start then .only else .none
    | some stop =>
      let (lo, hi) := if start ≤ stop then (start, stop) else (stop, start)
      if lo = hi then (if d = lo then .only else .none)
      else if d = lo then .start
      else if d = hi then .stop
      else if lo < d ∧ d < hi then .span
      else .none

def Calendar.highlight (s : Calendar) (d : NaiveDate) : DayHighlight :=
  dayHighlight d s.filter.draftAfter s.filter.draftBefore s.hoverDay

/-- The band of the days from one to another. -/
def band (lo hi d : Int) : DayHighlight :=
  if lo = hi then (if d = lo then .only else .none)
  else if d = lo then .start
  else if d = hi then .stop
  else if lo < d ∧ d < hi then .span
  else .none

/-- The marks of the days from one date to another. -/
def Marks (mark : Int → DayHighlight) (first last : Int) : Prop :=
  ∀ d, (mark d ≠ .none ↔ first ≤ d ∧ d ≤ last) ∧ (mark d = .start ∨ mark d = .only ↔ d = first) ∧
    (mark d = .stop ∨ mark d = .only ↔ d = last)

/-- The bounds that are set are on dates in their order. -/
def Dated (after before : Option Instant) : Prop := ∀ a ∈ after, ∀ b ∈ before, dateNaive a ≤ dateNaive b

/-- What every gesture keeps, the harmful ones too. -/
structure Filter.Dates (s : Filter) : Prop where
  applied : Dated s.after s.before
  drafted : Dated s.draftAfter s.draftBefore

section dates

variable {s : Filter}

theorem dated_none (before : Option Instant) : Dated none before := fun _ h => by cases h

theorem dated_open (after : Option Instant) : Dated after none := fun _ _ _ h => by cases h

theorem dateNaive_combine (d : Int) (t : NaiveTime) : dateNaive (combine d t) = d := by
  have low := t.low
  have high := t.high
  have days : (d * dayNanos + t.nanos) / dayNanos = d := by
    unfold dayNanos at *
    omega
  exact days

theorem Filter.Dates.preset (h : s.Dates) (p : Preset) (now : Instant) : (s.applyPreset p now).Dates := by
  refine ⟨h.applied, fun a ha b hb => ?_⟩
  cases ha
  cases hb
  rw [range_span]
  unfold startOf endOf
  rw [dateNaive_combine, dateNaive_combine]
  exact spanOf_le p (dateNaive now)

theorem Filter.Dates.pickDay (h : s.Dates) (d : Int) : (s.pickDay d).Dates := by
  unfold Filter.pickDay
  split
  next start hstart hopen =>
    split
    next early =>
      refine ⟨h.applied, fun a ha b hb => ?_⟩
      cases ha
      cases hb
      rw [dateNaive_combine, dateNaive_combine]
      exact Int.le_of_lt early
    next late =>
      refine ⟨h.applied, fun a ha b hb => ?_⟩
      obtain rfl : start = a := Option.some.inj (hstart.symm.trans ha)
      cases hb
      rw [dateNaive_combine]
      exact Int.not_lt.mp late
  next => exact ⟨h.applied, dated_open _⟩

theorem Filter.Dates.applyStart (h : s.Dates) (t : NaiveTime) : (s.applyStart t).Dates := by
  refine ⟨h.applied, fun a ha b hb => ?_⟩
  obtain ⟨a₀, ha₀, rfl⟩ := Option.map_eq_some_iff.mp ha
  rw [dateNaive_combine]
  exact h.drafted a₀ ha₀ b hb

theorem Filter.Dates.applyEnd (h : s.Dates) (t : NaiveTime) : (s.applyEnd t).Dates := by
  refine ⟨h.applied, fun a ha b hb => ?_⟩
  obtain ⟨b₀, hb₀, rfl⟩ := Option.map_eq_some_iff.mp hb
  rw [dateNaive_combine]
  exact h.drafted a ha b₀ hb₀

theorem Filter.Dates.step (h : s.Dates) (g : Gesture) : (s.step g).Dates := by
  cases g with
  | toggleOpen =>
    simp only [Filter.step, Filter.toggleOpen]
    split
    next => exact ⟨h.applied, h.drafted⟩
    next => exact ⟨h.applied, h.applied⟩
  | clickOutside => exact ⟨h.applied, h.drafted⟩
  | clearFilters => exact ⟨dated_none _, h.drafted⟩
  | apply =>
    simp only [Filter.step]
    split
    next => exact ⟨h.drafted, h.drafted⟩
    next => exact h
  | clear =>
    simp only [Filter.step]
    split
    next => exact ⟨dated_none _, dated_none _⟩
    next => exact h
  | preset p now =>
    simp only [Filter.step]
    split
    next => exact h.preset p now
    next => exact h
  | pickDay d =>
    simp only [Filter.step]
    split
    next => exact h.pickDay d
    next => exact h
  | startTime part n =>
    simp only [Filter.step]
    split
    next =>
      cases timeSelect s.startTime part n with
      | none => exact h
      | some t => exact h.applyStart t
    next => exact h
  | endTime part n =>
    simp only [Filter.step]
    split
    next =>
      cases timeSelect s.endTime part n with
      | none => exact h
      | some t => exact h.applyEnd t
    next => exact h

theorem dates_run {s : Calendar} (h : s.filter.Dates) (touches : List Touch) : (s.run touches).filter.Dates := by
  induction touches generalizing s with
  | nil => exact h
  | cons t touches ih =>
    apply ih
    rcases step_filter s t with same | ⟨g, -, taken⟩
    · rw [same]
      exact h
    · rw [taken]
      exact h.step g

end dates

section marks

variable {s : Calendar} {first last : Int} {d day : Int} {a b : Instant}

theorem band_marks (le : first ≤ last) : Marks (band first last) first last := by
  intro d
  unfold band
  split
  next one =>
    split
    next here => exact ⟨by simp; omega, by simp; omega, by simp; omega⟩
    next other => exact ⟨by simp; omega, by simp; omega, by simp; omega⟩
  next more =>
    split
    next here => exact ⟨by simp; omega, by simp; omega, by simp; omega⟩
    next =>
      split
      next there => exact ⟨by simp; omega, by simp; omega, by simp; omega⟩
      next =>
        split
        next inside => exact ⟨by simp; omega, by simp; omega, by simp; omega⟩
        next outside => exact ⟨by simp; omega, by simp; omega, by simp; omega⟩

theorem dayHighlight_both (le : dateNaive a ≤ dateNaive b) (hover : Option Int) :
    dayHighlight d (some a) (some b) hover = band (dateNaive a) (dateNaive b) d := by
  simp only [dayHighlight, band, Option.map_some, Option.some_or, if_pos le]

/-- While the range is open, the day under the pointer stands for its other end. -/
theorem dayHighlight_hover : dayHighlight d (some a) none (some day) =
    if dateNaive a ≤ day then band (dateNaive a) day d else band day (dateNaive a) d := by
  simp only [dayHighlight, band, Option.map_some, Option.map_none, Option.none_or]
  split
  next => rfl
  next => rfl

/-- What the click on the day under the pointer does to a range that is open. -/
theorem click_closes (offered : s.Offers day) (ha : s.filter.draftAfter = some a) (hb : s.filter.draftBefore = none) :
    let picked := (s.step (.enter day)).step (.gesture (.pickDay day))
    ∃ a' b', picked.filter.draftAfter = some a' ∧ picked.filter.draftBefore = some b' ∧
      if dateNaive a ≤ day then dateNaive a' = dateNaive a ∧ dateNaive b' = day
      else dateNaive a' = day ∧ dateNaive b' = dateNaive a := by
  have hover : s.step (.enter day) = { s with hoverDay := some day } := if_pos offered
  have still : ({ s with hoverDay := some day } : Calendar).Offers day := offered
  have click : (s.step (.enter day)).step (.gesture (.pickDay day)) =
      { s with hoverDay := some day, filter := s.filter.pickDay day } := by
    rw [hover]
    simp only [Calendar.step, Calendar.gesture, Calendar.pickDay, if_pos still, Filter.step, if_pos offered.1]
  intro picked
  have closed : picked.filter = s.filter.pickDay day := congrArg Calendar.filter click
  rw [closed]
  simp only [Filter.pickDay, ha, hb]
  split
  next lt =>
    refine ⟨_, _, rfl, rfl, ?_⟩
    rw [if_neg (Int.not_le.mpr lt)]
    exact ⟨dateNaive_combine _ _, dateNaive_combine _ _⟩
  next ge =>
    refine ⟨_, _, rfl, rfl, ?_⟩
    rw [if_pos (Int.not_lt.mp ge)]
    exact ⟨rfl, dateNaive_combine _ _⟩

end marks

/-- Whatever the user did: when both bounds are drafted, the marked days are those from the start's date to the end's, and
its first and last are marked as such. And where a click would close the range, the marks that show under the pointer are
those after the click. -/
theorem marks_tell_range (now later : Instant) (touches : List Touch) :
    let s := (Calendar.mounted now later).run touches
    (∀ a b, s.filter.draftAfter = some a → s.filter.draftBefore = some b → Marks s.highlight (dateNaive a) (dateNaive b)) ∧
    ∀ a day, s.filter.draftAfter = some a → s.filter.draftBefore = none → s.Offers day →
      let hovering := s.step (.enter day)
      let picked := hovering.step (.gesture (.pickDay day))
      (∃ a' b', picked.filter.draftAfter = some a' ∧ picked.filter.draftBefore = some b') ∧
        ∀ d, hovering.highlight d = picked.highlight d := by
  intro s
  have start : (Calendar.mounted now later).filter.Dates := ⟨dated_none _, dated_none _⟩
  have dates : s.filter.Dates := dates_run start touches
  constructor
  · intro a b ha hb d
    have le := dates.drafted a ha b hb
    unfold Calendar.highlight
    rw [ha, hb, dayHighlight_both le]
    exact band_marks le d
  · intro a day ha hb offered hovering picked
    obtain ⟨a', b', ha', hb', ends⟩ := click_closes offered ha hb
    refine ⟨⟨a', b', ha', hb'⟩, fun d => ?_⟩
    have hover : hovering.highlight d = dayHighlight d (some a) none (some day) := by
      have pointed : hovering = { s with hoverDay := some day } := if_pos offered
      rw [pointed, ← ha, ← hb]
      rfl
    have shown : picked.highlight d = dayHighlight d (some a') (some b') picked.hoverDay := by
      rw [← ha', ← hb']
      rfl
    rw [hover, shown, dayHighlight_hover]
    split at ends
    next le =>
      rw [if_pos le, dayHighlight_both (by rw [ends.1, ends.2]; exact le), ends.1, ends.2]
    next gt =>
      rw [if_neg gt, dayHighlight_both (by rw [ends.1, ends.2]; exact Int.le_of_lt (Int.not_le.mp gt)), ends.1, ends.2]

end DateRange

end Invokr
