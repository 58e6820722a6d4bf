import Invokr.MonthGrid

namespace Invokr

namespace DateRange

/-- The filter with the month that its calendar displays and the day under the pointer. -/
structure Calendar where
  filter : Filter
  viewMonth : NaiveDate
  hoverDay : Option NaiveDate
  today : NaiveDate

/-- What a user does with the calendar open. -/
inductive Touch where
  | gesture (g : Gesture)
  | previousMonth
  | nextMonth
  | enter (d : NaiveDate)
  | leave

namespace Calendar

/-- The component reads the clock twice when it is mounted. -/
def mounted (now later : Instant) : Calendar where
  filter := DateRange.mounted
  viewMonth := firstOfMonth (dateNaive now)
  hoverDay := none
  today := dateNaive later

variable (s : Calendar)

/-- The day has a button that can be reached. -/
def Offers (d : NaiveDate) : Prop := s.filter.isOpen = true ∧ some d ∈ monthCells s.viewMonth

instance : DecidablePred s.Offers :=
  fun d => inferInstanceAs (Decidable (s.filter.isOpen = true ∧ some d ∈ monthCells s.viewMonth))

def toggleOpen : Calendar :=
  if s.filter.isOpen then { s with filter := s.filter.toggleOpen }
  else
    { s with
      filter := s.filter.toggleOpen
      hoverDay := none
      viewMonth := firstOfMonth ((s.filter.after.map dateNaive).getD s.today) }

def applyPreset (p : Preset) (now : Instant) : Calendar :=
  if s.filter.isOpen then
    { s with
      filter := s.filter.step (.preset p now)
      viewMonth := firstOfMonth (dateNaive (p.range now).1) }
  else s

def pickDay (d : NaiveDate) : Calendar := if s.Offers d then { s with filter := s.filter.step (.pickDay d) } else s

def turn (delta : Int) : Calendar := if s.filter.isOpen then { s with viewMonth := addMonths s.viewMonth delta } else s

/-- The other gestures change nothing beside the filter. -/
def gesture : Gesture → Calendar
  | .toggleOpen => s.toggleOpen
  | .preset p now => s.applyPreset p now
  | .pickDay d => s.pickDay d
  | g => { s with filter := s.filter.step g }

def step : Touch → Calendar
  | .gesture g => s.gesture g
  | .previousMonth => s.turn (-1)
  | .nextMonth => s.turn 1
  | .enter d => if s.Offers d then { s with hoverDay := some d } else s
  | .leave => { s with hoverDay := none }

def run (touches : List Touch) : Calendar := touches.foldl step s

end Calendar

/-- The months by which the touch turns the pages. -/
def Touch.months : Touch → Int
  | .previousMonth => -1
  | .nextMonth => 1
  | _ => 0

/-- The touch leaves the calendar open and shows no other month than the next or the one before. -/
def Touch.staysOpen : Touch → Bool
  | .gesture (.pickDay _) | .gesture (.startTime ..) | .gesture (.endTime ..) | .gesture .clearFilters => true
  | .gesture _ => false
  | _ => true

section pages

variable {s : Calendar}

/-- The calendar displays a month by its first day. -/
def Calendar.AtFirst (s : Calendar) : Prop := firstOfMonth s.viewMonth = s.viewMonth

theorem first_first (d : Int) : firstOfMonth (firstOfMonth d) = firstOfMonth d := by
  rw [firstOfMonth_eq d, firstOfMonth_start]

theorem first_add (d delta : Int) : firstOfMonth (addMonths d delta) = addMonths d delta := by
  rw [addMonths_eq, firstOfMonth_start]

theorem monthIndex_add (d delta : Int) : Civil.monthIndex (addMonths d delta) = Civil.monthIndex d + delta := by
  rw [addMonths_eq, monthIndex_start]

/-- Where the calendar lets the filter see a gesture, it shows the same month or jumps to some other. -/
theorem gesture_cases (s : Calendar) (g : Gesture) : s.gesture g = s ∨ (s.gesture g).filter = s.filter.step g ∧
    ((s.gesture g).viewMonth = s.viewMonth ∨
      (Touch.gesture g).staysOpen = false ∧ ∃ d, (s.gesture g).viewMonth = firstOfMonth d) := by
  cases g with
  | toggleOpen =>
    simp only [Calendar.gesture, Calendar.toggleOpen]
    split
    next => exact Or.inr ⟨rfl, Or.inl rfl⟩
    next => exact Or.inr ⟨rfl, Or.inr ⟨rfl, _, rfl⟩⟩
  | preset p now =>
    simp only [Calendar.gesture, Calendar.applyPreset]
    split
    next => exact Or.inr ⟨rfl, Or.inr ⟨rfl, _, rfl⟩⟩
    next => exact Or.inl rfl
  | pickDay d =>
    simp only [Calendar.gesture, Calendar.pickDay]
    split
    next => exact Or.inr ⟨rfl, Or.inl rfl⟩
    next => exact Or.inl rfl
  | clickOutside => exact Or.inr ⟨rfl, Or.inl rfl⟩
  | apply => exact Or.inr ⟨rfl, Or.inl rfl⟩
  | clear => exact Or.inr ⟨rfl, Or.inl rfl⟩
  | startTime part n => exact Or.inr ⟨rfl, Or.inl rfl⟩
  | endTime part n => exact Or.inr ⟨rfl, Or.inl rfl⟩
  | clearFilters => exact Or.inr ⟨rfl, Or.inl rfl⟩

/-- Turning the pages and pointing at days leave the filter as it is. -/
theorem turn_cases (s : Calendar) (delta : Int) : (s.turn delta).filter = s.filter ∧
    ((s.turn delta).viewMonth = s.viewMonth ∨ (s.turn delta).viewMonth = addMonths s.viewMonth delta) := by
  unfold Calendar.turn
  split
  next => exact ⟨rfl, Or.inr rfl⟩
  next => exact ⟨rfl, Or.inl rfl⟩

theorem enter_same (s : Calendar) (d : Int) :
    (s.step (.enter d)).filter = s.filter ∧ (s.step (.enter d)).viewMonth = s.viewMonth := by
  simp only [Calendar.step]
  split
  next => exact ⟨rfl, rfl⟩
  next => exact ⟨rfl, rfl⟩

/-- The month is the one before, the first of some month or a month that the pages are turned to. -/
theorem step_view (s : Calendar) (t : Touch) : (s.step t).viewMonth = s.viewMonth ∨
    (∃ d, (s.step t).viewMonth = firstOfMonth d) ∨ ∃ delta, (s.step t).viewMonth = addMonths s.viewMonth delta := by
  cases t with
  | gesture g =>
    rcases gesture_cases s g with same | ⟨-, same | ⟨-, jump⟩⟩
    · exact Or.inl (congrArg Calendar.viewMonth same)
    · exact Or.inl same
    · exact Or.inr (Or.inl jump)
  | previousMonth => exact (turn_cases s (-1)).2.imp_right fun h => Or.inr ⟨-1, h⟩
  | nextMonth => exact (turn_cases s 1).2.imp_right fun h => Or.inr ⟨1, h⟩
  | enter d => exact Or.inl (enter_same s d).2
  | leave => exact Or.inl rfl

theorem Calendar.AtFirst.step (h : s.AtFirst) (t : Touch) : (s.step t).AtFirst := by
  unfold Calendar.AtFirst at *
  rcases step_view s t with same | ⟨d, jump⟩ | ⟨delta, turned⟩
  · rw [same, h]
  · rw [jump, first_first]
  · rw [turned, first_add]

theorem Calendar.AtFirst.run (h : s.AtFirst) (touches : List Touch) : (s.run touches).AtFirst := by
  induction touches generalizing s with
  | nil => exact h
  | cons t touches ih => exact ih (h.step t)

/-- The filter takes the gestures that the calendar lets it see. -/
theorem step_filter (s : Calendar) (t : Touch) : (s.step t).filter = s.filter ∨
    ∃ g, t = .gesture g ∧ (s.step t).filter = s.filter.step g := by
  cases t with
  | gesture g =>
    rcases gesture_cases s g with same | ⟨taken, -⟩
    · exact Or.inl (congrArg Calendar.filter same)
    · exact Or.inr ⟨g, rfl, taken⟩
  | previousMonth => exact Or.inl (turn_cases s (-1)).1
  | nextMonth => exact Or.inl (turn_cases s 1).1
  | enter d => exact Or.inl (enter_same s d).1
  | leave => exact Or.inl rfl

theorem stays_open {f : Filter} (hopen : f.isOpen = true) {g : Gesture} (h : (Touch.gesture g).staysOpen = true) :
    (f.step g).isOpen = true := by
  cases g with
  | pickDay d =>
    simp only [Filter.step, Filter.pickDay, hopen, if_true]
    split
    next =>
      split
      next => rfl
      next => rfl
    next => rfl
  | startTime part n =>
    simp only [Filter.step, hopen, if_true]
    cases timeSelect f.startTime part n with
    | none => exact hopen
    | some t => exact hopen
  | endTime part n =>
    simp only [Filter.step, hopen, if_true]
    cases timeSelect f.endTime part n with
    | none => exact hopen
    | some t => exact hopen
  | clearFilters => exact hopen
  | toggleOpen => cases h
  | clickOutside => cases h
  | apply => cases h
  | clear => cases h
  | preset p now => cases h

theorem view_stays {g : Gesture} (h : (Touch.gesture g).staysOpen = true) : (s.gesture g).viewMonth = s.viewMonth := by
  rcases gesture_cases s g with same | ⟨-, same | ⟨jumps, -⟩⟩
  · exact congrArg Calendar.viewMonth same
  · exact same
  · rw [h] at jumps
    cases jumps

/-- A touch that leaves the calendar open turns the pages by its months. -/
theorem turns_step (hopen : s.filter.isOpen = true) {t : Touch} (h : t.staysOpen = true) :
    (s.step t).filter.isOpen = true ∧ Civil.monthIndex (s.step t).viewMonth = Civil.monthIndex s.viewMonth + t.months := by
  constructor
  · rcases step_filter s t with same | ⟨g, rfl, taken⟩
    · rw [same, hopen]
    · rw [taken, stays_open hopen h]
  · cases t with
    | gesture g => exact (congrArg Civil.monthIndex (view_stays h)).trans (Int.add_zero _).symm
    | previousMonth =>
      simp only [Calendar.step, Calendar.turn, hopen, if_true]
      exact monthIndex_add _ _
    | nextMonth =>
      simp only [Calendar.step, Calendar.turn, hopen, if_true]
      exact monthIndex_add _ _
    | enter d => exact (congrArg Civil.monthIndex (enter_same s d).2).trans (Int.add_zero _).symm
    | leave => exact (Int.add_zero _).symm

theorem turns_run (hopen : s.filter.isOpen = true) {touches : List Touch} (h : ∀ t ∈ touches, t.staysOpen = true) :
    Civil.monthIndex (s.run touches).viewMonth = Civil.monthIndex s.viewMonth + (touches.map Touch.months).sum := by
  induction touches generalizing s with
  | nil => exact (Int.add_zero _).symm
  | cons t touches ih =>
    obtain ⟨still, turned⟩ := turns_step hopen (h t List.mem_cons_self)
    have later := ih still fun t' ht' => h t' (List.mem_cons_of_mem t ht')
    rw [turned] at later
    rw [List.map_cons, List.sum_cons, ← Int.add_assoc]
    exact later

end pages

/-- Whatever the user did, the calendar shows the days of one month: each in its place and in the column of its day of
the week, after a pad of empty cells. While it is open, the buttons beside the month's name turn to the months before and
after, whatever is picked between. -/
theorem calendar_shows_month (now later : Instant) (touches : List Touch) :
    let s := (Calendar.mounted now later).run touches
    (∀ (i : Nat) (d : Int), (monthCells s.viewMonth)[i]? = some (some d) ↔
      Civil.monthIndex d = Civil.monthIndex s.viewMonth ∧ i + 1 = Civil.weekday s.viewMonth + (Civil.date d).2) ∧
    (∀ i : Nat, (monthCells s.viewMonth)[i]? = some none ↔ i < Civil.weekday s.viewMonth) ∧
    (∀ (i : Nat) (d : Int), (monthCells s.viewMonth)[i]? = some (some d) → i % 7 = Civil.weekday d) ∧
    ∀ pages : List Touch, s.filter.isOpen = true → (∀ t ∈ pages, t.staysOpen = true) →
      Civil.monthIndex (s.run pages).viewMonth = Civil.monthIndex s.viewMonth + (pages.map Touch.months).sum := by
  intro s
  have start : (Calendar.mounted now later).AtFirst := first_first (dateNaive now)
  have first : firstOfMonth s.viewMonth = s.viewMonth := start.run touches
  have day : ∀ (i : Nat) (d : Int), (monthCells s.viewMonth)[i]? = some (some d) ↔
      Civil.monthIndex d = Civil.monthIndex s.viewMonth ∧
        i + 1 = Civil.weekday (firstOfMonth s.viewMonth) + (Civil.date d).2 := fun i d => monthCells_day
  have pad : ∀ i : Nat, (monthCells s.viewMonth)[i]? = some none ↔ i < Civil.weekday (firstOfMonth s.viewMonth) :=
    fun i => monthCells_pad
  rw [first] at day pad
  exact ⟨day, pad, fun i d => monthCells_column, fun pages hopen stays => turns_run hopen stays⟩

end DateRange

end Invokr
