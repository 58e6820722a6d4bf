import Invokr.FilterSpelling
import Invokr.Months

namespace Invokr

namespace DateRange

/-- Days since the epoch. -/
abbrev NaiveDate := Int

def dayNanos : Int := 86400 * 1000000000

/-- A time of the day, in nanoseconds. -/
structure NaiveTime where
  nanos : Int
  low : 0 ≤ nanos
  high : nanos < dayNanos

/-- `NaiveTime::from_hms_opt`. -/
def fromHmsOpt (h m s : Nat) : Option NaiveTime :=
  if ok : h < 24 ∧ m < 60 ∧ s < 60 then
    some ⟨((h * 60 + m) * 60 + s : Nat) * 1000000000, by omega, by unfold dayNanos; omega⟩
  else none

def NaiveTime.hour (t : NaiveTime) : Nat := (t.nanos / (3600 * 1000000000)).toNat

def NaiveTime.minute (t : NaiveTime) : Nat := (t.nanos / (60 * 1000000000) % 60).toNat

def NaiveTime.second (t : NaiveTime) : Nat := (t.nanos / 1000000000 % 60).toNat

inductive TimePart where
  | hour
  | minute
  | second
  deriving DecidableEq, Repr

/-- What `TimeSelect` makes of a time when one of its parts is chosen. -/
def timeSelect (t : NaiveTime) (part : TimePart) (n : Nat) : Option NaiveTime :=
  match part with
  | .hour => fromHmsOpt n t.minute t.second
  | .minute => fromHmsOpt t.hour n t.second
  | .second => fromHmsOpt t.hour t.minute n

def dateNaive (i : Instant) : NaiveDate := i / dayNanos

def timeOf (i : Instant) : NaiveTime where
  nanos := i % dayNanos
  low := Int.emod_nonneg _ (by decide)
  high := Int.emod_lt_of_pos _ (by decide)

/-- Combines a calendar date with a time of the day in UTC. -/
def combine (date : NaiveDate) (time : NaiveTime) : Instant := date * dayNanos + time.nanos

/-- The default start of a day, 00:00:00. -/
def defaultStartTime : NaiveTime := ⟨0, by decide, by decide⟩

/-- The default end of a day, 23:59:59. -/
def defaultEndTime : NaiveTime := ⟨86399 * 1000000000, by decide, by decide⟩

def startOf (d : NaiveDate) : Instant := combine d defaultStartTime

def endOf (d : NaiveDate) : Instant := combine d defaultEndTime

def firstOfMonth (d : NaiveDate) : NaiveDate := Civil.dayNumber (Civil.year d) (Civil.date d).1 1

inductive Preset where
  | today
  | last2Days
  | last7Days
  | thisMonth
  | lastMonth
  deriving DecidableEq, Repr

/-- The inclusive bounds of the preset, relative to `now`. -/
def Preset.range (p : Preset) (now : Instant) : Instant × Instant :=
  let today := dateNaive now
  match p with
  | .today => (startOf today, endOf today)
  | .last2Days => (startOf (today - 1), endOf today)
  | .last7Days => (startOf (today - 6), endOf today)
  | .thisMonth => (startOf (firstOfMonth today), endOf today)
  | .lastMonth =>
    let firstThis := firstOfMonth today
    let lastPrev := firstThis - 1
    (startOf (firstOfMonth lastPrev), endOf lastPrev)

/-- The cells of `DateRangeFilter` that its bounds depend on. -/
structure Filter where
  isOpen : Bool
  after : Option Instant
  before : Option Instant
  draftAfter : Option Instant
  draftBefore : Option Instant
  startTime : NaiveTime
  endTime : NaiveTime

/-- The component as the page mounts it. -/
def mounted : Filter := ⟨false, none, none, none, none, defaultStartTime, defaultEndTime⟩

namespace Filter

variable (s : Filter)

def toggleOpen : Filter :=
  if s.isOpen then { s with isOpen := false }
  else
    { s with
      draftAfter := s.after
      draftBefore := s.before
      startTime := (s.after.map timeOf).getD defaultStartTime
      endTime := (s.before.map timeOf).getD defaultEndTime
      isOpen := true }

def apply : Filter := { s with after := s.draftAfter, before := s.draftBefore, isOpen := false }

def clear : Filter where
  isOpen := false
  after := none
  before := none
  draftAfter := none
  draftBefore := none
  startTime := defaultStartTime
  endTime := defaultEndTime

def applyPreset (p : Preset) (now : Instant) : Filter :=
  { s with
    startTime := defaultStartTime
    endTime := defaultEndTime
    draftAfter := some (p.range now).1
    draftBefore := some (p.range now).2 }

/-- The first click sets the start, the second the end; they are swapped if the second is earlier. -/
def pickDay (d : NaiveDate) : Filter :=
  match s.draftAfter, s.draftBefore with
  | some start, none =>
    if d < dateNaive start then
      { s with
        draftAfter := some (combine d s.startTime)
        draftBefore := some (combine (dateNaive start) s.endTime) }
    else { s with draftBefore := some (combine d s.endTime) }
  | _, _ => { s with draftAfter := some (combine d s.startTime), draftBefore := none }

def applyStart (t : NaiveTime) : Filter :=
  { s with startTime := t, draftAfter := s.draftAfter.map fun a => combine (dateNaive a) t }

def applyEnd (t : NaiveTime) : Filter :=
  { s with endTime := t, draftBefore := s.draftBefore.map fun b => combine (dateNaive b) t }

end Filter

/-- What a user does on the page. -/
inductive Gesture where
  | toggleOpen
  | clickOutside
  | apply
  | clear
  | preset (p : Preset) (now : Instant)
  | pickDay (d : NaiveDate)
  | startTime (part : TimePart) (n : Nat)
  | endTime (part : TimePart) (n : Nat)
  | clearFilters

/-- What is in the popover can be reached while it is open only. -/
def Filter.step (s : Filter) : Gesture → Filter
  | .toggleOpen => s.toggleOpen
  | .clickOutside => { s with isOpen := false }
  | .clearFilters => { s with after := none, before := none }
  | .apply => if s.isOpen then s.apply else s
  | .clear => if s.isOpen then clear else s
  | .preset p now => if s.isOpen then s.applyPreset p now else s
  | .pickDay d => if s.isOpen then s.pickDay d else s
  | .startTime part n => if s.isOpen then ((timeSelect s.startTime part n).map s.applyStart).getD s else s
  | .endTime part n => if s.isOpen then ((timeSelect s.endTime part n).map s.applyEnd).getD s else s

def Filter.run (s : Filter) (gestures : List Gesture) : Filter := gestures.foldl Filter.step s

end DateRange

end Invokr
