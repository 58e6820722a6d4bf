import Invokr.Calendar
import Invokr.Json

namespace Invokr

/-- An element of a field: a step through all values, a value or a range, of numbers or of names. -/
inductive CronItem where
  | all (step : Nat)
  | point (named : Bool) (n : Nat)
  | span (named : Bool) (a b step : Nat)
  deriving DecidableEq, Repr

/-- What a field admits: the numbers from `lo` to `hi`, and names counted from `base`. -/
structure CronField where
  lo : Nat
  hi : Nat
  base : Nat

namespace CronField

def minute : CronField := ⟨0, 59, 0⟩
def hour : CronField := ⟨0, 23, 0⟩
def dayOfMonth : CronField := ⟨1, 31, 0⟩
def month : CronField := ⟨1, 12, 1⟩

/-- The day of the week of the `cron` crate, 1 for Sunday. -/
def crateDay : CronField := ⟨1, 7, 1⟩

/-- The day of the week of pg_cron, 0 and 7 for Sunday. -/
def vixieDay : CronField := ⟨0, 7, 0⟩

def value (f : CronField) (named : Bool) (n : Nat) : Nat := if named then n + f.base else n

/-- Every `step`-th number from `a` to `b`. -/
def progression (a b step : Nat) : List Nat := (List.range (b + 1)).filter fun n => a ≤ n && (n - a) % step = 0

def admits (f : CronField) : CronItem → Bool
  | .all step => step ≠ 0
  | .point named n => f.lo ≤ f.value named n && f.value named n ≤ f.hi
  | .span named a b step => f.lo ≤ f.value named a && a ≤ b && f.value named b ≤ f.hi && step ≠ 0

def values (f : CronField) : CronItem → List Nat
  | .all step => progression f.lo f.hi step
  | .point named n => [f.value named n]
  | .span named a b step => progression (f.value named a) (f.value named b) step

def read (f : CronField) (items : List CronItem) : List Nat := items.flatMap f.values

end CronField

/-- The five fields of an expression. -/
structure CronText where
  minute : List CronItem
  hour : List CronItem
  dayOfMonth : List CronItem
  month : List CronItem
  dayOfWeek : List CronItem
  deriving DecidableEq, Repr

section text

def dayNames : List String := ["SUN", "MON", "TUE", "WED", "THU", "FRI", "SAT"]

def monthNames : List String := ["JAN", "FEB", "MAR", "APR", "MAY", "JUN", "JUL", "AUG", "SEP", "OCT", "NOV", "DEC"]

/-- The pieces between the characters that satisfy `p`. -/
def piecesAt (p : Char → Bool) : List Char → List (List Char)
  | [] => [[]]
  | c :: cs =>
    if p c then [] :: piecesAt p cs
    else match piecesAt p cs with
      | [] => [[c]]
      | piece :: pieces => (c :: piece) :: pieces

def splitWhitespace (cs : List Char) : List (List Char) := (piecesAt Char.isWhitespace cs).filter (· ≠ [])

def readNat (cs : List Char) : Option Nat :=
  if cs ≠ [] && cs.all Char.isDigit then some (cs.foldl (fun n c => 10 * n + (c.toNat - 48)) 0) else none

/-- A number, or the place of a name. -/
def readValue (names : List String) (cs : List Char) : Option (Bool × Nat) :=
  match readNat cs with
  | some n => some (false, n)
  | none => (names.findIdx? fun name => name.toList = cs.map Char.toUpper).map fun i => (true, i)

def readItem (names : List String) (cs : List Char) : Option CronItem :=
  match piecesAt (· = '/') cs with
  | [body] => range body 1 true
  | [body, step] => (readNat step).bind fun k => range body k false
  | _ => none
where
  range (body : List Char) (step : Nat) (plain : Bool) : Option CronItem :=
    if body = ['*'] then some (.all step)
    else match piecesAt (· = '-') body with
      | [a] => if plain then (readValue names a).map fun (named, n) => .point named n else none
      | [a, b] =>
        match readValue names a, readValue names b with
        | some (named, m), some (named', n) => if named = named' then some (.span named m n step) else none
        | _, _ => none
      | _ => none

def readField (names : List String) (cs : List Char) : Option (List CronItem) := (piecesAt (· = ',') cs).mapM (readItem names)

def readText (text : String) : Option CronText :=
  match splitWhitespace text.toList with
  | [minute, hour, dayOfMonth, month, dayOfWeek] => do
    return ⟨← readField [] minute, ← readField [] hour, ← readField [] dayOfMonth, ← readField monthNames month,
      ← readField dayNames dayOfWeek⟩
  | _ => none

end text

/-- The rules that both readers apply to the fields other than the day of the week. -/
def CronText.common (x : CronText) : Bool :=
  x.minute.all CronField.minute.admits && x.hour.all CronField.hour.admits && x.dayOfMonth.all CronField.dayOfMonth.admits &&
    x.month.all CronField.month.admits

/-- `PgCronExpr::try_from` as far as pg_cron reads the text too: five fields that the `cron` crate
parses. -/
def parseExpr (text : String) : Option CronText :=
  (readText text).filter fun x => x.common && x.dayOfWeek.all CronField.crateDay.admits

/-- `cron.schedule` takes what pg_cron parses. -/
def parseEntry (schedule : String) : Option CronText :=
  (readText schedule).filter fun x => x.common && x.dayOfWeek.all CronField.vixieDay.admits

/-- A moment as a clock on the wall shows it. -/
structure Reading where
  second : Nat
  minute : Nat
  hour : Nat
  dayOfMonth : Nat
  month : Nat
  dayOfWeek : Nat
  deriving DecidableEq, Repr

/-- What a clock in GMT shows `t` seconds after the epoch. -/
def reading (t : Int) : Reading :=
  let z := t / 86400
  let s := (t % 86400).toNat
  ⟨s % 60, s / 60 % 60, s / 3600, (Civil.date z).2, (Civil.date z).1, Civil.weekday z⟩

namespace CronText

variable (x : CronText)

/-- The part of the two rules that is the same. -/
def onTime (r : Reading) : Bool :=
  r.second = 0 && r.minute ∈ CronField.minute.read x.minute && r.hour ∈ CronField.hour.read x.hour &&
    r.month ∈ CronField.month.read x.month

def onDayOfMonth (d : Nat) : Bool := d ∈ CronField.dayOfMonth.read x.dayOfMonth

/-- The `cron` crate: both day fields must match, and Sunday is 1. -/
def crateDay (d w : Nat) : Bool := x.onDayOfMonth d && w + 1 ∈ CronField.crateDay.read x.dayOfWeek

def vixieWeekday (w : Nat) : Bool := (CronField.vixieDay.read x.dayOfWeek).any fun n => n % 7 = w

/-- A field that begins with a star is not restricted. -/
def starred : List CronItem → Bool
  | .all _ :: _ => true
  | _ => false

/-- pg_cron: if both day fields are restricted, one of them must match. -/
def vixieDay (d w : Nat) : Bool :=
  if starred x.dayOfMonth || starred x.dayOfWeek then x.onDayOfMonth d && x.vixieWeekday w
  else x.onDayOfMonth d || x.vixieWeekday w

/-- `Schedule::includes`. -/
def includes (r : Reading) : Bool := x.onTime r && x.crateDay r.dayOfMonth r.dayOfWeek

/-- Whether pg_cron fires at a minute that the clock shows. -/
def fires (r : Reading) : Bool := x.onTime r && x.vixieDay r.dayOfMonth r.dayOfWeek

end CronText

end Invokr
