import SchemaChange.Text.Digit

/-!
# Dates and times

Days of the proleptic Gregorian calendar, local times down to the nanosecond, and local
times with an offset of whole minutes. A second of sixty stands for a leap second. Only
possible dates and times exist as values.
-/
namespace SchemaChange

/-- A year whose February has twenty-nine days. -/
def isLeapYear (year : Int) : Bool :=
  year % 4 == 0 && (year % 100 != 0 || year % 400 == 0)

/-- The number of days of a month. -/
def daysIn (year : Int) (month : Nat) : Nat :=
  match month with
  | 2 => if isLeapYear year then 29 else 28
  | 4 | 6 | 9 | 11 => 30
  | _ => 31

/-- The years that a date may lie in. -/
def minYear : Int := -262143
def maxYear : Int := 262142

/-- The parts of a possible date. -/
def IsDate (year : Int) (month day : Nat) : Prop :=
  minYear ≤ year ∧ year ≤ maxYear ∧ 1 ≤ month ∧ month ≤ 12 ∧ 1 ≤ day ∧
    day ≤ daysIn year month

instance (year : Int) (month day : Nat) : Decidable (IsDate year month day) := by
  unfold IsDate; infer_instance

/-- A day of the calendar. -/
structure Date where
  year : Int
  month : Nat
  day : Nat
  isDate : IsDate year month day
  deriving DecidableEq

/-- A local date and time; second sixty is a leap second. -/
structure DateTime where
  date : Date
  hour : Nat
  minute : Nat
  second : Nat
  nanosecond : Nat
  hour_lt : hour < 24
  minute_lt : minute < 60
  second_le : second ≤ 60
  nanosecond_lt : nanosecond < 1000000000
  deriving DecidableEq

/-- A local date and time together with its distance from universal time in minutes. -/
structure OffsetDateTime where
  timeOfDay : DateTime
  offset : Int
  offset_lt : offset.natAbs < 24 * 60
  deriving DecidableEq

namespace Date

def ofParts? (year : Int) (month day : Nat) : Option Date :=
  if h : IsDate year month day then some ⟨year, month, day, h⟩ else none

end Date

namespace DateTime

def ofParts? (date : Date) (hour minute second nanosecond : Nat) : Option DateTime :=
  if h : hour < 24 ∧ minute < 60 ∧ second ≤ 60 ∧ nanosecond < 1000000000 then
    some ⟨date, hour, minute, second, nanosecond, h.1, h.2.1, h.2.2.1, h.2.2.2⟩
  else none

/-- Minutes since midnight. -/
def minuteOfDay (t : DateTime) : Int := (60 * t.hour + t.minute : Nat)

end DateTime

namespace OffsetDateTime

/-- The universal time must fall on a day of the calendar as well. -/
def ofParts? (t : DateTime) (offset : Int) : Option OffsetDateTime :=
  let first := Date.ofParts? minYear 1 1
  let last := Date.ofParts? maxYear 12 31
  let universal := t.minuteOfDay - offset
  if (universal < 0 ∧ some t.date = first) ∨ (24 * 60 ≤ universal ∧ some t.date = last) then
    none
  else if h : offset.natAbs < 24 * 60 then some ⟨t, offset, h⟩
  else none

end OffsetDateTime

end SchemaChange
