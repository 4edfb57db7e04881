import WireScript.Text.Basic

/-!
# Dates and times

A date is a day of the Gregorian calendar, extended to all years from 1 on.  A moment is a time of
such a day, as a clock showed it; if it is known how far that clock was ahead of universal time, the
moment is also an instant, and clocks of two places may show the same one.
-/

namespace WireScript

/-- A day. -/
structure Date where
  year : Nat
  month : Nat
  day : Nat
  deriving DecidableEq, Inhabited

/-- A time of a day. -/
structure Moment where
  date : Date
  hour : Nat
  minute : Nat
  second : Nat
  microsecond : Nat
  /-- How many minutes the clock was ahead of universal time, if that is known. -/
  ahead : Option Int
  deriving DecidableEq, Inhabited

/-- How many seconds a day has. -/
def secondsPerDay : Nat := 86400

/-- The printed form of a number of minutes, as days and seconds.  Only the days can be
negative. -/
def renderDuration (minutes : Int) : Text :=
  let days := Int.fdiv (minutes * 60) secondsPerDay
  let seconds := Int.fmod (minutes * 60) secondsPerDay
  let parts : List Text :=
    (if days = 0 then [] else ["days=" ++ Text.ofInt days]) ++
      (if seconds = 0 then [] else ["seconds=" ++ Text.ofInt seconds])
  "datetime.timedelta(" ++ (if parts.isEmpty then ("0" : Text) else Text.join ", " parts) ++ ")"

/-- What is wrong with numbers that should be a date or a moment. -/
inductive CalendarFault where
  | year (given : Nat)
  | month
  | day
  | hour
  | minute
  | second
  /-- A clock that is a day or more ahead of universal time, or behind it. -/
  | ahead (minutes : Int)
  deriving DecidableEq

/-- What is wrong, in words. -/
def CalendarFault.message : CalendarFault → Text
  | year given => "year " ++ Text.ofNat given ++ " is out of range"
  | month => "month must be in 1..12"
  | day => "day is out of range for month"
  | hour => "hour must be in 0..23"
  | minute => "minute must be in 0..59"
  | second => "second must be in 0..59"
  | ahead minutes =>
    "offset must be a timedelta strictly between -timedelta(hours=24) and " ++
      "timedelta(hours=24), not " ++ renderDuration minutes ++ "."

namespace Date

/-- Whether a year has a day more than others. -/
def isLeap (year : Nat) : Bool :=
  year % 4 == 0 && (year % 100 != 0 || year % 400 == 0)

/-- How many days a month has. -/
def daysIn (year month : Nat) : Nat :=
  if month = 2 then if isLeap year then 29 else 28
  else if [4, 6, 9, 11].contains month then 30
  else 31

/-- The date with given numbers. -/
def ofNumbers (year month day : Nat) : Except CalendarFault Date :=
  if year < 1 ∨ 9999 < year then .error (.year year)
  else if month < 1 ∨ 12 < month then .error .month
  else if day < 1 ∨ daysIn year month < day then .error .day
  else .ok ⟨year, month, day⟩

/-- How many days there were before a date. -/
def dayNumber (d : Date) : Nat :=
  let years := d.year - 1
  let before := years * 365 + years / 4 - years / 100 + years / 400
  let months := (List.range d.month).tail
  months.foldl (fun n month => n + daysIn d.year month) before + (d.day - 1)

/-- The numbers of a date. -/
def numbers (d : Date) : List Nat := [d.year, d.month, d.day]

/-- The printed form of a date. -/
def render (d : Date) : Text :=
  "datetime.date(" ++ Text.join ", " (d.numbers.map Text.ofNat) ++ ")"

end Date

namespace Moment

/-- The moment with given numbers.  The clock comes first, then the date, then the time. -/
def ofNumbers (year month day hour minute second microsecond : Nat) (ahead : Option Int) :
    Except CalendarFault Moment := do
  match ahead with
  | some minutes => if 24 * 60 ≤ minutes.natAbs then throw (.ahead minutes)
  | none => pure ()
  let date ← Date.ofNumbers year month day
  if 23 < hour then throw .hour
  if 59 < minute then throw .minute
  if 59 < second then throw .second
  return ⟨date, hour, minute, second, microsecond, ahead⟩

/-- The number of microseconds before a moment, by a clock that is a number of minutes ahead. -/
def microseconds (m : Moment) (ahead : Int) : Int :=
  let minutes : Int := (m.date.dayNumber * 24 + m.hour) * 60 + m.minute - ahead
  (minutes * 60 + m.second) * 1000000 + m.microsecond

/-- Whether two moments are equal: as instants if both are, and never if only one is. -/
def isSame (m n : Moment) : Bool :=
  match m.ahead, n.ahead with
  | some a, some b => m.microseconds a == n.microseconds b
  | none, none => m == n
  | _, _ => false

/-- The printed form of a number of minutes that a clock is ahead. -/
def renderAhead (minutes : Int) : Text :=
  if minutes = 0 then "datetime.timezone.utc"
  else "datetime.timezone(" ++ renderDuration minutes ++ ")"

/-- The printed form of a moment.  Seconds and microseconds are left out if they and all behind them
are zero. -/
def render (m : Moment) : Text :=
  let fine := if m.microsecond != 0 then [m.second, m.microsecond]
    else if m.second != 0 then [m.second]
    else []
  let numbers := m.date.numbers ++ [m.hour, m.minute] ++ fine
  let clock : List Text := m.ahead.toList.map fun minutes => "tzinfo=" ++ renderAhead minutes
  "datetime.datetime(" ++ Text.join ", " (numbers.map Text.ofNat ++ clock) ++ ")"

end Moment

end WireScript
