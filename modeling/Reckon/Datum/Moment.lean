import Reckon.Decimal.Text

/-
Dates of the calendar and times of day.  The clock of a time may be known to be ahead of universal
time by some minutes, or behind it by a negative number of them.
-/

namespace Reckon

def isLeapYear (year : Nat) : Bool :=
  year % 4 == 0 && (year % 100 != 0 || year % 400 == 0)

def daysIn (year month : Nat) : Nat :=
  if month = 2 then if isLeapYear year then 29 else 28
  else if month ∈ [4, 6, 9, 11] then 30
  else 31

structure Date where
  year : Nat
  month : Nat
  day : Nat
deriving DecidableEq, Repr

structure Clock where
  hour : Nat
  minute : Nat
  second : Nat
  microsecond : Nat
deriving DecidableEq, Repr

/-- A time of day on a date. -/
structure Moment where
  date : Date
  clock : Clock
  minutesAhead : Option Int
deriving DecidableEq, Repr

def intString (n : Int) : String := String.ofList (intText n)

def padZeros (width n : Nat) : String :=
  let digits := natText n
  String.ofList (List.replicate (width - digits.length) '0' ++ digits)

/-- How messages show a number of minutes that is not zero: whole days, which may be negative, and
the seconds beyond them. -/
def shownMinutes (minutes : Int) : String :=
  let named (name : String) (value : Int) :=
    if value = 0 then [] else [name ++ "=" ++ intString value]
  "datetime.timedelta(" ++
    ", ".intercalate (named "days" (minutes / 1440) ++ named "seconds" (60 * (minutes % 1440))) ++
    ")"

namespace Date

def fields (date : Date) : List Nat := [date.year, date.month, date.day]

def shown (date : Date) : String :=
  "datetime.date(" ++ ", ".intercalate (date.fields.map toString) ++ ")"

def plain (date : Date) : String :=
  padZeros 4 date.year ++ "-" ++ padZeros 2 date.month ++ "-" ++ padZeros 2 date.day

/-- The number of the day when days are counted through all years, the first day being one. -/
def dayNumber (date : Date) : Nat :=
  let years := date.year - 1
  let months := (List.range date.month).drop 1
  let daysOfMonths := months.foldl (fun days month => days + daysIn date.year month) 0
  365 * years + years / 4 - years / 100 + years / 400 + daysOfMonths + date.day

end Date

namespace Clock

/-- Seconds and microseconds are left out where nothing but zeros would follow. -/
def fields (clock : Clock) : List Nat :=
  [clock.hour, clock.minute] ++
    (if clock.microsecond ≠ 0 then [clock.second, clock.microsecond]
    else if clock.second ≠ 0 then [clock.second]
    else [])

def plain (clock : Clock) : String :=
  ":".intercalate ([clock.hour, clock.minute, clock.second].map (padZeros 2)) ++
    if clock.microsecond = 0 then "" else "." ++ padZeros 6 clock.microsecond

end Clock

namespace Moment

def shownZone (minutes : Int) : String :=
  if minutes = 0 then "datetime.timezone.utc"
  else "datetime.timezone(" ++ shownMinutes minutes ++ ")"

def shown (moment : Moment) : String :=
  let zone := moment.minutesAhead.toList.map fun minutes => "tzinfo=" ++ shownZone minutes
  "datetime.datetime(" ++
    ", ".intercalate ((moment.date.fields ++ moment.clock.fields).map toString ++ zone) ++ ")"

def plainZone (minutes : Int) : String :=
  (if minutes < 0 then "-" else "+") ++
    padZeros 2 (minutes.natAbs / 60) ++ ":" ++ padZeros 2 (minutes.natAbs % 60)

def plain (moment : Moment) : String :=
  moment.date.plain ++ " " ++ moment.clock.plain ++
    (moment.minutesAhead.map plainZone).getD ""

/-- The microseconds up to the moment, in universal time where that is known. -/
def microseconds (moment : Moment) : Int :=
  let minutes : Int := (24 * moment.date.dayNumber + moment.clock.hour) * 60 +
    moment.clock.minute - moment.minutesAhead.getD 0
  (60 * minutes + moment.clock.second) * 1000000 + moment.clock.microsecond

/-- Whether two moments are the same.  One in universal time is never the same as one that may be
anywhere. -/
def isSame (first second : Moment) : Bool :=
  first.minutesAhead.isSome == second.minutesAhead.isSome &&
    first.microseconds == second.microseconds

end Moment

end Reckon
