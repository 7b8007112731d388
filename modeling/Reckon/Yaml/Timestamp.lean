import Reckon.Text.Digit
import Reckon.Yaml.Error

/-
How dates and times of day are written as plain scalars.  A date alone has two digits for its month
and two for its day.  In front of a time one of either is enough, and behind it may stand how far
the clock is ahead of universal time, or the letter of universal time itself.
-/

namespace Reckon.Yaml.Timestamp

/-- A number of `least` to `most` digits, and what follows it. -/
def digits? (least most : Nat) (text : List Char) : Option (Nat × List Char) :=
  let digits := (text.take most).takeWhile Char.isDigit
  if least ≤ digits.length then some (readDigits 10 digits, text.drop digits.length) else none

def behind? (mark : Char) : List Char → Option (List Char)
  | c :: rest => if c = mark then some rest else none
  | [] => none

/-- A date whose month and day have at least so many digits, and what follows it. -/
def datePart? (least : Nat) (text : List Char) : Option (Date × List Char) := do
  let (year, rest) ← digits? 4 4 text
  let (month, rest) ← digits? least 2 (← behind? '-' rest)
  let (day, rest) ← digits? least 2 (← behind? '-' rest)
  return (⟨year, month, day⟩, rest)

def isBlank (c : Char) : Bool := c == ' ' || c == '\t'

/-- What follows the letter or the blanks between a date and a time. -/
def behindGap? : List Char → Option (List Char)
  | [] => none
  | c :: rest =>
      if c = 'T' ∨ c = 't' then some rest
      else if isBlank c then some (rest.dropWhile isBlank)
      else none

/-- The digits behind the point of a second, and what follows them. -/
def fraction : List Char → List Char × List Char
  | '.' :: rest => (rest.takeWhile Char.isDigit, rest.dropWhile Char.isDigit)
  | text => ([], text)

/-- The microseconds of a fraction.  Further digits do not count. -/
def microseconds (fraction : List Char) : Nat :=
  readDigits 10 ((fraction ++ List.replicate 6 '0').take 6)

def clockPart? (text : List Char) : Option (Clock × List Char) := do
  let (hour, rest) ← digits? 1 2 text
  let (minute, rest) ← digits? 2 2 (← behind? ':' rest)
  let (second, rest) ← digits? 2 2 (← behind? ':' rest)
  let (digits, rest) := fraction rest
  return (⟨hour, minute, second, microseconds digits⟩, rest)

/-- Hours and perhaps minutes, in minutes. -/
def span? (text : List Char) : Option Nat := do
  let (hours, rest) ← digits? 1 2 text
  if rest = [] then return 60 * hours
  let (minutes, rest) ← digits? 2 2 (← behind? ':' rest)
  if rest = [] then return 60 * hours + minutes else none

/-- How far the clock is ahead of universal time, if that is said at all. -/
def zone? (text : List Char) : Option (Option Int) :=
  if text = [] then some none
  else
    match text.dropWhile isBlank with
    | ['Z'] => some (some 0)
    | '+' :: rest => (span? rest).map fun minutes => some (minutes : Int)
    | '-' :: rest => (span? rest).map fun minutes => some (-(minutes : Int))
    | _ => none

def moment? (text : List Char) : Option Moment := do
  let (date, rest) ← datePart? 1 text
  let (clock, rest) ← clockPart? (← behindGap? rest)
  let minutesAhead ← zone? rest
  return ⟨date, clock, minutesAhead⟩

def date? (text : List Char) : Option Date := do
  let (date, rest) ← datePart? 2 text
  if rest = [] then return date else none

/-- A date of the calendar. -/
def checkDate (date : Date) : Except Error Date :=
  if date.year = 0 then .error .yearOutOfRange
  else if date.month = 0 ∨ 12 < date.month then .error .monthOutOfRange
  else if date.day = 0 ∨ daysIn date.year date.month < date.day then .error .dayOutOfRange
  else .ok date

/-- A time of day, of which no second is the sixtieth. -/
def checkClock (clock : Clock) : Except Error Clock :=
  if 23 < clock.hour then .error .hourOutOfRange
  else if 59 < clock.minute then .error .minuteOutOfRange
  else if 59 < clock.second then .error .secondOutOfRange
  else .ok clock

/-- A clock is less than a day ahead of universal time or behind it. -/
def checkZone (minutes : Int) : Except Error Int :=
  if 1440 ≤ minutes.natAbs then .error (.zoneOutOfRange minutes) else .ok minutes

def check (moment : Moment) : Except Error Moment := do
  let minutesAhead ← moment.minutesAhead.mapM checkZone
  let date ← checkDate moment.date
  let clock ← checkClock moment.clock
  return ⟨date, clock, minutesAhead⟩

end Reckon.Yaml.Timestamp
