import Reckon.Arithmetic
import Reckon.Datum.Moment
import Reckon.Decimal.Reading
import Reckon.Text.Quoted

/-
Values of a document: nothing, truth values, integers of any size, doubles, texts, dates, moments,
lists and mappings.  A mapping keeps its entries in order.
-/

namespace Reckon

inductive Datum
  | null
  | bool (value : Bool)
  | int (value : Int)
  | float (value : Float)
  | text (value : String)
  | date (value : Date)
  | moment (value : Moment)
  | list (items : List Datum)
  | map (entries : List (Datum × Datum))
deriving Inhabited

namespace Datum

mutual

/-- How messages show a value.  Texts are quoted. -/
def shown : Datum → String
  | .null => "None"
  | .bool value => if value then "True" else "False"
  | .int value => intString value
  | .float value => writeShortest value
  | .text value => quoted value
  | .date value => value.shown
  | .moment value => value.shown
  | .list items => "[" ++ ", ".intercalate (shownItems items) ++ "]"
  | .map entries => "\x7b" ++ ", ".intercalate (shownEntries entries) ++ "\x7d"

def shownItems : List Datum → List String
  | [] => []
  | item :: rest => item.shown :: shownItems rest

def shownEntries : List (Datum × Datum) → List String
  | [] => []
  | (key, value) :: rest => (key.shown ++ ": " ++ value.shown) :: shownEntries rest

end

/-- How messages show a value inside quotes of their own: a text as it stands. -/
def plain : Datum → String
  | .text value => value
  | .date value => value.plain
  | .moment value => value.plain
  | datum => datum.shown

/-- Truth values count as zero and one. -/
def integer? : Datum → Option Int
  | .bool value => some (if value then 1 else 0)
  | .int value => some value
  | _ => none

/-- The integer that a double is, if it is one. -/
def integerOfFloat? (x : Float) : Option Int :=
  match Binary.ofFloat x with
  | .finite negative mantissa exponent =>
      (wholeNumber? mantissa exponent).map fun n => if negative then -(n : Int) else n
  | _ => none

/-- Whether two values are the same key.  Numbers are compared by value, whatever their kind. -/
def sameKey : Datum → Datum → Bool
  | .null, .null => true
  | .text first, .text second => first == second
  | .date first, .date second => first == second
  | .moment first, .moment second => first.isSame second
  | .float first, .float second => first == second
  | .float first, second =>
      match integerOfFloat? first, second.integer? with
      | some x, some y => x == y
      | _, _ => false
  | first, .float second =>
      match first.integer?, integerOfFloat? second with
      | some x, some y => x == y
      | _, _ => false
  | first, second =>
      match first.integer?, second.integer? with
      | some x, some y => x == y
      | _, _ => false

/-- A repeated key keeps its place and takes the new value. -/
def putEntry (key value : Datum) : List (Datum × Datum) → List (Datum × Datum)
  | [] => [(key, value)]
  | (other, old) :: rest =>
      if other.sameKey key then (other, value) :: rest
      else (other, old) :: putEntry key value rest

/-- A mapping with each key once. -/
def ofEntries (entries : List (Datum × Datum)) : Datum :=
  .map (entries.foldl (fun found entry => putEntry entry.1 entry.2 found) [])

/-- The value of a text as key. -/
def entry? (entries : List (Datum × Datum)) (key : String) : Option Datum :=
  (entries.find? fun entry => entry.1.sameKey (.text key)).map Prod.snd

/-- Why a value is not turned into a number. -/
inductive ConversionError
  | overflow
  | unreadable (source : String)
  | noNumber (kind : String)
deriving DecidableEq, Repr

def ConversionError.message : ConversionError → String
  | .overflow => "int too large to convert to float"
  | .unreadable source => "could not convert string to float: " ++ quoted source
  | .noNumber kind => "float() argument must be a string or a real number, not '" ++ kind ++ "'"

/-- The double nearest to an integer, if that is not beyond the largest one. -/
def floatOfInt (n : Int) : Except ConversionError Float :=
  let magnitude := Float.ofNat n.natAbs
  if magnitude.isInf then .error .overflow else .ok (if n < 0 then -magnitude else magnitude)

/-- The number that a value is or, for a text, spells. -/
def toFloat : Datum → Except ConversionError Float
  | .bool value => .ok (if value then 1.0 else 0.0)
  | .int value => floatOfInt value
  | .float value => .ok value
  | .text value =>
      match readNumber? value with
      | some x => .ok x
      | none => .error (.unreadable value)
  | .null => .error (.noNumber "NoneType")
  | .date _ => .error (.noNumber "datetime.date")
  | .moment _ => .error (.noNumber "datetime.datetime")
  | .list _ => .error (.noNumber "list")
  | .map _ => .error (.noNumber "dict")

theorem sameKey_text (first second : String) :
    (text first).sameKey (text second) = (first == second) := by
  simp [sameKey]

end Datum

end Reckon
