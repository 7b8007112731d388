import Reckon.Datum.Basic
import Reckon.Text.Parts
import Reckon.Yaml.Timestamp

/-
What a plain scalar of a YAML 1.1 document stands for: nothing, a truth value, an integer, a
double, a date, a moment or else its own text.  Underscores may stand among the digits of numbers,
and numbers may be written in base sixty with colons between the digits, as times are.
-/

namespace Reckon.Yaml

namespace Plain

/-- A word in lower case, with a capital or in upper case, but not in a mixture. -/
def isWord (word text : String) : Bool :=
  text == word || text == word.capitalize || text == word.toUpper

def truth? (text : String) : Option Bool :=
  if ["yes", "true", "on"].any (isWord · text) then some true
  else if ["no", "false", "off"].any (isWord · text) then some false
  else none

def isNull (text : String) : Bool := text == "" || text == "~" || isWord "null" text

/-- Digits of a base with underscores anywhere among them. -/
def isSpaced (base : Nat) (text : List Char) : Bool :=
  text.all fun c => c == '_' || isDigitOf base c

/-- As `isSpaced`, but there is something and it does not begin with an underscore. -/
def isSpacedNumber (base : Nat) (text : List Char) : Bool :=
  text.head?.any (isDigitOf base) && isSpaced base text

/-- A digit of base sixty: one decimal digit, or two that make less than sixty. -/
def isSixtieth : List Char → Bool
  | [c] => c.isDigit
  | [c, d] => isDigitOf 6 c && d.isDigit
  | _ => false

/-- Whether a minus sign stands in front, and what follows the sign. -/
def unsign (text : List Char) : Bool × List Char :=
  let (sign, rest) := Numeral.scanSign text
  (decide (sign = some '-'), rest)

/-- A number behind the mark of its base. -/
def marked? (base : Nat) (digits : List Char) : Option (Except Error Nat) :=
  if digits ≠ [] ∧ isSpaced base digits then
    some (if digits.all (· == '_') then .error (.noDigits base) else .ok (readDigits base digits))
  else none

def natural? : List Char → Option (Except Error Nat)
  | [] => none
  | '0' :: 'b' :: digits => marked? 2 digits
  | '0' :: 'x' :: digits => marked? 16 digits
  | '0' :: digits => if isSpaced 8 digits then some (.ok (readDigits 8 digits)) else none
  | text =>
      match partsAt ':' text with
      | first :: more =>
          if isSpacedNumber 10 first && more.all isSixtieth then
            some (.ok (valueInBase 60 (readDigits 10 first :: more.map (readDigits 10))))
          else none
      | [] => none

def integer? (text : List Char) : Option (Except Error Int) :=
  let (negative, digits) := unsign text
  (natural? digits).map fun result =>
    result.map fun value => if negative then -(value : Int) else value

/-- A fraction's digits and what follows them, behind a point. -/
def fraction? : List Char → Option (List Char × List Char)
  | '.' :: rest =>
      some (rest.takeWhile (isSpaced 10 [·]), rest.dropWhile (isSpaced 10 [·]))
  | _ => none

/-- An exponent, which must have a sign. -/
def isExponent : List Char → Bool
  | mark :: sign :: digits =>
      (mark == 'e' || mark == 'E') && (sign == '+' || sign == '-') && digits != [] &&
        digits.all Char.isDigit
  | _ => false

/-- The value of a numeral whose form has been checked. -/
def numeralValue (text : List Char) : Float :=
  match Numeral.scan? (text.filter (· != '_')) with
  | some (numeral, _) => numeral.value
  | none => 0.0

/-- A numeral with a point.  One that begins with the point has no sign. -/
def pointed? (signed : Bool) (text : List Char) : Option Float := do
  let whole := text.takeWhile (isSpaced 10 [·])
  let (fraction, rest) ← fraction? (text.dropWhile (isSpaced 10 [·]))
  let begins := isSpacedNumber 10 whole ||
    whole == [] && !signed && isSpacedNumber 10 fraction
  if begins && (rest == [] || isExponent rest) then some (numeralValue text) else none

/-- A numeral in base sixty whose last digit has a point behind it and perhaps a fraction. -/
def sixtieths? (text : List Char) : Option Float := do
  let parts := partsAt ':' text
  let last := parts.getLastD []
  let (_, rest) ← fraction? (last.dropWhile Char.isDigit)
  let digits := parts.dropLast ++ [last.takeWhile Char.isDigit]
  match digits with
  | first :: second :: more =>
      if rest == [] && isSpacedNumber 10 first && (second :: more).all isSixtieth then
        let step (sum : Float × Nat) (part : List Char) :=
          (sum.1 + numeralValue part * Float.ofNat sum.2, 60 * sum.2)
        some (parts.reverse.foldl step (0.0, 1)).1
      else none
  | _ => none

def magnitude? (signed : Bool) (text : List Char) : Option Float :=
  if [".inf", ".Inf", ".INF"].contains (String.ofList text) then some infinity
  else (pointed? signed text).or (sixtieths? text)

def float? (text : List Char) : Option Float :=
  if [".nan", ".NaN", ".NAN"].contains (String.ofList text) then some notANumber
  else
    let (negative, rest) := unsign text
    (magnitude? (decide (rest ≠ text)) rest).map fun value => if negative then -value else value

/-- What a plain scalar stands for.  The sign of merging and the sign of a default value have a
meaning as keys only. -/
def resolve (text : List Char) : Except Error Datum :=
  let source := String.ofList text
  if isNull source then .ok .null
  else if source = "<<" ∨ source = "=" then .error .malformed
  else
    match truth? source, float? text, integer? text, Timestamp.date? text,
        Timestamp.moment? text with
    | some value, _, _, _, _ => .ok (.bool value)
    | _, some value, _, _, _ => .ok (.float value)
    | _, _, some result, _, _ => result.map .int
    | _, _, _, some date, _ => (Timestamp.checkDate date).map .date
    | _, _, _, _, some moment => (Timestamp.check moment).map .moment
    | _, _, _, _, _ => .ok (.text source)

/-- What a plain scalar stands for as a key.  The sign of a default value is a text like others. -/
def resolveKey (text : List Char) : Except Error Datum :=
  if text = ['='] then .ok (.text "=") else resolve text

end Plain

end Reckon.Yaml
