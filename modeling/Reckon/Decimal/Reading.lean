import Reckon.Text.Blank
import Reckon.Text.Numeric
import Reckon.Token.Numeral

/-
Numbers written as a text of their own.  Beyond the numerals of expressions a sign, blanks at
both ends, digits of every script, underscores between digits and the words for infinity and for
what is not a number are read.
-/

namespace Reckon

/-- A decimal digit of any script as the ASCII digit of its value; all else stays. -/
def asciiDigit (c : Char) : Char :=
  match decimalDigit? c with
  | some value => Char.ofNat ('0'.toNat + value)
  | none => c

/-- The text without its underscores, each of which must stand between two digits. -/
def dropUnderscores? : Bool → List Char → Option (List Char)
  | _, [] => some []
  | behindDigit, c :: rest =>
      if c = '_' then
        if behindDigit ∧ (rest.head?.any Char.isDigit) then dropUnderscores? false rest else none
      else (dropUnderscores? c.isDigit rest).map (c :: ·)

/-- A number without a sign. -/
def readMagnitude? (text : List Char) : Option Float :=
  let word := String.ofList (text.map Char.toLower)
  if word = "inf" ∨ word = "infinity" then some infinity
  else if word = "nan" then some notANumber
  else
    match Numeral.scan? text with
    | some (numeral, []) => some numeral.value
    | _ => none

/-- Blanks that may stand around a number, which separators may not. -/
def isPadding (c : Char) : Bool := isBlank c && !isSeparator c

def readNumber? (text : String) : Option Float := do
  let plain ← dropUnderscores? false ((trimEnds isPadding text.toList).map asciiDigit)
  let (sign, magnitude) := Numeral.scanSign plain
  let value ← readMagnitude? magnitude
  return if sign = some '-' then -value else value

end Reckon
