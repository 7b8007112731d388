import Reckon.Decimal.Basic

/-
Numerals: decimal digits with an optional fraction and an optional exponent.  Only the ASCII
digits count.  `12`, `12.`, `12.5`, `.5` and `12e-3` are numerals; a lone point is none, and an
`e` without digits behind it ends the numeral in front of it.
-/

namespace Reckon

structure Numeral.Exponent where
  mark : Char
  sign : Option Char
  digits : List Char
deriving DecidableEq, Repr

/-- A numeral by its parts.  The fraction is there, if only empty, when the point is. -/
structure Numeral where
  whole : List Char
  fraction : Option (List Char)
  exponent : Option Numeral.Exponent
deriving DecidableEq, Repr

namespace Numeral

def digitsValue (digits : List Char) : Nat :=
  digits.foldl (fun value c => 10 * value + (c.toNat - '0'.toNat)) 0

def Exponent.text (exponent : Exponent) : List Char :=
  exponent.mark :: exponent.sign.toList ++ exponent.digits

def Exponent.value (exponent : Exponent) : Int :=
  if exponent.sign = some '-' then -(digitsValue exponent.digits : Int)
  else digitsValue exponent.digits

def fractionText : Option (List Char) → List Char
  | some digits => '.' :: digits
  | none => []

def exponentText : Option Exponent → List Char
  | some exponent => exponent.text
  | none => []

def text (numeral : Numeral) : List Char :=
  numeral.whole ++ fractionText numeral.fraction ++ exponentText numeral.exponent

/-- The decimal number that the numeral stands for. -/
def decimal (numeral : Numeral) : Decimal :=
  let fraction := numeral.fraction.getD []
  let shift := match numeral.exponent with
    | some exponent => exponent.value
    | none => 0
  ⟨digitsValue (numeral.whole ++ fraction), shift - fraction.length⟩

def value (numeral : Numeral) : Float := numeral.decimal.toFloat

def scanSign : List Char → Option Char × List Char
  | [] => (none, [])
  | c :: rest => if c = '+' ∨ c = '-' then (some c, rest) else (none, c :: rest)

/-- An exponent at the front of the text, and what follows it. -/
def scanExponent : List Char → Option Exponent × List Char
  | [] => (none, [])
  | c :: rest =>
      if c = 'e' ∨ c = 'E' then
        let (sign, digits) := scanSign rest
        if digits.takeWhile Char.isDigit = [] then (none, c :: rest)
        else (some ⟨c, sign, digits.takeWhile Char.isDigit⟩, digits.dropWhile Char.isDigit)
      else (none, c :: rest)

/-- A fraction at the front of the text, and what follows it. -/
def scanFraction : List Char → Option (List Char) × List Char
  | [] => (none, [])
  | c :: rest =>
      if c = '.' then (some (rest.takeWhile Char.isDigit), rest.dropWhile Char.isDigit)
      else (none, c :: rest)

/-- The longest numeral at the front of the text, and what follows it. -/
def scan? (text : List Char) : Option (Numeral × List Char) :=
  let whole := text.takeWhile Char.isDigit
  let (fraction, afterFraction) := scanFraction (text.dropWhile Char.isDigit)
  let (exponent, rest) := scanExponent afterFraction
  if whole = [] ∧ fraction.getD [] = [] then none else some (⟨whole, fraction, exponent⟩, rest)

theorem scanSign_append (text : List Char) :
    (scanSign text).1.toList ++ (scanSign text).2 = text := by
  cases text with
  | nil => rfl
  | cons c rest =>
      simp only [scanSign]
      split <;> rfl

theorem scanExponent_append (text : List Char) :
    exponentText (scanExponent text).1 ++ (scanExponent text).2 = text := by
  cases text with
  | nil => rfl
  | cons c rest =>
      by_cases hmark : c = 'e' ∨ c = 'E'
      · by_cases hdigits : (scanSign rest).2.takeWhile Char.isDigit = []
        · simp only [scanExponent, hmark, hdigits, ↓reduceIte]
          rfl
        · simp only [scanExponent, hmark, hdigits, ↓reduceIte, exponentText, Exponent.text,
            List.cons_append, List.append_assoc, List.takeWhile_append_dropWhile,
            scanSign_append]
      · simp only [scanExponent, hmark, ↓reduceIte]
        rfl

theorem scanFraction_append (text : List Char) :
    fractionText (scanFraction text).1 ++ (scanFraction text).2 = text := by
  cases text with
  | nil => rfl
  | cons c rest =>
      by_cases hc : c = '.'
      · simp only [scanFraction, hc, ↓reduceIte, fractionText, List.cons_append,
          List.takeWhile_append_dropWhile]
      · simp only [scanFraction, hc, ↓reduceIte]
        rfl

/-- Scanning splits the text: nothing is lost and nothing is added. -/
theorem scan?_append {text rest : List Char} {numeral : Numeral}
    (hscan : scan? text = some (numeral, rest)) : numeral.text ++ rest = text := by
  simp only [scan?] at hscan
  split at hscan
  · cases hscan
  · cases hscan
    simp only [Numeral.text, List.append_assoc, scanExponent_append, scanFraction_append,
      List.takeWhile_append_dropWhile]

/-- A numeral has a digit, so it has a text. -/
theorem scan?_text_ne_nil {text rest : List Char} {numeral : Numeral}
    (hscan : scan? text = some (numeral, rest)) : numeral.text ≠ [] := by
  simp only [scan?] at hscan
  split at hscan
  · cases hscan
  · rename_i hdigits
    cases hscan
    intro htext
    simp only [Numeral.text, List.append_eq_nil_iff] at htext
    refine hdigits ⟨htext.1.1, ?_⟩
    cases hfraction : (scanFraction (text.dropWhile Char.isDigit)).1 with
    | none => rfl
    | some digits => simp [hfraction, fractionText] at htext

end Numeral

end Reckon
