/-
Digits of the bases up to sixteen.  Letters of either case stand for the values from ten on.
-/

namespace Reckon

def digitValue? (c : Char) : Option Nat :=
  if c.isDigit then some (c.toNat - '0'.toNat)
  else if 'a' ≤ c ∧ c ≤ 'f' then some (c.toNat - 'a'.toNat + 10)
  else if 'A' ≤ c ∧ c ≤ 'F' then some (c.toNat - 'A'.toNat + 10)
  else none

def isDigitOf (base : Nat) (c : Char) : Bool :=
  match digitValue? c with
  | some value => decide (value < base)
  | none => false

/-- The number with these digits, the highest first. -/
def valueInBase (base : Nat) (digits : List Nat) : Nat :=
  digits.foldl (fun value digit => base * value + digit) 0

def readDigits (base : Nat) (text : List Char) : Nat :=
  valueInBase base (text.filterMap digitValue?)

end Reckon
