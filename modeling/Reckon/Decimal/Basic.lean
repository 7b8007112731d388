import Reckon.Decimal.Binary

/-
Decimal numbers `digits * 10 ^ exponent` and the double nearest to one.
-/

namespace Reckon

/-- The number `digits * 10 ^ exponent`. -/
structure Decimal where
  digits : Nat
  exponent : Int
deriving DecidableEq, Repr

/-- How many decimal digits the number is written with. -/
def decimalLength (n : Nat) : Nat := (Nat.toDigits 10 n).length

/-- The nearest double, of two equally near ones the even one.  Every double but zero and the
infinities lies between `10 ^ -330` and `10 ^ 310`, so beyond these no power is computed. -/
def Decimal.toFloat (d : Decimal) : Float :=
  let top : Int := decimalLength d.digits + d.exponent
  if d.digits = 0 ∨ top < -330 then 0.0
  else if 310 < top then infinity
  else Float.ofScientific d.digits (decide (d.exponent < 0)) d.exponent.natAbs

theorem Decimal.toFloat_zero (exponent : Int) : (Decimal.mk 0 exponent).toFloat = 0.0 := by
  simp [Decimal.toFloat]

end Reckon
