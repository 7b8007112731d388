import Reckon.Decimal.Basic

/-
The shortest decimal that reads back as a given double.  All comparisons are exact: a positive
double is the quotient of two natural numbers, and so are the ends of the interval of numbers
that round to it.
-/

namespace Reckon

/-- A positive number as a quotient. -/
structure Quotient10 where
  numerator : Nat
  denominator : Nat
deriving DecidableEq, Repr

/-- `mantissa * 2 ^ exponent` as a quotient. -/
def Quotient10.ofBinary (mantissa : Nat) (exponent : Int) : Quotient10 :=
  ⟨mantissa * powerOf 2 exponent.toNat, powerOf 2 (-exponent).toNat⟩

/-- The quotient divided by `10 ^ power`. -/
def Quotient10.shift (x : Quotient10) (power : Int) : Quotient10 :=
  ⟨x.numerator * powerOf 10 (-power).toNat, x.denominator * powerOf 10 power.toNat⟩

def Quotient10.floor (x : Quotient10) : Nat := x.numerator / x.denominator

/-- The exponent of the leading decimal digit: the difference of the two lengths, or one less. -/
def Quotient10.leading (x : Quotient10) : Int :=
  let guess : Int := (decimalLength x.numerator : Int) - decimalLength x.denominator
  if (x.shift guess).denominator ≤ (x.shift guess).numerator then guess else guess - 1

/-- The numbers that round to one double lie between two ends, which belong to them if the
mantissa is even. -/
structure RoundingInterval where
  lower : Quotient10
  upper : Quotient10
  closed : Bool
deriving DecidableEq, Repr

/-- The ends lie halfway to the neighbours.  Below a power of two the neighbour is half as far
away as above it. -/
def RoundingInterval.ofBinary (mantissa : Nat) (exponent : Int) : RoundingInterval :=
  let below := if mantissa = powerOf 2 52 ∧ -1074 < exponent then 1 else 2
  ⟨.ofBinary (4 * mantissa - below) (exponent - 2), .ofBinary (4 * mantissa + 2) (exponent - 2),
    decide (mantissa % 2 = 0)⟩

/-- Whether `digits * 10 ^ power` lies in the interval. -/
def RoundingInterval.contains (interval : RoundingInterval) (digits : Nat) (power : Int) : Bool :=
  let lower := interval.lower.shift power
  let upper := interval.upper.shift power
  if interval.closed then
    lower.numerator ≤ digits * lower.denominator && digits * upper.denominator ≤ upper.numerator
  else
    lower.numerator < digits * lower.denominator && digits * upper.denominator < upper.numerator

/-- Whether the number below is nearer than the one above; a half goes to the even one. -/
def Quotient10.roundsDown (x : Quotient10) : Prop :=
  let twice := 2 * (x.numerator % x.denominator)
  twice < x.denominator ∨ (twice = x.denominator ∧ x.floor % 2 = 0)

instance (x : Quotient10) : Decidable x.roundsDown :=
  inferInstanceAs (Decidable (_ ∨ _))

/-- The multiple of `10 ^ power` in the interval that is nearest to `x`: one of the two
neighbours of `x`, and of two equally near ones the even one. -/
def nearestMultiple? (interval : RoundingInterval) (x : Quotient10) (power : Int) :
    Option Decimal :=
  let low := (x.shift power).floor
  match interval.contains low power, interval.contains (low + 1) power with
  | true, true => some ⟨if (x.shift power).roundsDown then low else low + 1, power⟩
  | true, false => some ⟨low, power⟩
  | false, true => some ⟨low + 1, power⟩
  | false, false => none

theorem nearestMultiple?_contains {interval : RoundingInterval} {x : Quotient10} {power : Int}
    {d : Decimal} (hd : nearestMultiple? interval x power = some d) :
    interval.contains d.digits d.exponent = true := by
  dsimp only [nearestMultiple?] at hd
  split at hd
  · cases hd
    dsimp only
    split <;> assumption
  · cases hd; assumption
  · cases hd; assumption
  · cases hd

/-- The first grid with a number in the interval wins, from one digit to seventeen.  If there
were none, the exact value would be the answer. -/
def shortestDecimal (mantissa : Nat) (exponent : Int) : Decimal :=
  let x := Quotient10.ofBinary mantissa exponent
  let interval := RoundingInterval.ofBinary mantissa exponent
  let grid (extra : Nat) : Option Decimal := nearestMultiple? interval x (x.leading - extra)
  ((List.range 17).findSome? grid).getD
    ⟨mantissa * powerOf 2 exponent.toNat * powerOf 5 (-exponent).toNat, min exponent 0⟩

end Reckon
