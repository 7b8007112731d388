import Reckon.Decimal.Binary

/-
Arithmetic on doubles beyond the basic operations.  Nothing here fails: outside its domain a
function is not a number.
-/

namespace Reckon

/-- What truncated division leaves of the dividend.  It is exact and has the sign of the
dividend. -/
def remainder (x y : Float) : Float :=
  match Binary.ofFloat x, Binary.ofFloat y with
  | .finite negative m p, .finite _ n q =>
      if n = 0 then notANumber
      else
        let low := min p q
        let dividend := m * powerOf 2 (p - low).toNat
        let divisor := n * powerOf 2 (q - low).toNat
        (Binary.finite negative (dividend % divisor) low).toFloat
  | .finite _ _ _, .infinite _ => x
  | _, _ => notANumber

/-- The natural number that `mantissa * 2 ^ exponent` is, if it is one. -/
def wholeNumber? (mantissa : Nat) (exponent : Int) : Option Nat :=
  let unit := powerOf 2 (-exponent).toNat
  if mantissa % unit = 0 then some (mantissa / unit * powerOf 2 exponent.toNat) else none

def factorialNat : Nat → Nat
  | 0 => 1
  | n + 1 => (n + 1) * factorialNat n

/-- The coefficients of two polynomials, from the constant ones on, whose quotient approximates the
gamma function. -/
def gammaCoefficients : List (Float × Float) :=
  [(23531376880.41076, 0.0), (42919803642.6491, 39916800.0), (35711959237.35567, 120543840.0),
   (17921034426.03721, 150917976.0), (6039542586.352028, 105258076.0),
   (1439720407.3117216, 45995730.0), (248874557.86205417, 13339535.0),
   (31426415.585400194, 2637558.0), (2876370.6289353725, 357423.0),
   (186056.26539522348, 32670.0), (8071.672002365816, 1925.0), (210.82427775157936, 66.0),
   (2.5066282746310002, 1.0)]

/-- The quotient of the polynomials, both divided by their highest power. -/
def gammaQuotient (x : Float) : Float :=
  let (dividend, divisor) := gammaCoefficients.foldl
    (fun sums coefficients =>
      (sums.1 / x + coefficients.1, sums.2 / x + coefficients.2)) (0.0, 0.0)
  dividend / divisor

/-- The gamma function from five on, as near as it is computed.  Where the power would be too large
its root is taken twice. -/
def gamma (x : Float) : Float :=
  let base := x + 5.52468004077673
  let lost := base - x - 5.52468004077673
  let quotient := gammaQuotient x / base.exp
  let corrected := quotient - lost * 6.02468004077673 / base * quotient
  if x < 140.0 then corrected * base.pow (x - 0.5)
  else
    let root := base.pow (x / 2.0 - 0.25)
    corrected * root * root

/-- The factorial of a natural number as a double: exact up to `22!`, from there on by the gamma
function, and out of range from `171!` on. -/
def factorialOfNat (n : Nat) : Float :=
  if n ≤ 22 then Float.ofNat (factorialNat n)
  else if 170 < n then infinity
  else gamma (Float.ofNat n + 1.0)

/-- The factorial of a natural number, and not a number for all others. -/
def factorial (x : Float) : Float :=
  match Binary.ofFloat x with
  | .nan => notANumber
  | .infinite negative => if negative then notANumber else infinity
  | .finite negative mantissa exponent =>
      if negative ∧ mantissa ≠ 0 then notANumber
      else match wholeNumber? mantissa exponent with
        | some n => factorialOfNat n
        | none => notANumber

/-- Powers to a single exponent.  Reciprocals, square roots and squares are computed as such, so
that they are rounded correctly and the square root of negative infinity is not a number. -/
def power (x y : Float) : Float :=
  if y == -1.0 then 1.0 / x
  else if y == 0.5 then x.sqrt
  else if y == 2.0 then x * x
  else x.pow y

/-- Drops the fraction. -/
def truncate (x : Float) : Float := if x < 0.0 then x.ceil else x.floor

/-- The nearest integer, a half away from zero. -/
def roundHalfAway (x : Float) : Float :=
  let whole := truncate x
  if 0.5 ≤ (x - whole).abs then whole + (if x < 0.0 then -1.0 else 1.0) else whole

/-- One with the sign bit of `x`, so that the sign of a negative zero counts. -/
def signum (x : Float) : Float :=
  if x.isNaN then notANumber else if signBit x then -1.0 else 1.0

/-- The larger of two numbers, the other one if one of them is not a number. -/
def larger (x y : Float) : Float :=
  if x.isNaN then y else if y.isNaN then x else if x < y then y else x

/-- The smaller of two numbers, the other one if one of them is not a number. -/
def smaller (x y : Float) : Float :=
  if x.isNaN then y else if y.isNaN then x else if y < x then y else x

end Reckon
