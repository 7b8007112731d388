/-
Doubles taken apart into sign, mantissa and power of two, and put together again.
-/

namespace Reckon

/-- The power of a natural number. -/
def powerOf (base exponent : Nat) : Nat := Nat.pow base exponent

theorem powerOf_pos {base : Nat} (hbase : 0 < base) (exponent : Nat) :
    0 < powerOf base exponent := by
  induction exponent with
  | zero => exact Nat.zero_lt_one
  | succ exponent ih => exact Nat.mul_pos ih hbase

/-- A double by its parts: a finite one is `±mantissa * 2 ^ exponent`. -/
inductive Binary
  | nan
  | infinite (negative : Bool)
  | finite (negative : Bool) (mantissa : Nat) (exponent : Int)
deriving DecidableEq, Repr

def notANumber : Float := 0.0 / 0.0

def infinity : Float := 1.0 / 0.0

/-- Subnormal doubles share the exponent `-1074`; all others have a mantissa of 53 bits. -/
def Binary.ofFloat (x : Float) : Binary :=
  let bits := x.toBits.toNat
  let negative := decide (powerOf 2 63 ≤ bits)
  let biased : Nat := bits / powerOf 2 52 % 2048
  let fraction : Nat := bits % powerOf 2 52
  if biased = 2047 then
    if fraction = 0 then .infinite negative else .nan
  else if biased = 0 then .finite negative fraction (-1074)
  else .finite negative (powerOf 2 52 + fraction) ((biased : Int) - 1075)

/-- The bits of `mantissa * 2 ^ exponent`, for a mantissa below `2 ^ 53` and an exponent that
is neither below `-1074` nor too high for a double. -/
def magnitudeBits (mantissa : Nat) (exponent : Int) : Nat :=
  let shift := min (52 - mantissa.log2) (exponent + 1074).toNat
  let wide := mantissa <<< shift
  if wide < powerOf 2 52 then wide
  else (exponent - shift + 1075).toNat * powerOf 2 52 + (wide - powerOf 2 52)

def Binary.toFloat : Binary → Float
  | .nan => notANumber
  | .infinite negative => if negative then -infinity else infinity
  | .finite negative mantissa exponent =>
      let bits := magnitudeBits mantissa exponent
      Float.ofBits (UInt64.ofNat (if negative then powerOf 2 63 + bits else bits))

/-- The sign bit, which zeros and infinities have too. -/
def signBit (x : Float) : Bool := decide (powerOf 2 63 ≤ x.toBits.toNat)

end Reckon
