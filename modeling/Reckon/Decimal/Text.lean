import Reckon.Decimal.Shortest

/-
How numbers are written.  The shortest form is positional while the leading digit stands for
`10 ^ -4` up to `10 ^ 15` and then always has a point; outside, one digit stands before the
point.  The rounded form has a fixed count of digits and always an exponent.  Exponents have a
sign and at least two digits.
-/

namespace Reckon

def natText (n : Nat) : List Char := Nat.toDigits 10 n

def intText (n : Int) : List Char :=
  if n < 0 then '-' :: natText n.natAbs else natText n.natAbs

def exponentText (exponent : Int) : List Char :=
  let digits := natText exponent.natAbs
  'e' :: (if exponent < 0 then '-' else '+') ::
    (if digits.length < 2 then '0' :: digits else digits)

/-- The digits with a point after the first one, unless that one stands alone. -/
def scientificText (digits : List Char) (leading : Int) : List Char :=
  match digits with
  | [] => exponentText leading
  | [digit] => digit :: exponentText leading
  | digit :: rest => digit :: '.' :: rest ++ exponentText leading

/-- The digits around a point, with zeros where they do not reach it. -/
def positionalText (digits : List Char) (leading : Int) : List Char :=
  if 0 ≤ leading then
    let whole := leading.toNat + 1
    let fraction := digits.drop whole
    digits.take whole ++ List.replicate (whole - digits.length) '0' ++
      '.' :: (if fraction = [] then ['0'] else fraction)
  else '0' :: '.' :: List.replicate (-leading - 1).toNat '0' ++ digits

def dropTrailingZeros (digits : List Char) : List Char :=
  (digits.reverse.dropWhile (· == '0')).reverse

def shortestMagnitude (mantissa : Nat) (exponent : Int) : List Char :=
  if mantissa = 0 then ['0', '.', '0']
  else
    let d := shortestDecimal mantissa exponent
    let digits := natText d.digits
    let leading := d.exponent + digits.length - 1
    if -4 ≤ leading ∧ leading < 16 then positionalText (dropTrailingZeros digits) leading
    else scientificText (dropTrailingZeros digits) leading

/-- The quotient to the nearest natural number, half to the even one. -/
def Quotient10.round (x : Quotient10) : Nat :=
  if x.roundsDown then x.floor else x.floor + 1

/-- Rounding up may carry into one digit more than asked for; then the last zero is dropped. -/
def roundedMagnitude (count mantissa : Nat) (exponent : Int) : List Char :=
  if mantissa = 0 then scientificText (List.replicate count '0') 0
  else
    let x := Quotient10.ofBinary mantissa exponent
    let digits := natText (x.shift (x.leading - count + 1)).round
    scientificText (digits.take count) (x.leading + digits.length - count)

/-- Signs and special values are written alike in both forms; what is not a number has none. -/
def writeFloat (magnitude : Nat → Int → List Char) (x : Float) : String :=
  match Binary.ofFloat x with
  | .nan => "nan"
  | .infinite negative => if negative then "-inf" else "inf"
  | .finite negative mantissa exponent =>
      let text := magnitude mantissa exponent
      String.ofList (if negative then '-' :: text else text)

/-- The fewest digits that read back as the same double. -/
def writeShortest : Float → String := writeFloat shortestMagnitude

/-- The exact value rounded to this many significant digits, half to even. -/
def writeRounded (count : Nat) : Float → String := writeFloat (roundedMagnitude count)

end Reckon
