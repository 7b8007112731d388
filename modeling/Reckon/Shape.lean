/-
Shapes of arrays and the rule by which arrays of different shapes go together: shapes are aligned
at their last dimension, a missing dimension counts as one, and a dimension of one is stretched to
the other's size.
-/

namespace Reckon

/-- The sizes of the dimensions. -/
abbrev Shape := List Nat

namespace Shape

def cellCount : Shape → Nat
  | [] => 1
  | size :: rest => size * cellCount rest

def commonSize? (first second : Nat) : Option Nat :=
  if first = second ∨ second = 1 then some first
  else if first = 1 then some second
  else none

/-- The common shape of two, the last dimension first. -/
def commonReversed? : Shape → Shape → Option Shape
  | [], shape => some shape
  | shape, [] => some shape
  | first :: firsts, second :: seconds =>
      match commonSize? first second, commonReversed? firsts seconds with
      | some size, some rest => some (size :: rest)
      | _, _ => none

/-- The shape that all the given ones are stretched to; of none it is that of a single number. -/
def common? : List Shape → Option Shape
  | [] => some []
  | shape :: rest =>
      match common? rest with
      | some common => (commonReversed? shape.reverse common.reverse).map List.reverse
      | none => none

/-- Which cell of a stretched array stands in a given cell of the result.  Both shapes have
their last dimension first. -/
def sourceCell : Shape → Shape → Nat → Nat
  | size :: sizes, target :: targets, cell =>
      (if size = 1 then 0 else cell % target) + size * sourceCell sizes targets (cell / target)
  | _, _, _ => 0

/-- Along which dimensions of the second shape an array of the first one moves on to other cells.
Both have their last dimension first.  Where it is stretched it does not move. -/
def moves : Shape → Shape → List Bool
  | _, [] => []
  | [], _ :: targets => false :: moves [] targets
  | size :: sizes, target :: targets => decide (size = target) :: moves sizes targets

end Shape

end Reckon
