import Reckon.Shape

/-
How an operation goes through the places of two arrays that are stretched to one shape: in runs
that take in the last dimensions.  In a run an array moves on by equal steps or not at all.  If it
would do neither, its numbers are copied for the run, and such an array moves on.
-/

namespace Reckon

/-- A dimension with its size, and whether each of two arrays moves on along it. -/
structure Axis where
  size : Nat
  firstMoves : Bool
  secondMoves : Bool
deriving DecidableEq, Repr

/-- The dimensions of a shape that two arrays are stretched to, the last one first.  A size of
one counts only where there is no other dimension. -/
def Axis.all (first second shape : Shape) : List Axis :=
  let moving := (Shape.moves first.reverse shape.reverse).zip
    (Shape.moves second.reverse shape.reverse)
  let axes := (shape.reverse.zip moving).map fun (size, firstMoves, secondMoves) =>
    Axis.mk size firstMoves secondMoves
  if shape.length = 1 then axes else axes.filter fun axis => axis.size != 1

/-- How many places there are in a run, and which of the two arrays are copied for it. -/
structure Run where
  size : Nat
  copiesFirst : Bool
  copiesSecond : Bool
deriving DecidableEq, Repr

namespace Run

/-- No more places than these are copied at once. -/
def copyLimit : Nat := 8192

def copies (run : Run) : Nat := run.copiesFirst.toNat + run.copiesSecond.toNat

/-- Every copy costs as much as the operation. -/
def cost (run : Run) : Nat := 1 + run.copies

/-- How many places are done at once. -/
def reach (run : Run) : Nat := if run.copies = 0 then run.size else min run.size copyLimit

def ofAxis (axis : Axis) : Run := ⟨axis.size, false, false⟩

/-- The run with another dimension behind its last one.  An array that moves on along one of the
two alone is copied. -/
def extend (run : Run) (last axis : Axis) : Run :=
  ⟨run.size * axis.size, run.copiesFirst || last.firstMoves != axis.firstMoves,
    run.copiesSecond || last.secondMoves != axis.secondMoves⟩

/-- Whether a place costs no more in the longer run than in the shorter one. -/
def pays (longer shorter : Run) : Bool :=
  decide (longer.cost * shorter.size ≤ shorter.cost * longer.reach)

/-- The longest run that pays, where `best` is the one among those up to `run`. -/
def longest (best run : Run) (last : Axis) : List Axis → Run
  | [] => best
  | axis :: rest =>
      if run.copies ≠ 0 ∧ copyLimit ≤ run.size then best
      else
        let longer := run.extend last axis
        longest (if longer.pays best then longer else best) longer axis rest

/-- Whether the second array does not move at all in the runs taken. -/
def secondStays : List Axis → Bool
  | [] => false
  | axis :: rest =>
      !axis.secondMoves && !(longest (ofAxis axis) (ofAxis axis) axis rest).copiesSecond

end Run

end Reckon
