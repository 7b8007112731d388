import Reckon.Closure.Basic
import Reckon.Grid

/-
Closures and expressions evaluated over whole arrays at once.
-/

namespace Reckon

/-- Why a closure has no values over some arrays. -/
inductive SampleError
  | ragged
  | incompatibleShapes
  | fault (fault : Fault)
deriving DecidableEq, Repr

namespace Closure

variable {κ : Type}

/-- The values over arrays that are stretched to their common shape, which is the shape of the
result.  `scopeOf` gives the context's scope for each shape. -/
def sample (closure : Closure κ) (scopeOf : (shape : Shape) → Scope (Cells shape))
    (grids : List Grid) : Except SampleError Grid :=
  match Shape.common? (grids.map Grid.shape) with
  | none => .error .incompatibleShapes
  | some shape =>
      match closure.call (scopeOf shape) (grids.map fun grid => grid.stretch shape) with
      | .ok cells => .ok (Grid.ofCells cells)
      | .error fault => .error (.fault fault)

/-- The values over arrays given as lists, which must not be ragged. -/
def sampleNested (closure : Closure κ) (scopeOf : (shape : Shape) → Scope (Cells shape))
    (arrays : List Nested) : Except SampleError Grid :=
  match arrays.mapM Grid.ofNested? with
  | some grids => closure.sample scopeOf grids
  | none => .error .ragged

end Closure

/-- The value of an expression as an array of no dimensions. -/
def Expr.evaluateGrid (expr : Expr) (scope : Scope (Cells [])) : Except Fault Grid :=
  (expr.evaluate scope).map Grid.ofCells

end Reckon
