import Reckon.Cells

/-
Arrays of numbers of any number of dimensions, their cells in row-major order.
-/

namespace Reckon

structure Grid where
  shape : Shape
  cells : Vector Float shape.cellCount

/-- Numbers in lists in lists. -/
inductive Nested
  | number (value : Float)
  | list (items : List Nested)
deriving Inhabited

/-- A list of arrays of one shape as the rows of an array.  An empty list has no rows, of which
nothing is known. -/
def stackRows? (rows : List (Shape × List Float)) : Option (Shape × List Float) :=
  match rows with
  | [] => some ([0], [])
  | (shape, _) :: _ =>
      if rows.all fun row => row.1 == shape then
        some (rows.length :: shape, rows.flatMap Prod.snd)
      else none

mutual

/-- The shape and the numbers in their order, unless the lists are ragged. -/
def Nested.flatten? : Nested → Option (Shape × List Float)
  | .number value => some ([], [value])
  | .list items =>
      match flattenAll? items with
      | some rows => stackRows? rows
      | none => none

def flattenAll? : List Nested → Option (List (Shape × List Float))
  | [] => some []
  | item :: rest =>
      match item.flatten?, flattenAll? rest with
      | some row, some rows => some (row :: rows)
      | _, _ => none

end

namespace Grid

/-- A grid of this shape, if there are as many numbers as it has cells. -/
def ofList? (shape : Shape) (values : List Float) : Option Grid :=
  if hsize : values.toArray.size = shape.cellCount then some ⟨shape, ⟨values.toArray, hsize⟩⟩
  else none

/-- An array has at most as many dimensions. -/
def dimensionLimit : Nat := 64

def ofNested? (nested : Nested) : Option Grid :=
  match nested.flatten? with
  | some (shape, values) =>
      if shape.length ≤ dimensionLimit then ofList? shape values else none
  | none => none

/-- The number in the cell of the grid that stands in a given cell of the shape. -/
def cellFor (grid : Grid) (shape : Shape) (cell : Nat) : Float :=
  grid.cells.toArray.getD (Shape.sourceCell grid.shape.reverse shape.reverse cell) 0.0

/-- The cells of the grid stretched to a shape.  In no dimensions there are no places. -/
def stretch (grid : Grid) (shape : Shape) : Cells shape :=
  if shape = [] then .same (grid.cellFor shape 0)
  else .each grid.shape (Vector.ofFn fun cell => grid.cellFor shape cell)

def ofCells {shape : Shape} (cells : Cells shape) : Grid := ⟨shape, cells.toVector⟩

end Grid

end Reckon
