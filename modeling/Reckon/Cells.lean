import Reckon.Elementwise
import Reckon.Run

/-
The numbers in all places of an array at once, and arithmetic on them place by place.
-/

namespace Reckon

/-- Numbers for the places of a shape: one that belongs to no place, or one for every place.  The
numbers of the places were stretched from a source shape; what is computed has the shape itself
as its source. -/
inductive Cells (shape : Shape)
  | same (value : Float)
  | each (source : Shape) (values : Vector Float shape.cellCount)

namespace Cells

variable {shape : Shape}

def get (cells : Cells shape) (i : Fin shape.cellCount) : Float :=
  match cells with
  | .same value => value
  | .each _ values => values[i]

/-- A number without a place counts as one of no dimensions. -/
def source : Cells shape → Shape
  | .same _ => []
  | .each source _ => source

def map (f : Float → Float) : Cells shape → Cells shape
  | .same value => .same (f value)
  | .each _ values => .each shape (values.map f)

/-- Two numbers without a place give another; otherwise the places are taken one by one. -/
def map₂ (f : Float → Float → Float) : Cells shape → Cells shape → Cells shape
  | .same x, .same y => .same (f x y)
  | first, second => .each shape (Vector.ofFn fun i => f (first.get i) (second.get i))

/-- Whether one exponent at a time serves for a whole run of places. -/
def sharesExponent (base exponent : Cells shape) : Bool :=
  match exponent with
  | .same _ => true
  | .each source _ => Run.secondStays (Axis.all base.source source shape)

/-- Reciprocals, square roots and squares are computed as such only where one exponent serves for
a run; exponents that change from place to place all go the general way. -/
def pow (base exponent : Cells shape) : Cells shape :=
  if base.sharesExponent exponent then base.map₂ power exponent
  else base.map₂ Float.pow exponent

def single? (cells : Cells shape) : Option Float :=
  match cells with
  | .same value => some value
  | .each _ values =>
      if hone : shape.cellCount = 1 then some (values.get ⟨0, by omega⟩) else none

instance : Elementwise (Cells shape) where
  const := .same
  map := map
  map₂ := map₂
  pow := pow
  single? := single?

/-- The number of every place. -/
def toVector (cells : Cells shape) : Vector Float shape.cellCount := Vector.ofFn cells.get

@[simp] theorem get_same (value : Float) (i : Fin shape.cellCount) :
    (same value).get i = value := rfl

@[simp] theorem get_each (source : Shape) (values : Vector Float shape.cellCount)
    (i : Fin shape.cellCount) : (each source values).get i = values[i] := rfl

@[simp] theorem get_map (f : Float → Float) (cells : Cells shape) (i : Fin shape.cellCount) :
    (cells.map f).get i = f (cells.get i) := by
  cases cells <;> simp [map]

@[simp] theorem get_map₂ (f : Float → Float → Float) (first second : Cells shape)
    (i : Fin shape.cellCount) :
    (first.map₂ f second).get i = f (first.get i) (second.get i) := by
  cases first <;> cases second <;> simp [map₂]

theorem get_pow_of_shares {base exponent : Cells shape}
    (hshares : base.sharesExponent exponent = true) (i : Fin shape.cellCount) :
    (base.pow exponent).get i = power (base.get i) (exponent.get i) := by
  simp [pow, hshares]

end Cells

end Reckon
