import Reckon.Arithmetic

/-
Values that arithmetic works on element by element.  Single numbers are such values.
-/

namespace Reckon

class Elementwise (V : Type) where
  const : Float → V
  map : (Float → Float) → V → V
  map₂ : (Float → Float → Float) → V → V → V
  /-- Powers, for which it matters whether the exponent is a single one. -/
  pow : V → V → V
  /-- The number a value consists of, if it is only one. -/
  single? : V → Option Float

instance : Elementwise Float where
  const := id
  map f := f
  map₂ f := f
  pow := power
  single? := some

end Reckon
