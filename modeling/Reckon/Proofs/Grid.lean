import Mathlib.Data.List.Forall2
import Reckon.Grid

/-
Arrays by index.  An index has a number for every dimension.  The cell that an array is stretched
from is found by the numbers of the last dimensions, where a dimension of one has only one row.
-/

namespace Reckon

namespace Shape

/-- The index has a number for every dimension, and each lies below its size. -/
def Holds (shape : Shape) (index : List Nat) : Prop := List.Forall₂ (· < ·) index shape

instance (shape : Shape) (index : List Nat) : Decidable (shape.Holds index) :=
  inferInstanceAs (Decidable (List.Forall₂ (· < ·) index shape))

/-- The place of an index among all in row-major order: the last number runs fastest. -/
def offset : Shape → List Nat → Nat
  | _ :: sizes, i :: index => i * cellCount sizes + offset sizes index
  | _, _ => 0

/-- Where an array of the source shape is read for an index of the shape it is stretched to. -/
def sourceIndex (source : Shape) (index : List Nat) : List Nat :=
  (List.zipWith (fun size i => if size = 1 then 0 else i) source.reverse index.reverse).reverse

variable {shape source target : Shape} {index : List Nat}

theorem offset_lt (hindex : shape.Holds index) : shape.offset index < shape.cellCount := by
  induction hindex with
  | nil => exact Nat.one_pos
  | @cons i size index sizes hi _ ih =>
      have hrow : (i + 1) * cellCount sizes ≤ size * cellCount sizes :=
        Nat.mul_le_mul_right _ hi
      rw [Nat.add_mul, Nat.one_mul] at hrow
      change i * cellCount sizes + offset sizes index < size * cellCount sizes
      omega

/-- The place of an index where shape and index have their last dimension first. -/
def offsetReversed : Shape → List Nat → Nat
  | size :: sizes, i :: index => i + size * offsetReversed sizes index
  | _, _ => 0

theorem cellCount_append (first second : Shape) :
    cellCount (first ++ second) = cellCount first * cellCount second := by
  induction first with
  | nil => exact (Nat.one_mul _).symm
  | cons size rest ih => rw [List.cons_append, cellCount, cellCount, ih, Nat.mul_assoc]

theorem cellCount_reverse (shape : Shape) : cellCount shape.reverse = cellCount shape := by
  induction shape with
  | nil => rfl
  | cons size rest ih =>
      rw [List.reverse_cons, cellCount_append, ih, cellCount, cellCount, cellCount, Nat.mul_one,
        Nat.mul_comm]

theorem offsetReversed_concat (hlength : index.length = shape.length) (size i : Nat) :
    offsetReversed (shape ++ [size]) (index ++ [i]) =
      offsetReversed shape index + cellCount shape * i := by
  induction shape generalizing index with
  | nil =>
      rw [List.length_eq_zero_iff.mp hlength]
      simp [offsetReversed, cellCount]
  | cons first rest ih =>
      cases index with
      | nil => cases hlength
      | cons j index =>
          have hrest := ih (Nat.succ.inj hlength)
          simp only [List.cons_append, offsetReversed, cellCount, hrest, Nat.mul_add,
            Nat.mul_assoc, Nat.add_assoc]

theorem offset_eq_offsetReversed (hindex : shape.Holds index) :
    shape.offset index = offsetReversed shape.reverse index.reverse := by
  induction hindex with
  | nil => rfl
  | @cons i size index sizes hi hrest ih =>
      have hlength : index.reverse.length = sizes.reverse.length := by
        simpa using hrest.length_eq
      rw [List.reverse_cons, List.reverse_cons, offsetReversed_concat hlength, offset, ih,
        cellCount_reverse, Nat.mul_comm, Nat.add_comm]

/-- The source cell of an index is that of its numbers, a stretched one counting as zero. -/
theorem sourceCell_offsetReversed (source : Shape) (hindex : List.Forall₂ (· < ·) index target) :
    sourceCell source target (offsetReversed target index) =
      offsetReversed source
        (List.zipWith (fun size i => if size = 1 then 0 else i) source index) := by
  induction hindex generalizing source with
  | nil => cases source <;> rfl
  | @cons i size index sizes hi _ ih =>
      cases source with
      | nil => rfl
      | cons first rest =>
          have hrow : (i + size * offsetReversed sizes index) % size = i := by
            rw [Nat.add_mul_mod_self_left, Nat.mod_eq_of_lt hi]
          have hrest : (i + size * offsetReversed sizes index) / size =
              offsetReversed sizes index := by
            rw [Nat.add_mul_div_left _ _ (Nat.zero_lt_of_lt hi), Nat.div_eq_of_lt hi,
              Nat.zero_add]
          simp only [offsetReversed, sourceCell, hrow, hrest, ih, List.zipWith_cons_cons]

/-- An array of the first shape can be stretched to the second one.  Both have their last
dimension first. -/
def StretchesReversed : Shape → Shape → Prop
  | [], _ => True
  | size :: sizes, target :: targets =>
      (size = target ∨ size = 1) ∧ StretchesReversed sizes targets
  | _ :: _, [] => False

theorem stretchesReversed_refl (shape : Shape) : StretchesReversed shape shape := by
  induction shape with
  | nil => trivial
  | cons size rest ih => exact ⟨.inl rfl, ih⟩

theorem StretchesReversed.trans {first second third : Shape}
    (hfirst : StretchesReversed first second) (hsecond : StretchesReversed second third) :
    StretchesReversed first third := by
  induction first generalizing second third with
  | nil => trivial
  | cons size rest ih =>
      match second, third with
      | [], _ => exact hfirst.elim
      | _ :: _, [] => exact hsecond.elim
      | middle :: sizes, last :: targets =>
          obtain ⟨hsize, hrest⟩ := hfirst
          obtain ⟨hmiddle, hmore⟩ := hsecond
          refine ⟨?_, ih hrest hmore⟩
          rcases hsize with rfl | rfl
          · exact hmiddle
          · exact .inr rfl

/-- Both shapes stretch to the common one. -/
theorem stretchesReversed_of_commonReversed? {first second common : Shape}
    (hcommon : commonReversed? first second = some common) :
    StretchesReversed first common ∧ StretchesReversed second common := by
  induction first generalizing second common with
  | nil =>
      cases hcommon
      exact ⟨trivial, stretchesReversed_refl _⟩
  | cons size rest ih =>
      cases second with
      | nil =>
          cases hcommon
          exact ⟨stretchesReversed_refl _, trivial⟩
      | cons other sizes =>
          simp only [commonReversed?] at hcommon
          split at hcommon
          · rename_i joint more hjoint hmore
            cases hcommon
            obtain ⟨hfirst, hsecond⟩ := ih hmore
            have hsizes : (size = joint ∨ size = 1) ∧ (other = joint ∨ other = 1) := by
              simp only [commonSize?] at hjoint
              grind
            exact ⟨⟨hsizes.1, hfirst⟩, hsizes.2, hsecond⟩
          · cases hcommon

theorem stretchesReversed_of_common? {shapes : List Shape} {common : Shape}
    (hcommon : common? shapes = some common) :
    ∀ shape ∈ shapes, StretchesReversed shape.reverse common.reverse := by
  induction shapes generalizing common with
  | nil =>
      intro shape hshape
      exact absurd hshape List.not_mem_nil
  | cons first rest ih =>
      simp only [common?] at hcommon
      split at hcommon
      · rename_i other hother
        obtain ⟨joint, hjoint, rfl⟩ := Option.map_eq_some_iff.mp hcommon
        obtain ⟨hfirst, hrest⟩ := stretchesReversed_of_commonReversed? hjoint
        intro shape hshape
        rw [List.reverse_reverse]
        rcases List.mem_cons.mp hshape with rfl | hshape
        · exact hfirst
        · exact (ih hother shape hshape).trans hrest
      · cases hcommon

theorem forall₂_zipWith (hstretches : StretchesReversed source target)
    (hindex : List.Forall₂ (· < ·) index target) :
    List.Forall₂ (· < ·)
      (List.zipWith (fun size i => if size = 1 then 0 else i) source index) source := by
  induction source generalizing index target with
  | nil => exact .nil
  | cons size rest ih =>
      match target, index, hindex with
      | [], _, _ => exact hstretches.elim
      | _ :: _, i :: _, .cons hi hrest =>
          refine .cons ?_ (ih hstretches.2 hrest)
          rcases hstretches.1 with rfl | rfl
          · change (if size = 1 then 0 else i) < size
            split <;> omega
          · exact Nat.one_pos

/-- An index of the common shape is read at an index of each shape. -/
theorem holds_sourceIndex (hstretches : StretchesReversed source.reverse target.reverse)
    (hindex : target.Holds index) : source.Holds (source.sourceIndex index) := by
  have hreverse : List.Forall₂ (· < ·) index.reverse target.reverse :=
    List.forall₂_reverse_iff.mpr hindex
  have hzip := forall₂_zipWith hstretches hreverse
  rw [Holds, sourceIndex]
  exact List.forall₂_reverse_iff.mp (by simpa using hzip)

theorem sourceCell_offset (hstretches : StretchesReversed source.reverse target.reverse)
    (hindex : target.Holds index) :
    sourceCell source.reverse target.reverse (target.offset index) =
      source.offset (source.sourceIndex index) := by
  have hreverse : List.Forall₂ (· < ·) index.reverse target.reverse :=
    List.forall₂_reverse_iff.mpr hindex
  rw [offset_eq_offsetReversed hindex, sourceCell_offsetReversed _ hreverse,
    offset_eq_offsetReversed (holds_sourceIndex hstretches hindex), sourceIndex,
    List.reverse_reverse]

end Shape

namespace Grid

/-- The number at an index, if the array has one there. -/
def get? (grid : Grid) (index : List Nat) : Option Float :=
  if grid.shape.Holds index then grid.cells.toArray[grid.shape.offset index]? else none

variable {shape : Shape} {index : List Nat}

/-- An array is stretched to a shape index by index. -/
theorem cellFor_offset (grid : Grid)
    (hstretches : Shape.StretchesReversed grid.shape.reverse shape.reverse)
    (hindex : shape.Holds index) :
    grid.get? (grid.shape.sourceIndex index) =
      some (grid.cellFor shape (shape.offset index)) := by
  have hsource := Shape.holds_sourceIndex hstretches hindex
  have hinside : grid.shape.offset (grid.shape.sourceIndex index) < grid.cells.toArray.size := by
    rw [Vector.size_toArray]
    exact Shape.offset_lt hsource
  rw [get?, if_pos hsource, cellFor, Shape.sourceCell_offset hstretches hindex]
  simp [Array.getElem?_eq_getElem hinside]

theorem get_stretch (grid : Grid) (i : Fin shape.cellCount) :
    (grid.stretch shape).get i = grid.cellFor shape i := by
  by_cases hshape : shape = []
  · subst hshape
    have hi : (i : Nat) = 0 := Nat.lt_one_iff.mp i.isLt
    rw [stretch, if_pos rfl, hi]
    rfl
  · simp [stretch, hshape]

/-- A result has the number of a place at the index of the place. -/
theorem get?_ofCells (cells : Cells shape) (hindex : shape.Holds index) :
    (ofCells cells).get? index = some (cells.get ⟨shape.offset index, Shape.offset_lt hindex⟩) := by
  have hplace := Shape.offset_lt hindex
  have hget : (ofCells cells).get? index = cells.toVector.toArray[shape.offset index]? :=
    if_pos hindex
  rw [hget]
  simp [Cells.toVector, hplace]

end Grid

end Reckon
