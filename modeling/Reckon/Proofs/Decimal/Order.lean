import Mathlib
import Reckon.Arithmetic

/-
The order of doubles.  All doubles but the one that is not a number have a rank, which decides how
they compare; two doubles have one rank only if they are the same, or zeros.
-/

namespace Reckon

namespace Unpacked

open Float.Model.UnpackedFloat

/-- Whether a number is infinite, finite or zero, with its sign, then its power of two and its
mantissa. -/
def rank : Float.Model.UnpackedFloat → ℤ ×ₗ ℤ ×ₗ ℤ
  | .infinity .negative => toLex (-2, toLex (0, 0))
  | .finite .negative mantissa exponent _ => toLex (-1, toLex (-exponent, -mantissa))
  | .finite .positive mantissa exponent _ => toLex (1, toLex (exponent, mantissa))
  | .infinity .positive => toLex (2, toLex (0, 0))
  | _ => toLex (0, toLex (0, 0))

variable {x y : Float.Model.UnpackedFloat} {m n : ℕ} {p q : ℤ} {hm : 0 < m} {hn : 0 < n}

theorem compare_toLex (first second third fourth fifth sixth : ℤ) :
    compare (toLex (first, toLex (second, third))) (toLex (fourth, toLex (fifth, sixth))) =
      (compare first fourth).then ((compare second fifth).then (compare third sixth)) := by
  simp [Prod.Lex.compare_def, compareLex, compareOn]

theorem compare_neg (a b : ℤ) : compare (-a) (-b) = (compare a b).swap := by
  rw [Int.compare_swap, Int.compare_eq_ite_lt, Int.compare_eq_ite_lt]
  split_ifs <;> first | rfl | omega

theorem compare_natCast (m n : ℕ) : compare (m : ℤ) (n : ℤ) = compare m n := by
  rw [Int.compare_eq_ite_lt, Nat.compare_eq_ite_lt]
  simp

theorem compare_positive : (finite .positive m p hm).compare (finite .positive n q hn) =
    some (compare (rank (finite .positive m p hm)) (rank (finite .positive n q hn))) := by
  rw [rank, rank, compare_toLex, compare_natCast]
  rfl

theorem compare_negative : (finite .negative m p hm).compare (finite .negative n q hn) =
    some (compare (rank (finite .negative m p hm)) (rank (finite .negative n q hn))) := by
  rw [rank, rank, compare_toLex, compare_neg p, compare_neg (m : ℤ), compare_natCast,
    ← Ordering.swap_then]
  rfl

/-- Numbers compare as their ranks do. -/
theorem compare_eq_rank (hx : x ≠ .notANumber) (hy : y ≠ .notANumber) :
    x.compare y = some (compare (rank x) (rank y)) := by
  -- Where not both are finite and of one sign, their classes decide.
  rcases x with s | _ | s | ⟨s, m, p, hm⟩ <;> rcases y with t | _ | t | ⟨t, n, q, hn⟩
  case finite.finite =>
    cases s <;> cases t
    · exact compare_negative
    · rfl
    · rfl
    · exact compare_positive
  all_goals first
    | exact absurd rfl hx
    | exact absurd rfl hy
    | cases s <;> cases t <;> rfl

theorem lt_iff_rank (hx : x ≠ .notANumber) (hy : y ≠ .notANumber) :
    x.lt y = true ↔ rank x < rank y := by
  rw [Float.Model.UnpackedFloat.lt, compare_eq_rank hx hy, beq_iff_eq, Option.some_inj,
    compare_lt_iff_lt]

theorem beq_iff_rank (hx : x ≠ .notANumber) (hy : y ≠ .notANumber) :
    x.beq y = true ↔ rank x = rank y := by
  rw [Float.Model.UnpackedFloat.beq, compare_eq_rank hx hy, beq_iff_eq, Option.some_inj,
    compare_eq_iff_eq]

end Unpacked

/-- The same double, or two zeros, which may differ in their signs. -/
def SameUpToZero (x y : Float) : Prop := x = y ∨ (x == 0.0) = true ∧ (y == 0.0) = true

section

variable {x y z : Float}

theorem unpack_ne_notANumber (hx : x.isNaN = false) : x.toModel.unpack ≠ .notANumber := by
  intro hnan
  rw [show x.isNaN = true from Float.Model.UnpackedFloat.isNaN_iff.mpr hnan] at hx
  cases hx

/-- Doubles compare as their ranks do. -/
theorem lt_iff_rank (hx : x.isNaN = false) (hy : y.isNaN = false) :
    x < y ↔ Unpacked.rank x.toModel.unpack < Unpacked.rank y.toModel.unpack := by
  rw [← Unpacked.lt_iff_rank (unpack_ne_notANumber hx) (unpack_ne_notANumber hy)]
  change Float.lt x y = true ↔ _
  rw [Float.lt, decide_eq_true_iff]
  exact Iff.rfl

theorem SameUpToZero.symm (hsame : SameUpToZero x y) : SameUpToZero y x :=
  hsame.imp Eq.symm And.symm

/-- What is equal is the same up to the sign of a zero. -/
theorem sameUpToZero_of_beq (hequal : (x == y) = true) : SameUpToZero x y := by
  obtain ⟨-, -, rfl | ⟨rfl, rfl⟩ | ⟨rfl, rfl⟩⟩ := Float.beq_iff_ne_nan_and_eq.mp hequal
  · exact .inl rfl
  · exact .inr (by decide +kernel)
  · exact .inr (by decide +kernel)

/-- Numbers neither of which is smaller are the same up to the sign of a zero. -/
theorem sameUpToZero_of_not_lt (hx : x.isNaN = false) (hy : y.isNaN = false) (hxy : ¬x < y)
    (hyx : ¬y < x) : SameUpToZero x y := by
  rw [lt_iff_rank hx hy, not_lt] at hxy
  rw [lt_iff_rank hy hx, not_lt] at hyx
  apply sameUpToZero_of_beq
  exact (Unpacked.beq_iff_rank (unpack_ne_notANumber hx) (unpack_ne_notANumber hy)).mpr
    (le_antisymm hyx hxy)

theorem not_lt_trans (hx : x.isNaN = false) (hy : y.isNaN = false) (hz : z.isNaN = false)
    (hxy : ¬x < y) (hyz : ¬y < z) : ¬x < z := by
  rw [lt_iff_rank hx hy, not_lt] at hxy
  rw [lt_iff_rank hy hz, not_lt] at hyz
  rw [lt_iff_rank hx hz, not_lt]
  exact hyz.trans hxy

theorem not_lt_of_lt (hx : x.isNaN = false) (hy : y.isNaN = false) (hxy : x < y) : ¬y < x := by
  rw [lt_iff_rank hx hy] at hxy
  rw [lt_iff_rank hy hx]
  exact hxy.asymm

/-- Only one double is not a number. -/
theorem eq_of_isNaN (hx : x.isNaN = true) (hy : y.isNaN = true) : x = y := by
  rw [Float.isNaN_eq_decide_eq_nan, decide_eq_true_iff] at hx hy
  rw [hx, hy]

end

end Reckon
