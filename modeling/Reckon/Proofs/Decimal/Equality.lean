import Mathlib
import Reckon.Decimal.Basic

/-
Equality of the numbers that decimals stand for.  A decimal is read as a product or a quotient of
positive numbers, rounded.  So its double has no sign and is a number, and it equals itself.
-/

namespace Reckon

namespace Unpacked

open Float.Model.UnpackedFloat

variable {spec : Float.Model.Format} {x y : Float.Model.UnpackedFloat}

/-- A number whose sign is not set. -/
def isUnsigned : Float.Model.UnpackedFloat → Bool
  | .infinity .positive | .zero .positive | .finite .positive _ _ _ => true
  | _ => false

/-- Finite and not zero either. -/
def isPositive : Float.Model.UnpackedFloat → Bool
  | .finite .positive _ _ _ => true
  | _ => false

theorem unpack_components {exponent : BitVec spec.exponentBits}
    {mantissa : BitVec spec.mantissaBitsWithoutImplicit}
    (hfinite : exponent = -1#_ → mantissa = 0#_) :
    isUnsigned (unpack spec (packComponents spec .positive exponent mantissa)) = true := by
  simp only [unpack, unpackExponent_packComponents, unpackMantissa_packComponents,
    unpackSign_packComponents, Sign.ofBitVec_toBitVec]
  split
  · rename_i hexponent
    rw [if_pos (hfinite hexponent)]
    rfl
  · split
    · split <;> rfl
    · rfl

/-- Packing sets no sign and makes no number into anything else. -/
theorem unpack_pack (hx : isUnsigned x = true) : isUnsigned (unpack spec (pack spec x)) = true := by
  cases x with
  | notANumber => cases hx
  | infinity sign =>
      cases sign with
      | negative => cases hx
      | positive => exact unpack_components fun _ => rfl
  | zero sign =>
      cases sign with
      | negative => cases hx
      | positive => exact unpack_components fun _ => rfl
  | finite sign mantissa exponent hpositive =>
      cases sign with
      | negative => cases hx
      | positive =>
          unfold pack
          dsimp only
          split
          · exact unpack_components fun _ => rfl
          · rename_i hbounds
            generalize (exponent + spec.exponentBias + spec.mantissaBitsWithoutImplicit).toNat =
              biased at hbounds
            split
            · apply unpack_components
              intro hexponent
              have hbiased := congrArg BitVec.toNat hexponent
              rw [BitVec.neg_one_eq_allOnes, BitVec.toNat_ofNat, BitVec.toNat_allOnes,
                Nat.mod_eq_of_lt (by omega)] at hbiased
              omega
            · apply unpack_components
              intro hexponent
              exact absurd (BitVec.zero_eq_neg_one_iff.mp hexponent) (Nat.ne_of_gt spec.he)

theorem roundWithAccuracy_positive (spec : Float.Model.Format) (mantissa : Nat) (exponent : Int)
    (accuracy : Accuracy) :
    isUnsigned (roundWithAccuracy spec .positive mantissa exponent accuracy) = true := by
  unfold roundWithAccuracy
  dsimp only
  split <;> rfl

theorem ofUInt64_isUnsigned (spec : Float.Model.Format) (n : UInt64) :
    isUnsigned (ofUInt64 spec n) = true := by
  unfold ofUInt64 ofNat ofInt Float.Model.UnpackedFloat.normalize
  split
  · rename_i hnegative
    exact absurd (Int.compare_eq_lt.mp hnegative) (by omega)
  · rfl
  · exact roundWithAccuracy_positive _ _ _ _

theorem mul_isUnsigned (hx : isUnsigned x = true) (hy : isPositive y = true) :
    isUnsigned (mul spec x y) = true := by
  cases y with
  | notANumber | infinity _ | zero _ => cases hy
  | finite sign _ _ _ =>
      cases sign with
      | negative => cases hy
      | positive =>
          unfold isUnsigned at hx
          split at hx
          · rfl
          · rfl
          · exact roundWithAccuracy_positive _ _ _ _
          · cases hx

theorem div_isUnsigned (hx : isUnsigned x = true) (hy : isPositive y = true) :
    isUnsigned (div spec x y) = true := by
  cases y with
  | notANumber | infinity _ | zero _ => cases hy
  | finite sign _ _ _ =>
      cases sign with
      | negative => cases hy
      | positive =>
          unfold isUnsigned at hx
          split at hx
          · rfl
          · rfl
          · exact roundWithAccuracy_positive _ _ _ _
          · cases hx

theorem ofScientific_isUnsigned (spec : Float.Model.Format) (digits : Nat) (exponent : Int) :
    isUnsigned (ofScientific spec digits exponent) = true := by
  unfold ofScientific
  split
  · rfl
  · split
    · rfl
    · split
      · rfl
      · split
        · exact mul_isUnsigned rfl rfl
        · exact div_isUnsigned rfl rfl

/-- Whatever is a number equals itself. -/
theorem beq_self (hx : isUnsigned x = true) : x.beq x = true := by
  rw [beq_iff_ne_notANumber_and_eq]
  have hne : x ≠ .notANumber := by
    rintro rfl
    cases hx
  exact ⟨hne, hne, .inl rfl⟩

end Unpacked

open Unpacked

theorem isPositive_powerOfTen : ∀ (exponent : Nat) (_ : exponent < 23),
    isPositive Float.exactlyRepresentablePowersOfTen[exponent].toModel.unpack = true := by
  decide

theorem scientific_isUnsigned (digits : Nat) (negative : Bool) (exponent : Nat) :
    isUnsigned (Float.ofScientific digits negative exponent).toModel.unpack = true := by
  unfold Float.ofScientific
  split
  · rename_i hsmall
    have hpower := isPositive_powerOfTen exponent (Nat.lt_succ_of_le hsmall.2)
    have hdigits : isUnsigned (digits.toUInt64.toFloat).toModel.unpack = true :=
      unpack_pack (ofUInt64_isUnsigned _ _)
    cases negative with
    | true => exact unpack_pack (div_isUnsigned hdigits hpower)
    | false => exact unpack_pack (mul_isUnsigned hdigits hpower)
  · exact unpack_pack (ofScientific_isUnsigned _ _ _)

/-- The number that a decimal stands for has no sign. -/
theorem Decimal.toFloat_isUnsigned (decimal : Decimal) :
    isUnsigned decimal.toFloat.toModel.unpack = true := by
  simp only [Decimal.toFloat]
  split
  · decide
  · split
    · decide
    · exact scientific_isUnsigned _ _ _

/-- The number that a decimal stands for equals itself. -/
theorem Decimal.toFloat_beq_self (decimal : Decimal) :
    (decimal.toFloat == decimal.toFloat) = true :=
  Unpacked.beq_self decimal.toFloat_isUnsigned

end Reckon
