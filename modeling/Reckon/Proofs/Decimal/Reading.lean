import Reckon.Proofs.Decimal.Parts

/-
Reading a decimal.  Small digits and powers of ten are doubles themselves, and one operation
rounds; all others are computed exactly and rounded.  Both ways give the double that the decimal
rounds to.
-/

namespace Reckon

open Float.Model Float.Model.UnpackedFloat

variable {n m₁ m₂ digits : Nat} {f e₁ e₂ : Int} {x a b : Float}

/-- The double has these parts and no sign. -/
def HasParts (x : Float) (mantissa : Nat) (exponent : Int) : Prop :=
  ∃ hpos, x.toModel.unpack = .finite .positive mantissa exponent hpos

namespace HasParts

theorem canonical (hx : HasParts x n f) : Canonical n f ∧ f ≤ 971 :=
  canonical_of_unpack hx.choose_spec

/-- What is computed to the parts of a double is that double. -/
theorem ofModel_pack (hx : HasParts x n f) {unpacked : UnpackedFloat} {hpos : 0 < n}
    (hunpacked : unpacked = .finite .positive n f hpos) : Float.ofModel (.pack unpacked) = x := by
  obtain ⟨_, hunpack⟩ := hx
  rw [hunpacked, ← hunpack]
  exact ofModel_pack_unpack x

theorem mul (ha : HasParts a m₁ e₁) (hb : HasParts b m₂ e₂) (hlarge : 2 ^ 52 ≤ m₁ * m₂)
    (hx : HasParts x n f) (hround : RoundsTo (m₁ * 2 ^ e₁ * (m₂ * 2 ^ e₂)) n f) : a * b = x := by
  obtain ⟨_, ha⟩ := ha
  obtain ⟨_, hb⟩ := hb
  change Float.ofModel (.pack (UnpackedFloat.mul .binary64 a.toModel.unpack b.toModel.unpack)) = x
  rw [ha, hb]
  exact hx.ofModel_pack (mul_of_roundsTo hlarge hx.canonical.1 hround)

theorem div (ha : HasParts a m₁ e₁) (hb : HasParts b m₂ e₂) (hx : HasParts x n f)
    (hround : RoundsTo (m₁ * 2 ^ e₁ / (m₂ * 2 ^ e₂)) n f) : a / b = x := by
  obtain ⟨_, ha⟩ := ha
  obtain ⟨_, hb⟩ := hb
  change Float.ofModel (.pack (UnpackedFloat.div .binary64 a.toModel.unpack b.toModel.unpack)) = x
  rw [ha, hb]
  exact hx.ofModel_pack (div_of_roundsTo hx.canonical.1 hround)

end HasParts

theorem normal_of_digits (hpos : 0 < digits) (hlt : digits < 2 ^ 53) :
    2 ^ 52 ≤ digits <<< (52 - digits.log2) ∧ digits <<< (52 - digits.log2) < 2 ^ 53 := by
  have hlog : digits.log2 < 53 := (Nat.log2_lt hpos.ne').mpr hlt
  rw [Nat.shiftLeft_eq]
  constructor
  · calc 2 ^ 52 = 2 ^ digits.log2 * 2 ^ (52 - digits.log2) := by
          rw [← pow_add]
          congr 1
          omega
      _ ≤ digits * 2 ^ (52 - digits.log2) :=
          Nat.mul_le_mul_right _ (Nat.log2_self_le hpos.ne')
  · calc digits * 2 ^ (52 - digits.log2) < 2 ^ (digits.log2 + 1) * 2 ^ (52 - digits.log2) :=
          Nat.mul_lt_mul_of_pos_right Nat.lt_log2_self (by positivity)
      _ = 2 ^ 53 := by
          rw [← pow_add]
          congr 1
          omega

/-- Digits that fit are shifted to 53 bits. -/
theorem hasParts_toFloat (hpos : 0 < digits) (hlt : digits < 2 ^ 53) :
    HasParts digits.toUInt64.toFloat (digits <<< (52 - digits.log2)) (digits.log2 - 52) := by
  have hlog : digits.log2 < 53 := (Nat.log2_lt hpos.ne').mpr hlt
  obtain ⟨hlow, hhigh⟩ := normal_of_digits hpos hlt
  have hshifted : 0 < digits <<< (52 - digits.log2) := by omega
  have hcanonical : Canonical (digits <<< (52 - digits.log2)) (digits.log2 - 52) :=
    ⟨hshifted, hhigh, by omega, .inl hlow⟩
  have hround : UnpackedFloat.ofUInt64 .binary64 digits.toUInt64 =
      .finite .positive (digits <<< (52 - digits.log2)) (digits.log2 - 52) hshifted := by
    have hsmall : digits.toUInt64.toNat = digits := by
      rw [UInt64.toNat_ofNat']
      omega
    have hcompare : compare (digits : Int) 0 = .gt := Int.compare_eq_gt.mpr (by omega)
    have hshift : (0 - Format.binary64.targetExponent (totalExponent digits 0)).toNat =
        52 - digits.log2 := by
      rw [targetExponent_eq]
      omega
    have hexponent : (0 : Int) - (52 - digits.log2 : Nat) = digits.log2 - 52 := by omega
    simp only [UnpackedFloat.ofUInt64, UnpackedFloat.ofNat, UnpackedFloat.ofInt,
      UnpackedFloat.normalize, hsmall, hcompare,
      UnpackedFloat.round, decreaseExponent, Int.toNat_natCast, hshift, hexponent]
    exact roundWithAccuracy_of_roundsTo _ (Represents.exact _) (le_targetExponent (.inr hlow))
      hcanonical (roundsTo_self _ _)
  refine ⟨hshifted, ?_⟩
  change unpack .binary64 (pack .binary64 (UnpackedFloat.ofUInt64 .binary64 digits.toUInt64)) = _
  rw [hround]
  exact unpack_pack_of_normal hlow hhigh (by omega) (by omega)

/-- The powers of ten of the table, by their parts. -/
def isPowerOfTen (exponent : Nat) : UnpackedFloat → Bool
  | .finite .positive m e _ =>
      decide (2 ^ 52 ≤ m ∧ m * 2 ^ e.toNat = 10 ^ exponent * 2 ^ (-e).toNat)
  | _ => false

theorem isPowerOfTen_table : ∀ (exponent : Nat) (_ : exponent < 23),
    isPowerOfTen exponent Float.exactlyRepresentablePowersOfTen[exponent].toModel.unpack =
      true := by
  decide

theorem zpow_eq_div {base : ℚ} (hbase : base ≠ 0) (e : Int) :
    base ^ e = base ^ e.toNat / base ^ (-e).toNat := by
  rw [← zpow_natCast, ← zpow_natCast, ← zpow_sub₀ hbase]
  congr 1
  omega

theorem hasParts_powerOfTen (exponent : Nat) (hexponent : exponent < 23) :
    ∃ (m : Nat) (e : Int), 2 ^ 52 ≤ m ∧ (m : ℚ) * 2 ^ e = 10 ^ exponent ∧
      HasParts Float.exactlyRepresentablePowersOfTen[exponent] m e := by
  have htable := isPowerOfTen_table exponent hexponent
  generalize hunpack : Float.exactlyRepresentablePowersOfTen[exponent].toModel.unpack = power
    at htable
  unfold isPowerOfTen at htable
  split at htable
  · rename_i m e hpos
    obtain ⟨hlow, hvalue⟩ := of_decide_eq_true htable
    refine ⟨m, e, hlow, ?_, hpos, hunpack⟩
    rw [zpow_eq_div (by norm_num), mul_div_assoc', div_eq_iff (by positivity)]
    exact_mod_cast hvalue
  · cases htable

/-- The value of the shifted digits is that of the digits. -/
theorem shifted_value (hpos : 0 < digits) (hlt : digits < 2 ^ 53) :
    ((digits <<< (52 - digits.log2) : Nat) : ℚ) * 2 ^ (digits.log2 - 52 : Int) = digits := by
  have hlog : digits.log2 < 53 := (Nat.log2_lt hpos.ne').mpr hlt
  have hexponent : (digits.log2 - 52 : Int) = -(52 - digits.log2 : Nat) := by omega
  rw [Nat.shiftLeft_eq, hexponent, zpow_neg, zpow_natCast]
  push_cast
  field_simp

/-- A decimal is read as the double that it rounds to. -/
theorem ofScientific_of_hasParts {negative : Bool} {exponent : Nat} (hdigits : 0 < digits)
    (hx : HasParts x n f)
    (hround : RoundsTo (digits * 10 ^ (if negative then -exponent else exponent : Int)) n f) :
    Float.ofScientific digits negative exponent = x := by
  rw [Float.ofScientific]
  split
  · rename_i hsmall
    obtain ⟨m, e, hlow, hpower, hparts⟩ :=
      hasParts_powerOfTen exponent (Nat.lt_succ_of_le hsmall.2)
    have hshifted := hasParts_toFloat hdigits hsmall.1
    have hvalue := shifted_value hdigits hsmall.1
    cases negative with
    | true =>
        refine hshifted.div hparts hx ?_
        rw [hvalue, hpower, div_eq_mul_inv, ← zpow_natCast, ← zpow_neg]
        exact hround
    | false =>
        refine hshifted.mul hparts (hlow.trans (Nat.le_mul_of_pos_left _ ?_)) hx ?_
        · exact hshifted.canonical.1.pos
        · rw [hvalue, hpower, ← zpow_natCast]
          exact hround
  · obtain ⟨hn, hf⟩ := hx.canonical
    have hscientific := ofScientific_of_roundsTo hdigits hn hf hround
    refine hx.ofModel_pack (Eq.trans ?_ hscientific)
    cases negative with
    | true => simp [Int.negOfNat_eq]
    | false => rfl

/-- The number that the decimal stands for, before it is rounded. -/
def Decimal.toRat (d : Decimal) : ℚ := d.digits * 10 ^ d.exponent

/-- The size of a number, by the count of its digits. -/
theorem decimalLength_bounds (hdigits : 0 < digits) :
    10 ^ (decimalLength digits - 1) ≤ digits ∧ digits < 10 ^ decimalLength digits := by
  have hpos : 0 < decimalLength digits := Nat.length_toDigits_pos
  constructor
  · by_contra hsmall
    by_cases hone : decimalLength digits - 1 = 0
    · rw [hone] at hsmall
      omega
    · have hle := (Nat.length_toDigits_le_iff (by norm_num) (by omega)).mpr (not_le.mp hsmall)
      rw [← decimalLength] at hle
      omega
  · exact (Nat.length_toDigits_le_iff (by norm_num) hpos).mp le_rfl

/-- No limit on the size of a decimal takes part in reading a finite double. -/
theorem Decimal.toFloat_of_hasParts {d : Decimal} (hx : HasParts x n f)
    (hround : RoundsTo d.toRat n f) : d.toFloat = x := by
  obtain ⟨hn, hf⟩ := hx.canonical
  obtain ⟨digits, exponent⟩ := d
  change RoundsTo (digits * 10 ^ exponent) n f at hround
  have hdigits : 0 < digits := by
    by_contra hzero
    obtain rfl : digits = 0 := by omega
    refine (hround.pos hn.pos).ne' ?_
    rw [Nat.cast_zero, zero_mul]
  obtain ⟨hleast, hmost⟩ := decimalLength_bounds hdigits
  obtain ⟨hover, hunder⟩ := RoundsTo.magnitude hn hf hround hleast hmost
  have hlength : 0 < decimalLength digits := Nat.length_toDigits_pos
  simp only [toFloat]
  rw [if_neg (by omega), if_neg (by omega)]
  refine ofScientific_of_hasParts hdigits hx ?_
  have hsigned : (if decide (exponent < 0) then -(exponent.natAbs : Int) else exponent.natAbs) =
      exponent := by
    rcases lt_or_ge exponent 0 with hnegative | hnonnegative
    · rw [decide_eq_true hnegative, if_pos rfl]
      omega
    · rw [decide_eq_false (not_lt.mpr hnonnegative), if_neg (by decide)]
      omega
  rw [hsigned]
  exact hround

end Reckon
