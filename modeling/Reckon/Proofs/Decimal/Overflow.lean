import Mathlib
import Reckon.Datum.Basic
import Reckon.Proofs.Decimal.Reading

/-
Integers as doubles.  Every positive integer lies in the interval of a number with 53 bits; it is
the value of the integer as a double unless the exponent is beyond the largest one.  That happens
from one integer on, which lies halfway between the largest double and the next power of two.  All
integers that are nearer to zero are turned into the nearest double.
-/

namespace Reckon

open Float.Model Float.Model.UnpackedFloat

variable {m n : Nat} {e f : Int} {x : ℚ} {value : Float}

/-- The least integer that is rounded beyond the largest double. -/
def overflowBound : Nat := 2 ^ 1024 - 2 ^ 970

theorem overflowBound_eq : overflowBound = (2 ^ 54 - 1) * 2 ^ 970 := by
  decide +kernel

/-- The bound in units of the last place of the largest double and of the one that would follow. -/
theorem cast_overflowBound :
    (overflowBound : ℚ) = (2 ^ 53 - 1 / 2) * 2 ^ 971 ∧
      (overflowBound : ℚ) = (2 ^ 52 - 1 / 4) * 2 ^ 972 := by
  have hunits : ∀ k : Nat, (((2 ^ 54 - 1) * 2 ^ k : Nat) : ℚ) = (2 ^ 53 - 1 / 2) * 2 ^ (k + 1) ∧
      (((2 ^ 54 - 1) * 2 ^ k : Nat) : ℚ) = (2 ^ 52 - 1 / 4) * 2 ^ (k + 2) := by
    intro k
    push_cast
    constructor <;> ring
  rw [overflowBound_eq]
  exact hunits 970

/-- Numbers with a greater exponent than the largest double begin at the bound. -/
theorem Canonical.overflowBound_le (hm : Canonical m e) (he : 972 ≤ e) (hx : RoundsTo x m e) :
    (overflowBound : ℚ) ≤ x := by
  have hlow : 2 ^ 52 ≤ m := hm.normal.resolve_right (by omega)
  have hpow : (2 : ℚ) ^ 972 ≤ 2 ^ e := by
    have hle : (2 : ℚ) ^ (972 : Int) ≤ 2 ^ e := zpow_le_zpow_right₀ (by norm_num) he
    exact_mod_cast hle
  have hfactor : (2 ^ 52 : ℚ) - 1 / 4 ≤ m - lowerGap m e := by
    by_cases hpower : m = 2 ^ 52
    · have hgap : lowerGap m e = 1 / 4 := if_pos ⟨hpower, by omega⟩
      rw [hgap, hpower]
      push_cast
      exact le_rfl
    · have hmore : 2 ^ 52 + 1 ≤ m := by omega
      have hcast : (2 : ℚ) ^ 52 + 1 ≤ m := by exact_mod_cast hmore
      have hgap := lowerGap_le m e
      linarith
  calc (overflowBound : ℚ) = (2 ^ 52 - 1 / 4) * 2 ^ 972 := cast_overflowBound.2
    _ ≤ (2 ^ 52 - 1 / 4) * 2 ^ e := mul_le_mul_of_nonneg_left hpow (by norm_num)
    _ ≤ (m - lowerGap m e) * 2 ^ e := mul_le_mul_of_nonneg_right hfactor (two_zpow_pos e).le
    _ ≤ x := hx.lower

/-- The largest double and all below it end in front of the bound. -/
theorem Canonical.lt_overflowBound (hm : Canonical m e) (he : e ≤ 971) (hx : RoundsTo x m e) :
    x < overflowBound := by
  have hpow : (2 : ℚ) ^ e ≤ 2 ^ 971 := by
    have hle : (2 : ℚ) ^ e ≤ 2 ^ (971 : Int) := zpow_le_zpow_right₀ (by norm_num) he
    exact_mod_cast hle
  have hlast : ((2 : ℚ) ^ 53 - 1 / 2) * 2 ^ e ≤ overflowBound := by
    rw [cast_overflowBound.1]
    exact mul_le_mul_of_nonneg_left hpow (by norm_num)
  have hpos := two_zpow_pos e
  have hlt := hm.lt
  rcases Nat.mod_two_eq_zero_or_one m with heven | hodd
  · -- An even mantissa is not the largest one.
    have hless : m + 2 ≤ 2 ^ 53 := by omega
    have hcast : (m : ℚ) + 2 ≤ 2 ^ 53 := by exact_mod_cast hless
    calc x ≤ (m + 1 / 2) * 2 ^ e := hx.upper
      _ < (2 ^ 53 - 1 / 2) * 2 ^ e := mul_lt_mul_of_pos_right (by linarith) hpos
      _ ≤ overflowBound := hlast
  · have hless : m + 1 ≤ 2 ^ 53 := hlt
    have hcast : (m : ℚ) + 1 ≤ 2 ^ 53 := by exact_mod_cast hless
    calc x < (m + 1 / 2) * 2 ^ e := (hx.inside hodd).2
      _ ≤ (2 ^ 53 - 1 / 2) * 2 ^ e := mul_le_mul_of_nonneg_right (by linarith) hpos.le
      _ ≤ overflowBound := hlast

/-- An integer of more bits is shifted to 53 of them and rounded. -/
theorem exists_roundsTo_of_large (hn : 2 ^ 53 ≤ n) :
    ∃ m e, Canonical m e ∧ 2 ^ 52 ≤ m ∧ RoundsTo n m e := by
  have hlog : 53 ≤ n.log2 := (Nat.le_log2 (by omega)).mpr hn
  have hcount : (0 : Int) + (n.log2 - 52 : Nat) =
      Format.binary64.targetExponent (totalExponent n 0) := by
    rw [targetExponent_eq]
    omega
  have hem := (Represents.exact n).shiftRight (n.log2 - 52)
  obtain ⟨hsmall, hnormal⟩ := shifted_bounds (Represents.exact n) hcount
  have hlarge : (2 : ℚ) ^ 52 ≤ n / 2 ^ (n.log2 - 52) := hnormal.resolve_left (by omega)
  have hunits : (n : ℚ) / 2 ^ (n.log2 - 52) * 2 ^ ((n.log2 - 52 : Nat) : Int) = n := by
    rw [zpow_natCast]
    field_simp
  have hleast : (-1074 : Int) ≤ (n.log2 - 52 : Nat) := by omega
  generalize ExtendedMantissa.ofMantissaAndAccuracy n .exact >>> (n.log2 - 52) = em at hem
  obtain ⟨hlower, hupper, hinside⟩ := hem.roundedMantissa
  rw [← hunits]
  rcases Nat.lt_or_ge em.roundedMantissa (2 ^ 53) with hlt | hge
  · have hpos := roundedMantissa_pos hem (by linarith)
    have hcanonical := canonical_roundedMantissa hem hleast (.inr hlarge) hpos hlt
    exact ⟨_, _, hcanonical, hcanonical.normal.resolve_right (by omega),
      roundsTo_of_units hlower hupper hinside (.inr hlarge)⟩
  · have hcast : (2 ^ 53 : ℚ) ≤ em.roundedMantissa := by exact_mod_cast hge
    have hunder : (2 ^ 53 : ℚ) - 1 / 2 ≤ n / 2 ^ (n.log2 - 52) := by linarith
    have hround := roundsTo_two_pow hleast hunder hsmall
    exact ⟨_, _, ⟨by norm_num, by norm_num, by omega, .inl le_rfl⟩, le_rfl, hround⟩

theorem exists_roundsTo_natCast (hn : 0 < n) :
    ∃ m e, Canonical m e ∧ 2 ^ 52 ≤ m ∧ RoundsTo n m e := by
  rcases Nat.lt_or_ge n (2 ^ 53) with hsmall | hlarge
  · have hlog : n.log2 < 53 := (Nat.log2_lt hn.ne').mpr hsmall
    obtain ⟨hlow, hhigh⟩ := normal_of_digits hn hsmall
    have hcanonical : Canonical (n <<< (52 - n.log2)) (n.log2 - 52) :=
      ⟨by omega, hhigh, by omega, .inl hlow⟩
    refine ⟨_, _, hcanonical, hlow, ?_⟩
    rw [← shifted_value hn hsmall]
    exact roundsTo_self _ _
  · exact exists_roundsTo_of_large hlarge

/-- An integer is turned into the double that it rounds to. -/
theorem ofNat_of_roundsTo (hx : HasParts value m e) (hround : RoundsTo n m e) :
    Float.ofNat n = value := by
  have hn : 0 < n := by exact_mod_cast hround.pos hx.canonical.1.pos
  apply ofScientific_of_hasParts hn hx
  simpa using hround

/-- An integer that rounds to a finite double has the parts of that double. -/
theorem hasParts_ofNat_of_le (hm : Canonical m e) (hlow : 2 ^ 52 ≤ m) (he : e ≤ 971)
    (hround : RoundsTo n m e) : HasParts (Float.ofNat n) m e := by
  have hparts : HasParts (.ofModel (.pack (.finite .positive m e hm.pos))) m e :=
    ⟨hm.pos, unpack_pack_of_normal hlow hm.lt hm.min_le he⟩
  rwa [ofNat_of_roundsTo hparts hround]

theorem HasParts.isInf (hx : HasParts value m e) : value.isInf = false := by
  obtain ⟨hpos, hunpack⟩ := hx
  change value.toModel.unpack.isInf = false
  rw [hunpack]
  rfl

/-- A number with a greater exponent than the largest double is infinite. -/
theorem isInf_pack (hpos : 0 < m) (he : 972 ≤ e) :
    (unpack .binary64 (pack .binary64 (.finite .positive m e hpos))).isInf = true := by
  have hfield : 2 ^ Format.binary64.exponentBits ≤
      (e + Format.binary64.exponentBias + Format.binary64.mantissaBitsWithoutImplicit :
        Int).toNat + 1 := by
    change 2 ^ 11 ≤ (e + (1023 : Nat) + (52 : Nat) : Int).toNat + 1
    omega
  simp only [UnpackedFloat.pack]
  rw [if_pos hfield]
  rfl

theorem isInf_ofNat_of_lt (hn : 2 ^ 53 ≤ n) (hm : Canonical m e) (he : 972 ≤ e)
    (hround : RoundsTo n m e) : (Float.ofNat n).isInf = true := by
  have hscientific : UnpackedFloat.ofScientific Format.binary64 n 0 =
      .finite .positive m e hm.pos := by
    have hlarge : 2 ^ 52 ≤ (n <<< Format.binary64.mantissaBits) * 10 ^ (0 : Int).toNat := by
      rw [Nat.shiftLeft_eq]
      change 2 ^ 52 ≤ n * 2 ^ 53 * 1
      omega
    have hten : RoundsTo (n * 10 ^ (0 : Int)) m e := by simpa using hround
    rw [← @shifted_mul_ten n 0 le_rfl] at hten
    rw [UnpackedFloat.ofScientific, dif_neg (by omega), if_neg (by norm_num),
      if_neg (by norm_num), if_pos le_rfl]
    exact mul_of_roundsTo hlarge hm hten
  have hvalue : Float.ofNat n =
      .ofModel (.pack (UnpackedFloat.ofScientific Format.binary64 n 0)) := by
    change Float.ofScientific n false 0 = _
    rw [Float.ofScientific, dif_neg (by omega)]
    rfl
  change (Float.ofNat n).toModel.unpack.isInf = true
  rw [hvalue, hscientific]
  exact isInf_pack hm.pos he

/-- An integer is too large for a double from the bound on. -/
theorem isInf_ofNat_iff (n : Nat) : (Float.ofNat n).isInf = true ↔ overflowBound ≤ n := by
  rcases Nat.eq_zero_or_pos n with rfl | hn
  · decide +kernel
  · obtain ⟨m, e, hm, hlow, hround⟩ := exists_roundsTo_natCast hn
    rcases le_or_gt e 971 with he | he
    · have hlt : n < overflowBound := by exact_mod_cast hm.lt_overflowBound he hround
      rw [(hasParts_ofNat_of_le hm hlow he hround).isInf]
      simpa using hlt
    · have hle : overflowBound ≤ n := by exact_mod_cast hm.overflowBound_le he hround
      have hlarge : 2 ^ 53 ≤ overflowBound := by decide +kernel
      exact iff_of_true (isInf_ofNat_of_lt (hlarge.trans hle) hm he hround) hle

/-- An integer below the bound has the parts of a double that it rounds to. -/
theorem exists_hasParts_ofNat (hn : 0 < n) (hlt : n < overflowBound) :
    ∃ m e, HasParts (Float.ofNat n) m e ∧ RoundsTo n m e := by
  obtain ⟨m, e, hm, hlow, hround⟩ := exists_roundsTo_natCast hn
  rcases le_or_gt e 971 with he | he
  · exact ⟨m, e, hasParts_ofNat_of_le hm hlow he hround, hround⟩
  · have hle : overflowBound ≤ n := by exact_mod_cast hm.overflowBound_le he hround
    exact absurd hlt (not_lt.mpr hle)

/-- The double nearest to an integer, and of two that are as near the one with an even mantissa.
That of a negative integer is the opposite of that of its magnitude. -/
inductive IsNearest : Int → Float → Prop
  | zero : IsNearest 0 0.0
  | pos {n m : Nat} {e : Int} {x : Float} (hx : HasParts x m e) (hround : RoundsTo n m e) :
      IsNearest n x
  | neg {n m : Nat} {e : Int} {x : Float} (hx : HasParts x m e) (hround : RoundsTo n m e) :
      IsNearest (-n) (-x)

namespace Datum

variable {k : Int} {error : ConversionError}

/-- An integer is refused as a double for its size alone. -/
theorem floatOfInt_eq_error_iff :
    floatOfInt k = .error error ↔ error = .overflow ∧ overflowBound ≤ k.natAbs := by
  rw [← isInf_ofNat_iff, floatOfInt]
  split
  · rename_i hinf
    simp [hinf, eq_comm]
  · rename_i hinf
    simp [hinf]

theorem floatOfInt_of_lt (hk : k.natAbs < overflowBound) : floatOfInt k =
    .ok (if k < 0 then -Float.ofNat k.natAbs else Float.ofNat k.natAbs) := by
  have hfinite : ¬(Float.ofNat k.natAbs).isInf = true := by
    rw [isInf_ofNat_iff]
    exact not_le.mpr hk
  rw [floatOfInt, if_neg hfinite]

/-- The nearest double is the one that is computed. -/
theorem floatOfInt_of_isNearest (hk : k.natAbs < overflowBound) (hx : IsNearest k value) :
    floatOfInt k = .ok value := by
  rw [floatOfInt_of_lt hk]
  cases hx with
  | zero => decide +kernel
  | @pos n m e x hparts hround =>
      rw [if_neg (by omega), Int.natAbs_natCast, ofNat_of_roundsTo hparts hround]
  | @neg n m e x hparts hround =>
      have hn : 0 < n := by exact_mod_cast hround.pos hparts.canonical.1.pos
      rw [if_pos (by omega), Int.natAbs_neg, Int.natAbs_natCast, ofNat_of_roundsTo hparts hround]

theorem exists_isNearest (hk : k.natAbs < overflowBound) : ∃ x, IsNearest k x := by
  rcases lt_trichotomy k 0 with hneg | rfl | hpos
  · obtain ⟨m, e, hparts, hround⟩ := exists_hasParts_ofNat (by omega) hk
    have hnearest := IsNearest.neg hparts hround
    rw [Int.natCast_natAbs, abs_of_neg hneg, neg_neg] at hnearest
    exact ⟨_, hnearest⟩
  · exact ⟨_, .zero⟩
  · obtain ⟨m, e, hparts, hround⟩ := exists_hasParts_ofNat (by omega) hk
    have hnearest := IsNearest.pos hparts hround
    rw [Int.natCast_natAbs, abs_of_pos hpos] at hnearest
    exact ⟨_, hnearest⟩

/-- An integer that fits is turned into the nearest double. -/
theorem floatOfInt_eq_ok_iff :
    floatOfInt k = .ok value ↔ k.natAbs < overflowBound ∧ IsNearest k value := by
  constructor
  · intro hok
    have hk : k.natAbs < overflowBound := by
      by_contra hlarge
      rw [floatOfInt_eq_error_iff.mpr ⟨rfl, not_lt.mp hlarge⟩] at hok
      cases hok
    obtain ⟨x, hnearest⟩ := exists_isNearest hk
    rw [floatOfInt_of_isNearest hk hnearest] at hok
    cases hok
    exact ⟨hk, hnearest⟩
  · rintro ⟨hk, hnearest⟩
    exact floatOfInt_of_isNearest hk hnearest

end Datum

end Reckon
