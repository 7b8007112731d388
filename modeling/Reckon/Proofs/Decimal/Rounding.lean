import Mathlib
import Reckon.Decimal.Basic

/-
Rounding to a double.  A finite positive double has one mantissa and one exponent, and the numbers
that round to it lie between two ends, halfway to its neighbours.  The intervals of different
doubles have no number in common, so that a number in one of them is rounded to its double.
-/

namespace Reckon

open Float.Model Float.Model.UnpackedFloat

/-- The mantissa and the exponent of a positive double: 53 bits, or fewer at the least exponent. -/
structure Canonical (mantissa : Nat) (exponent : Int) : Prop where
  pos : 0 < mantissa
  lt : mantissa < 2 ^ 53
  min_le : -1074 ≤ exponent
  normal : 2 ^ 52 ≤ mantissa ∨ exponent = -1074

/-- The distance to the lower end in units of the last place.  Below a power of two the doubles are
half as far apart as above it. -/
def lowerGap (mantissa : Nat) (exponent : Int) : ℚ :=
  if mantissa = 2 ^ 52 ∧ -1074 < exponent then 1 / 4 else 1 / 2

def lowerEnd (mantissa : Nat) (exponent : Int) : ℚ :=
  (mantissa - lowerGap mantissa exponent) * 2 ^ exponent

def upperEnd (mantissa : Nat) (exponent : Int) : ℚ := (mantissa + 1 / 2) * 2 ^ exponent

/-- The number is rounded to `mantissa * 2 ^ exponent`; the ends are if the mantissa is even. -/
structure RoundsTo (x : ℚ) (mantissa : Nat) (exponent : Int) : Prop where
  lower : lowerEnd mantissa exponent ≤ x
  upper : x ≤ upperEnd mantissa exponent
  inside : mantissa % 2 = 1 → lowerEnd mantissa exponent < x ∧ x < upperEnd mantissa exponent

variable {m n : Nat} {e f : Int} {x y : ℚ}

theorem two_zpow_pos (e : Int) : (0 : ℚ) < 2 ^ e := zpow_pos (by norm_num) e

theorem lowerGap_le (m : Nat) (e : Int) : lowerGap m e ≤ 1 / 2 := by
  rw [lowerGap]
  split <;> norm_num

theorem lowerGap_pos (m : Nat) (e : Int) : 0 < lowerGap m e := by
  rw [lowerGap]
  split <;> norm_num

/-- A power of two is at least twice a smaller one. -/
theorem two_mul_zpow_le (he : e < f) : (2 : ℚ) * 2 ^ e ≤ 2 ^ f := by
  have hpow : (2 : ℚ) ^ (e + 1) ≤ 2 ^ f := zpow_le_zpow_right₀ (by norm_num) (by omega)
  rw [zpow_add_one₀ (by norm_num)] at hpow
  linarith

namespace Canonical

/-- A double and the next one have an end in common, which belongs to one of them only. -/
theorem upperEnd_le_lowerEnd_of_lt (hmn : m < n) :
    upperEnd m e ≤ lowerEnd n e ∧ (upperEnd m e = lowerEnd n e → m % 2 = 1 ∨ n % 2 = 1) := by
  have hstep : (m : ℚ) + 1 ≤ n := by exact_mod_cast hmn
  have hgap := lowerGap_le n e
  have hpow := two_zpow_pos e
  rw [upperEnd, lowerEnd]
  refine ⟨mul_le_mul_of_nonneg_right (by linarith) hpow.le, ?_⟩
  intro hsame
  have hends : (m : ℚ) + 1 / 2 = n - lowerGap n e := mul_right_cancel₀ hpow.ne' hsame
  have hnext : (n : ℚ) = m + 1 := by linarith
  have hcast : n = m + 1 := by exact_mod_cast hnext
  omega

/-- All doubles with a smaller exponent lie below. -/
theorem upperEnd_le_lowerEnd_of_exponent (hm : Canonical m e) (hn : Canonical n f) (hef : e < f) :
    upperEnd m e ≤ lowerEnd n f ∧ (upperEnd m e = lowerEnd n f → m % 2 = 1 ∨ n % 2 = 1) := by
  have hlow : 2 ^ 52 ≤ n := hn.normal.resolve_right (by have := hm.min_le; omega)
  have hpow := two_zpow_pos e
  have htwice := two_mul_zpow_le hef
  have hmCast : (m : ℚ) ≤ 2 ^ 53 - 1 := by
    have hlt : m + 1 ≤ 2 ^ 53 := hm.lt
    have hcast : (m : ℚ) + 1 ≤ 2 ^ 53 := by exact_mod_cast hlt
    linarith
  have hnCast : (2 : ℚ) ^ 52 ≤ n := by exact_mod_cast hlow
  -- Twice the lower end in units of the smaller exponent.
  have hcoarse : (n - lowerGap n f) * (2 * 2 ^ e) ≤ lowerEnd n f := by
    have hgap := lowerGap_le n f
    have hfactor : (0 : ℚ) ≤ n - lowerGap n f := by linarith
    exact mul_le_mul_of_nonneg_left htwice hfactor
  by_cases hpower : n = 2 ^ 52
  · have hgap : lowerGap n f = 1 / 4 := by
      rw [lowerGap, if_pos ⟨hpower, by have := hm.min_le; omega⟩]
    have hends : upperEnd m e ≤ (n - lowerGap n f) * (2 * 2 ^ e) := by
      rw [hgap, upperEnd, ← mul_assoc]
      exact mul_le_mul_of_nonneg_right (by linarith) hpow.le
    refine ⟨hends.trans hcoarse, ?_⟩
    intro hsame
    have hlast : (m + 1 / 2) * (2 : ℚ) ^ e = ((n - 1 / 4) * 2) * 2 ^ e := by
      rw [← upperEnd, mul_assoc, ← hgap]
      exact le_antisymm hends (hsame ▸ hcoarse)
    have hcancel := mul_right_cancel₀ hpow.ne' hlast
    have hmax : (m : ℚ) + 1 = 2 * 2 ^ 52 := by
      rw [hpower] at hcancel
      push_cast at hcancel
      linarith
    have hcast : m + 1 = 2 * 2 ^ 52 := by exact_mod_cast hmax
    omega
  · have hmore : (2 : ℚ) ^ 52 + 1 ≤ n := by
      have hlt : 2 ^ 52 + 1 ≤ n := by omega
      exact_mod_cast hlt
    have hgap := lowerGap_le n f
    have hends : upperEnd m e < (n - lowerGap n f) * (2 * 2 ^ e) := by
      rw [upperEnd, ← mul_assoc]
      exact mul_lt_mul_of_pos_right (by linarith) hpow
    have hlt := hends.trans_le hcoarse
    exact ⟨hlt.le, fun hsame => absurd hsame hlt.ne⟩

end Canonical

namespace RoundsTo

theorem eq_of_upperEnd_le (hx : RoundsTo x m e) (hy : RoundsTo x n f)
    (hends : upperEnd m e ≤ lowerEnd n f ∧
      (upperEnd m e = lowerEnd n f → m % 2 = 1 ∨ n % 2 = 1)) : False := by
  have hsame : upperEnd m e = lowerEnd n f :=
    le_antisymm hends.1 (hy.lower.trans hx.upper)
  rcases hends.2 hsame with hodd | hodd
  · exact absurd hy.lower (not_le.mpr (hsame ▸ (hx.inside hodd).2))
  · exact absurd hx.upper (not_le.mpr (hsame ▸ (hy.inside hodd).1))

/-- A number is rounded to one double only. -/
theorem unique (hm : Canonical m e) (hn : Canonical n f) (hx : RoundsTo x m e)
    (hy : RoundsTo x n f) : m = n ∧ e = f := by
  rcases lt_trichotomy e f with hlt | rfl | hgt
  · exact (hx.eq_of_upperEnd_le hy (hm.upperEnd_le_lowerEnd_of_exponent hn hlt)).elim
  · rcases lt_trichotomy m n with hlt | rfl | hgt
    · exact (hx.eq_of_upperEnd_le hy (Canonical.upperEnd_le_lowerEnd_of_lt hlt)).elim
    · exact ⟨rfl, rfl⟩
    · exact (hy.eq_of_upperEnd_le hx (Canonical.upperEnd_le_lowerEnd_of_lt hgt)).elim
  · exact (hy.eq_of_upperEnd_le hx (hn.upperEnd_le_lowerEnd_of_exponent hm hgt)).elim

end RoundsTo

/-- A double rounds to itself. -/
theorem roundsTo_self (m : Nat) (e : Int) : RoundsTo (m * 2 ^ e) m e := by
  have hpow := two_zpow_pos e
  have hgap := lowerGap_pos m e
  have hlower : lowerEnd m e < m * 2 ^ e := mul_lt_mul_of_pos_right (by linarith) hpow
  have hupper : m * 2 ^ e < upperEnd m e := mul_lt_mul_of_pos_right (by linarith) hpow
  exact ⟨hlower.le, hupper.le, fun _ => ⟨hlower, hupper⟩⟩

/-- Zero rounds to no positive double. -/
theorem RoundsTo.pos (hm : 0 < m) (hx : RoundsTo x m e) : 0 < x := by
  have hone : (1 : ℚ) ≤ m := by exact_mod_cast hm
  have hgap := lowerGap_le m e
  have hend : 0 < lowerEnd m e := mul_pos (by linarith) (two_zpow_pos e)
  exact hend.trans_le hx.lower

/-- The least number that rounds to a positive double is more than half of the least one. -/
theorem Canonical.half_lt (hm : Canonical m e) (hx : RoundsTo x m e) :
    (1 / 2 : ℚ) * 2 ^ (-1074 : Int) < x := by
  have hleast : (2 : ℚ) ^ (-1074 : Int) ≤ 2 ^ e := zpow_le_zpow_right₀ (by norm_num) hm.min_le
  have hgap := lowerGap_le m e
  have hpow := two_zpow_pos (-1074)
  have hpos := two_zpow_pos e
  by_cases hone : m = 1
  · subst hone
    have hhalf : (1 / 2 : ℚ) * 2 ^ e ≤ lowerEnd 1 e :=
      mul_le_mul_of_nonneg_right (by push_cast; linarith) hpos.le
    linarith [(hx.inside rfl).1]
  · have hmCast : (2 : ℚ) ≤ m := by
      have htwo : 2 ≤ m := by have := hm.pos; omega
      exact_mod_cast htwo
    have hone : (1 : ℚ) * 2 ^ e ≤ lowerEnd m e :=
      mul_le_mul_of_nonneg_right (by linarith) hpos.le
    linarith [hx.lower]

/-- Twice the mantissa, and one more if the next bit is set. -/
def halves (em : ExtendedMantissa) : Nat := 2 * em.mantissa + em.roundBit.toNat

/-- The mantissa with its two further bits stands for the number: the one bit is its next binary
digit, the other says whether anything follows. -/
def Represents (em : ExtendedMantissa) (x : ℚ) : Prop :=
  if em.stickyBit then (halves em : ℚ) < 2 * x ∧ 2 * x < halves em + 1 else 2 * x = halves em

namespace Represents

variable {em : ExtendedMantissa}

theorem exact (m : Nat) : Represents (.ofMantissaAndAccuracy m .exact) m := by
  simp [Represents, halves, ExtendedMantissa.ofMantissaAndAccuracy]

theorem bounds (hx : Represents em x) : (em.mantissa : ℚ) ≤ x ∧ x < em.mantissa + 1 := by
  obtain ⟨mantissa, roundBit, stickyBit⟩ := em
  cases roundBit <;> cases stickyBit <;> simp [Represents, halves] at hx ⊢ <;>
    constructor <;> linarith

/-- The bit that is shifted out becomes the next digit, and the other two say what follows. -/
theorem shiftRightOne (hx : Represents em x) : Represents em.shiftRightOne (x / 2) := by
  obtain ⟨mantissa, roundBit, stickyBit⟩ := em
  have hsplit : halves (ExtendedMantissa.shiftRightOne ⟨mantissa, roundBit, stickyBit⟩) =
      mantissa := by
    rcases Nat.mod_two_eq_zero_or_one mantissa with hbit | hbit <;>
      simp [halves, ExtendedMantissa.shiftRightOne, hbit] <;> omega
  rw [Represents, hsplit, mul_div_cancel₀ x (by norm_num)]
  cases roundBit <;> cases stickyBit <;>
    simp [Represents, halves, ExtendedMantissa.shiftRightOne] at hx ⊢
  · linarith
  · constructor <;> linarith
  · constructor <;> linarith
  · constructor <;> linarith

theorem shiftRight (hx : Represents em x) (count : Nat) :
    Represents (em >>> count) (x / 2 ^ count) := by
  change Represents (count.repeat ExtendedMantissa.shiftRightOne em) _
  induction count with
  | zero => simpa [Nat.repeat] using hx
  | succ count ih =>
      rw [Nat.repeat, pow_succ, ← div_div]
      exact ih.shiftRightOne

/-- The mantissa is rounded to the nearest integer, to the even one if two are. -/
theorem roundedMantissa (hx : Represents em x) :
    (em.roundedMantissa : ℚ) - 1 / 2 ≤ x ∧ x ≤ em.roundedMantissa + 1 / 2 ∧
      (em.roundedMantissa % 2 = 1 →
        (em.roundedMantissa : ℚ) - 1 / 2 < x ∧ x < em.roundedMantissa + 1 / 2) := by
  obtain ⟨mantissa, roundBit, stickyBit⟩ := em
  cases roundBit with
  | false =>
      have hrounded : (⟨mantissa, false, stickyBit⟩ : ExtendedMantissa).roundedMantissa =
          mantissa := by cases stickyBit <;> rfl
      rw [hrounded]
      cases stickyBit <;> simp [Represents, halves] at hx
      · exact ⟨by linarith, by linarith, fun _ => ⟨by linarith, by linarith⟩⟩
      · exact ⟨by linarith, by linarith, fun _ => ⟨by linarith, by linarith⟩⟩
  | true =>
      cases stickyBit with
      | false =>
          -- The number lies in the middle, and what it is rounded to is even.
          have hrounded : (⟨mantissa, true, false⟩ : ExtendedMantissa).roundedMantissa =
              mantissa + mantissa % 2 := rfl
          simp [Represents, halves] at hx
          rw [hrounded]
          rcases Nat.mod_two_eq_zero_or_one mantissa with hbit | hbit
          · rw [hbit, Nat.add_zero, hbit]
            exact ⟨by linarith, by linarith, fun hodd => absurd hodd (by decide)⟩
          · rw [hbit]
            push_cast
            refine ⟨by linarith, by linarith, fun hodd => ?_⟩
            omega
      | true =>
          have hrounded : (⟨mantissa, true, true⟩ : ExtendedMantissa).roundedMantissa =
              mantissa + 1 := rfl
          simp [Represents, halves] at hx
          rw [hrounded]
          push_cast
          exact ⟨by linarith, by linarith, fun _ => ⟨by linarith, by linarith⟩⟩

end Represents

theorem le_roundedMantissa (em : ExtendedMantissa) :
    em.mantissa ≤ em.roundedMantissa ∧ em.roundedMantissa ≤ em.mantissa + 1 := by
  obtain ⟨mantissa, roundBit, stickyBit⟩ := em
  cases roundBit <;> cases stickyBit <;>
    simp [ExtendedMantissa.roundedMantissa, ExtendedMantissa.accuracy,
      Accuracy.roundToNearestEven]
  omega

/-- The exponent that a double of this size has. -/
theorem targetExponent_eq (m : Nat) (e : Int) :
    Format.binary64.targetExponent (totalExponent m e) = max (m.log2 + e - 52) (-1074) := by
  simp only [Format.targetExponent, totalExponent, Format.mantissaBits, Format.minExponent]
  norm_num
  omega

/-- Where the exponent is not too large already, the mantissa is shifted to the exponent of the
result. -/
theorem shiftToTargetExponent_eq {accuracy : Accuracy}
    (he : e ≤ Format.binary64.targetExponent (totalExponent m e)) {count : Nat}
    (hcount : e + count = Format.binary64.targetExponent (totalExponent m e)) :
    shiftToTargetExponent Format.binary64 m e accuracy =
      (ExtendedMantissa.ofMantissaAndAccuracy m accuracy >>> count, e + count) := by
  have hshift : (Format.binary64.targetExponent (totalExponent m e) - e).toNat = count := by omega
  rw [shiftToTargetExponent, shiftToExponent, hshift]

/-- A mantissa that has been rounded is shifted only if it has one bit more now. -/
theorem shiftToTargetExponent_of_lt (hm : m < 2 ^ 53) (he : -1074 ≤ e) :
    shiftToTargetExponent Format.binary64 m e .exact = (⟨m, false, false⟩, e) := by
  have hlog : m.log2 ≤ 52 := by
    by_cases hzero : m = 0
    · simp [hzero]
    · have hlt := (Nat.log2_lt hzero).mpr hm
      omega
  have hshift : (Format.binary64.targetExponent (totalExponent m e) - e).toNat = 0 := by
    rw [targetExponent_eq]
    omega
  rw [shiftToTargetExponent, shiftToExponent, hshift]
  simp [HShiftRight.hShiftRight, Nat.repeat, ExtendedMantissa.ofMantissaAndAccuracy]

theorem shiftToTargetExponent_two_pow (he : -1074 ≤ e) :
    shiftToTargetExponent Format.binary64 (2 ^ 53) e .exact = (⟨2 ^ 52, false, false⟩, e + 1) := by
  have hshift : (Format.binary64.targetExponent (totalExponent (2 ^ 53) e) - e).toNat = 1 := by
    rw [targetExponent_eq, Nat.log2_two_pow]
    omega
  rw [shiftToTargetExponent, shiftToExponent, hshift]
  simp [HShiftRight.hShiftRight, Nat.repeat, ExtendedMantissa.ofMantissaAndAccuracy,
    ExtendedMantissa.shiftRightOne]

/-- Shifted to the exponent of the result, a number has at most 53 bits in front of its point, and
so many unless the exponent is the least. -/
theorem shifted_bounds {accuracy : Accuracy} {count : Nat}
    (hx : Represents (.ofMantissaAndAccuracy m accuracy) x)
    (hcount : e + count = Format.binary64.targetExponent (totalExponent m e)) :
    x / 2 ^ count < 2 ^ 53 ∧ (e + count = -1074 ∨ 2 ^ 52 ≤ x / 2 ^ count) := by
  have hmantissa : (ExtendedMantissa.ofMantissaAndAccuracy m accuracy).mantissa = m := by
    cases accuracy with
    | exact => rfl
    | inexact relative => cases relative <;> rfl
  obtain ⟨hlow, hhigh⟩ := hx.bounds
  rw [hmantissa] at hlow hhigh
  rw [targetExponent_eq] at hcount
  have hpow : (0 : ℚ) < 2 ^ count := by positivity
  constructor
  · have hlog : m + 1 ≤ 2 ^ (53 + count) :=
      (Nat.lt_log2_self).trans_le (Nat.pow_le_pow_right (by norm_num) (by omega))
    have hcast : (m : ℚ) + 1 ≤ 2 ^ 53 * 2 ^ count := by
      rw [← pow_add]
      exact_mod_cast hlog
    rw [div_lt_iff₀ hpow]
    linarith
  · by_cases hleast : e + count = -1074
    · exact .inl hleast
    · have hlog : m.log2 = 52 + count := by omega
      have hzero : m ≠ 0 := by
        rintro rfl
        rw [Nat.log2_zero] at hlog
        omega
      have hself : 2 ^ (52 + count) ≤ m := hlog ▸ Nat.log2_self_le hzero
      have hcast : (2 : ℚ) ^ 52 * 2 ^ count ≤ m := by
        rw [← pow_add]
        exact_mod_cast hself
      rw [le_div_iff₀ hpow]
      exact .inr (by linarith)

/-- A number that lies close enough to an integer in units of the last place rounds to it. -/
theorem roundsTo_of_units (hlower : (m : ℚ) - 1 / 2 ≤ y) (hupper : y ≤ m + 1 / 2)
    (hinside : m % 2 = 1 → (m : ℚ) - 1 / 2 < y ∧ y < m + 1 / 2)
    (hnormal : e = -1074 ∨ 2 ^ 52 ≤ y) : RoundsTo (y * 2 ^ e) m e := by
  have hpow := two_zpow_pos e
  refine ⟨?_, mul_le_mul_of_nonneg_right hupper hpow.le, fun hodd => ⟨?_, ?_⟩⟩
  · refine mul_le_mul_of_nonneg_right ?_ hpow.le
    rw [lowerGap]
    split
    · rename_i hedge
      have hlarge := hnormal.resolve_left (by omega)
      rw [hedge.1]
      push_cast
      linarith
    · exact hlower
  · refine mul_lt_mul_of_pos_right ?_ hpow
    rw [lowerGap]
    split
    · rename_i hedge
      rw [hedge.1] at hodd
      exact absurd hodd (by decide)
    · exact (hinside hodd).1
  · exact mul_lt_mul_of_pos_right (hinside hodd).2 hpow

/-- Rounding up to one bit more gives a power of two. -/
theorem roundsTo_two_pow (he : -1074 ≤ e) (hlower : (2 ^ 53 : ℚ) - 1 / 2 ≤ y)
    (hupper : y < 2 ^ 53) : RoundsTo (y * 2 ^ e) (2 ^ 52) (e + 1) := by
  have hpow := two_zpow_pos e
  have hgap : lowerGap (2 ^ 52) (e + 1) = 1 / 4 := by
    rw [lowerGap, if_pos ⟨rfl, by omega⟩]
  refine ⟨?_, ?_, fun hodd => absurd hodd (by decide)⟩
  · rw [lowerEnd, hgap, zpow_add_one₀ (by norm_num), mul_comm ((2 : ℚ) ^ e), ← mul_assoc]
    exact mul_le_mul_of_nonneg_right (by push_cast; linarith) hpow.le
  · rw [upperEnd, zpow_add_one₀ (by norm_num), mul_comm ((2 : ℚ) ^ e), ← mul_assoc]
    exact mul_le_mul_of_nonneg_right (by push_cast; linarith) hpow.le

section

variable {em : ExtendedMantissa}

/-- What is more than half of the unit is not rounded to zero. -/
theorem roundedMantissa_pos (hem : Represents em y) (hy : (1 / 2 : ℚ) < y) :
    0 < em.roundedMantissa := by
  obtain ⟨_, hupper, _⟩ := hem.roundedMantissa
  have hcast : (0 : ℚ) < em.roundedMantissa := by linarith
  exact_mod_cast hcast

/-- A mantissa that has been rounded and has not more than 53 bits is that of a double. -/
theorem canonical_roundedMantissa (hem : Represents em y) (he : -1074 ≤ e)
    (hnormal : e = -1074 ∨ 2 ^ 52 ≤ y) (hpos : 0 < em.roundedMantissa)
    (hlt : em.roundedMantissa < 2 ^ 53) : Canonical em.roundedMantissa e := by
  refine ⟨hpos, hlt, he, ?_⟩
  rcases hnormal with hleast | hlarge
  · exact .inr hleast
  · have hcast : (2 : ℚ) ^ 52 < em.mantissa + 1 := hlarge.trans_lt hem.bounds.2
    have hle : 2 ^ 52 < em.mantissa + 1 := by exact_mod_cast hcast
    have hrounded := (le_roundedMantissa em).1
    exact .inl (by omega)

/-- Rounding to an integer and, if that has one bit more, one more shift give the double that the
number rounds to. -/
theorem renormalized_of_roundsTo (hem : Represents em y) (he : -1074 ≤ e) (hsmall : y < 2 ^ 53)
    (hnormal : e = -1074 ∨ 2 ^ 52 ≤ y) (hn : Canonical n f) (hround : RoundsTo (y * 2 ^ e) n f) :
    (shiftToTargetExponent Format.binary64 em.roundedMantissa e .exact).1.mantissa = n ∧
      (shiftToTargetExponent Format.binary64 em.roundedMantissa e .exact).2 = f := by
  obtain ⟨hlower, hupper, hinside⟩ := hem.roundedMantissa
  have hhalf : (1 / 2 : ℚ) < y := by
    rcases hnormal with rfl | hlarge
    · exact lt_of_mul_lt_mul_right (hn.half_lt hround) (two_zpow_pos _).le
    · linarith
  rcases Nat.lt_or_ge em.roundedMantissa (2 ^ 53) with hlt | hge
  · have hcanonical :=
      canonical_roundedMantissa hem he hnormal (roundedMantissa_pos hem hhalf) hlt
    rw [shiftToTargetExponent_of_lt hlt he]
    exact RoundsTo.unique hcanonical hn (roundsTo_of_units hlower hupper hinside hnormal) hround
  · have hmantissa : em.mantissa < 2 ^ 53 := by
      have hcast : (em.mantissa : ℚ) < 2 ^ 53 := hem.bounds.1.trans_lt hsmall
      exact_mod_cast hcast
    have hlast : em.roundedMantissa = 2 ^ 53 := by
      have hrounded := (le_roundedMantissa em).2
      omega
    have hcanonical : Canonical (2 ^ 52) (e + 1) :=
      ⟨by norm_num, by norm_num, by omega, .inl le_rfl⟩
    rw [hlast] at hlower ⊢
    push_cast at hlower
    rw [shiftToTargetExponent_two_pow he]
    exact RoundsTo.unique hcanonical hn (roundsTo_two_pow he hlower hsmall) hround

end

/-- A number in the interval of a double is rounded to that double, however it is represented. -/
theorem roundWithAccuracy_of_roundsTo {accuracy : Accuracy} (sign : Sign)
    (hx : Represents (.ofMantissaAndAccuracy m accuracy) x)
    (he : e ≤ Format.binary64.targetExponent (totalExponent m e)) (hn : Canonical n f)
    (hround : RoundsTo (x * 2 ^ e) n f) :
    roundWithAccuracy Format.binary64 sign m e accuracy = .finite sign n f hn.pos := by
  obtain ⟨count, hcount⟩ := Int.le.dest he
  have hleast : -1074 ≤ e + count := by
    rw [hcount, targetExponent_eq]
    omega
  obtain ⟨hsmall, hnormal⟩ := shifted_bounds hx hcount
  have hunits : x / 2 ^ count * 2 ^ (e + count) = x * 2 ^ e := by
    rw [zpow_add₀ (by norm_num), zpow_natCast]
    field_simp
  rw [← hunits] at hround
  obtain ⟨rfl, rfl⟩ :=
    renormalized_of_roundsTo (hx.shiftRight count) hleast hsmall hnormal hn hround
  rw [roundWithAccuracy, shiftToTargetExponent_eq he hcount]
  exact dif_neg hn.pos.ne'

end Reckon
