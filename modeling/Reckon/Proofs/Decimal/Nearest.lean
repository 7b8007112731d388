import Reckon.Proofs.Decimal.Rounding

/-
The double of a decimal.  Products and quotients of doubles are rounded once, so that a decimal in
the interval of a double is read as that double, on the way through tables as well as without.
-/

namespace Reckon

open Float.Model Float.Model.UnpackedFloat

variable {m n m₁ m₂ : Nat} {e f e₁ e₂ : Int} {x : ℚ}

/-- All numbers that round to a double lie between these powers of ten. -/
theorem RoundsTo.between (hn : Canonical n f) (hf : f ≤ 971) (hx : RoundsTo x n f) :
    (10 : ℚ) ^ (-324 : Int) < x ∧ x < 10 ^ (309 : Int) := by
  constructor
  · refine lt_trans ?_ (hn.half_lt hx)
    have hpowers : (2 : ℚ) ^ 1075 < 10 ^ 324 := by
      exact_mod_cast (by decide +kernel : 2 ^ 1075 < 10 ^ 324)
    rw [zpow_neg, zpow_neg, zpow_ofNat, zpow_ofNat, ← one_div, ← one_div, one_div_mul_one_div,
      ← pow_succ']
    exact one_div_lt_one_div_of_lt (by positivity) hpowers
  · have hmantissa : (n : ℚ) + 1 / 2 ≤ 2 ^ 53 := by
      have hlt : n + 1 ≤ 2 ^ 53 := hn.lt
      have hcast : (n : ℚ) + 1 ≤ 2 ^ 53 := by exact_mod_cast hlt
      linarith
    have hpow : (2 : ℚ) ^ f ≤ 2 ^ (971 : Int) := zpow_le_zpow_right₀ (by norm_num) hf
    calc x ≤ (n + 1 / 2) * 2 ^ f := hx.upper
      _ ≤ 2 ^ 53 * 2 ^ (971 : Int) :=
          mul_le_mul hmantissa hpow (two_zpow_pos f).le (by norm_num)
      _ < 10 ^ (309 : Int) := by
          rw [zpow_ofNat, zpow_ofNat, ← pow_add]
          exact_mod_cast (by decide +kernel : 2 ^ (53 + 971) < 10 ^ 309)

/-- The size of the digits bounds the exponent of a decimal that rounds to a double. -/
theorem RoundsTo.magnitude {digits low high : Nat} {exponent : Int} (hn : Canonical n f)
    (hf : f ≤ 971) (hround : RoundsTo (digits * 10 ^ exponent) n f) (hlow : 10 ^ low ≤ digits)
    (hhigh : digits < 10 ^ high) : low + exponent < 309 ∧ -324 < high + exponent := by
  obtain ⟨hbelow, habove⟩ := hround.between hn hf
  have hpow : (0 : ℚ) < 10 ^ exponent := zpow_pos (by norm_num) exponent
  have hleast : (10 : ℚ) ^ (low + exponent : Int) ≤ digits * 10 ^ exponent := by
    rw [zpow_add₀ (by norm_num), zpow_natCast]
    exact mul_le_mul_of_nonneg_right (by exact_mod_cast hlow) hpow.le
  have hmost : digits * 10 ^ exponent < (10 : ℚ) ^ (high + exponent : Int) := by
    rw [zpow_add₀ (by norm_num), zpow_natCast]
    exact mul_lt_mul_of_pos_right (by exact_mod_cast hhigh) hpow
  have hten : (1 : ℚ) < 10 := by norm_num
  exact ⟨(zpow_lt_zpow_iff_right₀ hten).mp (hleast.trans_lt habove),
    (zpow_lt_zpow_iff_right₀ hten).mp (hbelow.trans hmost)⟩

/-- A quotient of natural numbers, from its integer part and its remainder. -/
theorem Represents.fraction (a : Nat) {b : Nat} (hb : 0 < b) :
    Represents (.ofMantissaAndAccuracy (a / b) (accuracyOfFraction (a % b) b)) (a / b) := by
  have hsplit : (a : ℚ) / b = (a / b : Nat) + (a % b : Nat) / b := by
    have hcast : (a : ℚ) = b * (a / b : Nat) + (a % b : Nat) := by
      exact_mod_cast (Nat.div_add_mod a b).symm
    rw [hcast]
    field_simp
  have hlt : a % b < b := Nat.mod_lt a hb
  have hpos : (0 : ℚ) < b := by exact_mod_cast hb
  rw [hsplit]
  generalize a / b = quotient
  generalize a % b = rest at hlt
  rw [accuracyOfFraction]
  split
  · rename_i hzero
    rw [hzero, Nat.cast_zero, zero_div, add_zero]
    exact Represents.exact quotient
  · rename_i hrest
    have hfraction : (0 : ℚ) < rest / b := by
      have hcast : (0 : ℚ) < rest := by exact_mod_cast Nat.pos_of_ne_zero hrest
      positivity
    have hone : (rest : ℚ) / b < 1 := by
      rw [div_lt_one hpos]
      exact_mod_cast hlt
    rcases lt_trichotomy (2 * rest) b with hless | hhalf | hmore
    · rw [Nat.compare_eq_lt.mpr hless]
      have hhalf : (rest : ℚ) / b < 1 / 2 := by
        rw [div_lt_iff₀ hpos]
        have hcast : (2 : ℚ) * rest < b := by exact_mod_cast hless
        linarith
      simp [Represents, halves, ExtendedMantissa.ofMantissaAndAccuracy]
      constructor <;> linarith
    · rw [Nat.compare_eq_eq.mpr hhalf]
      have hcast : (rest : ℚ) / b = 1 / 2 := by
        have hdouble : (b : ℚ) = 2 * rest := by exact_mod_cast hhalf.symm
        rw [div_eq_iff hpos.ne']
        linarith
      simp [Represents, halves, ExtendedMantissa.ofMantissaAndAccuracy]
      linarith
    · rw [Nat.compare_eq_gt.mpr hmore]
      have hhalf : 1 / 2 < (rest : ℚ) / b := by
        rw [lt_div_iff₀ hpos]
        have hcast : (b : ℚ) < 2 * rest := by exact_mod_cast hmore
        linarith
      simp [Represents, halves, ExtendedMantissa.ofMantissaAndAccuracy]
      constructor <;> linarith

/-- With 53 bits the exponent is not too large. -/
theorem le_targetExponent (hm : e ≤ -1074 ∨ 2 ^ 52 ≤ m) :
    e ≤ Format.binary64.targetExponent (totalExponent m e) := by
  rw [targetExponent_eq]
  rcases hm with hleast | hlarge
  · omega
  · have hzero : m ≠ 0 := by omega
    have hlog : 52 ≤ m.log2 := (Nat.le_log2 hzero).mpr hlarge
    omega

theorem mul_of_roundsTo {h₁ : 0 < m₁} {h₂ : 0 < m₂} (hlarge : 2 ^ 52 ≤ m₁ * m₂)
    (hn : Canonical n f) (hround : RoundsTo (m₁ * 2 ^ e₁ * (m₂ * 2 ^ e₂)) n f) :
    UnpackedFloat.mul Format.binary64 (.finite .positive m₁ e₁ h₁) (.finite .positive m₂ e₂ h₂) =
      .finite .positive n f hn.pos := by
  have hvalue : (m₁ * 2 ^ e₁ * (m₂ * 2 ^ e₂) : ℚ) = (m₁ * m₂ : Nat) * 2 ^ (e₁ + e₂) := by
    rw [zpow_add₀ (by norm_num)]
    push_cast
    ring
  rw [hvalue] at hround
  exact roundWithAccuracy_of_roundsTo _ (Represents.exact _) (le_targetExponent (.inr hlarge))
    hn hround

/-- A dividend with so many more bits than the divisor has a quotient of 53 bits. -/
theorem le_quotient (h₁ : 0 < m₁) (h₂ : 0 < m₂) {count : Nat}
    (hbits : m₂.log2 + 53 ≤ m₁.log2 + count) : 2 ^ 52 ≤ m₁ * 2 ^ count / m₂ := by
  rw [Nat.le_div_iff_mul_le h₂]
  calc 2 ^ 52 * m₂ ≤ 2 ^ 52 * 2 ^ (m₂.log2 + 1) := Nat.mul_le_mul_left _ Nat.lt_log2_self.le
    _ = 2 ^ (m₂.log2 + 53) := by
        rw [← pow_add]
        congr 1
        omega
    _ ≤ 2 ^ (m₁.log2 + count) := Nat.pow_le_pow_right (by norm_num) hbits
    _ = 2 ^ m₁.log2 * 2 ^ count := pow_add _ _ _
    _ ≤ m₁ * 2 ^ count := Nat.mul_le_mul_right _ (Nat.log2_self_le h₁.ne')

theorem div_of_roundsTo {h₁ : 0 < m₁} {h₂ : 0 < m₂} (hn : Canonical n f)
    (hround : RoundsTo (m₁ * 2 ^ e₁ / (m₂ * 2 ^ e₂)) n f) :
    UnpackedFloat.div Format.binary64 (.finite .positive m₁ e₁ h₁) (.finite .positive m₂ e₂ h₂) =
      .finite .positive n f hn.pos := by
  -- The dividend is shifted so far that the quotient has 53 bits or the least exponent.
  have htarget : Format.binary64.targetExponent (totalExponent m₁ e₁ - totalExponent m₂ e₂) =
      max (m₁.log2 - m₂.log2 + (e₁ - e₂) - 53) (-1074) := by
    simp only [Format.targetExponent, totalExponent, Format.mantissaBits, Format.minExponent]
    norm_num
    omega
  simp only [UnpackedFloat.div, divCore, htarget]
  obtain ⟨t, ht⟩ : ∃ t,
      t = min (e₁ - e₂) (max (m₁.log2 - m₂.log2 + (e₁ - e₂) - 53 : Int) (-1074)) :=
    ⟨_, rfl⟩
  rw [← ht]
  obtain ⟨count, hcount⟩ : ∃ count : Nat, t + count = e₁ - e₂ := Int.le.dest (by omega)
  have hshift : (e₁ - e₂ - t).toNat = count := by omega
  rw [hshift, Nat.shiftLeft_eq]
  have hlarge : t ≤ -1074 ∨ 2 ^ 52 ≤ m₁ * 2 ^ count / m₂ := by
    by_cases hleast : t ≤ -1074
    · exact .inl hleast
    · exact .inr (le_quotient h₁ h₂ (by omega))
  have hvalue : (m₁ * 2 ^ e₁ / (m₂ * 2 ^ e₂) : ℚ) =
      ((m₁ * 2 ^ count : Nat) : ℚ) / m₂ * 2 ^ t := by
    have hexponent : (2 : ℚ) ^ e₁ = 2 ^ count * 2 ^ t * 2 ^ e₂ := by
      rw [← zpow_natCast, ← zpow_add₀ (by norm_num), ← zpow_add₀ (by norm_num)]
      congr 1
      omega
    have hpow := (two_zpow_pos e₂).ne'
    rw [hexponent]
    push_cast
    field_simp
  rw [hvalue] at hround
  exact roundWithAccuracy_of_roundsTo _ (Represents.fraction _ h₂) (le_targetExponent hlarge)
    hn hround

/-- The digits are given so many bits that their product with a power of ten is rounded once. -/
theorem shifted_mul_ten {digits : Nat} {exponent : Int} (hexponent : 0 ≤ exponent) :
    ((digits <<< Format.binary64.mantissaBits : Nat) : ℚ) *
        2 ^ (-(Format.binary64.mantissaBits : Int)) *
          ((10 ^ exponent.toNat : Nat) * 2 ^ (0 : Int)) =
      digits * 10 ^ exponent := by
  have hten : (10 : ℚ) ^ exponent = 10 ^ exponent.toNat := by
    rw [← zpow_natCast, Int.toNat_of_nonneg hexponent]
  rw [hten, Nat.shiftLeft_eq, zpow_neg, zpow_natCast]
  push_cast
  field_simp

theorem div_ten {digits : Nat} {exponent : Int} (hexponent : exponent < 0) :
    (digits : ℚ) * 2 ^ (0 : Int) / ((10 ^ (-exponent).toNat : Nat) * 2 ^ (0 : Int)) =
      digits * 10 ^ exponent := by
  have hten : (10 : ℚ) ^ exponent = (10 ^ (-exponent).toNat)⁻¹ := by
    rw [← zpow_natCast, Int.toNat_of_nonneg (by omega), ← zpow_neg, neg_neg]
  rw [hten]
  push_cast
  field_simp

/-- A decimal in the interval of a double is read as that double. -/
theorem ofScientific_of_roundsTo {digits : Nat} {exponent : Int} (hdigits : 0 < digits)
    (hn : Canonical n f) (hf : f ≤ 971) (hround : RoundsTo (digits * 10 ^ exponent) n f) :
    UnpackedFloat.ofScientific Format.binary64 digits exponent = .finite .positive n f hn.pos := by
  have hbits : digits < 10 ^ (digits.log2 + 1) :=
    Nat.lt_log2_self.trans_le (Nat.pow_le_pow_left (by norm_num) _)
  have hone : 10 ^ 0 ≤ digits := hdigits
  obtain ⟨hhigh, hlow⟩ := hround.magnitude hn hf hone hbits
  push_cast at hhigh hlow
  have hnotLarge : ¬exponent > 2 ^ Format.binary64.exponentBits := by
    norm_num
    omega
  have hnotSmall : ¬exponent < -((2 ^ Format.binary64.exponentBits : Int) + digits.log2) := by
    norm_num
    omega
  rw [UnpackedFloat.ofScientific, dif_neg hdigits.ne', if_neg hnotLarge, if_neg hnotSmall]
  split
  · rename_i hnonneg
    have hlarge : 2 ^ 52 ≤ (digits <<< Format.binary64.mantissaBits) * 10 ^ exponent.toNat := by
      rw [Nat.shiftLeft_eq]
      have hpow : 0 < 10 ^ exponent.toNat := by positivity
      calc 2 ^ 52 ≤ 1 * 2 ^ Format.binary64.mantissaBits := by norm_num [Format.mantissaBits]
        _ ≤ digits * 2 ^ Format.binary64.mantissaBits := Nat.mul_le_mul_right _ hdigits
        _ ≤ _ := Nat.le_mul_of_pos_right _ hpow
    exact mul_of_roundsTo hlarge hn (shifted_mul_ten hnonneg ▸ hround)
  · rename_i hnegative
    exact div_of_roundsTo hn (div_ten (not_le.mp hnegative) ▸ hround)

end Reckon
