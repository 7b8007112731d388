import Reckon.Decimal.Shortest
import Reckon.Proofs.Decimal.Reading

/-
The shortest decimal of a double.  Quotients of natural numbers compare as the numbers they stand
for, so that a decimal in the interval rounds to the double; so does the exact value, which is
taken if no shorter decimal is found.
-/

namespace Reckon

variable {m : Nat} {e : Int} {digits : Nat} {power : Int}

namespace Quotient10

/-- The number that the quotient stands for. -/
def toRat (x : Quotient10) : ℚ := x.numerator / x.denominator

theorem denominator_ofBinary_pos (m : Nat) (e : Int) : 0 < (ofBinary m e).denominator :=
  powerOf_pos (by norm_num) _

theorem toRat_ofBinary (m : Nat) (e : Int) : (ofBinary m e).toRat = m * 2 ^ e := by
  simp only [toRat, ofBinary, powerOf, Nat.pow_eq]
  rw [zpow_eq_div (by norm_num)]
  push_cast
  rw [mul_div_assoc]

variable {x : Quotient10}

/-- The shifted quotient compares with a count as the quotient with so many powers of ten. -/
theorem numerator_shift_le (hx : 0 < x.denominator) :
    (x.shift power).numerator ≤ digits * (x.shift power).denominator ↔
      x.toRat ≤ digits * 10 ^ power := by
  have hpos : (0 : ℚ) < x.denominator := by exact_mod_cast hx
  rw [zpow_eq_div (by norm_num), mul_div_assoc', toRat, div_le_div_iff₀ hpos (by positivity)]
  simp only [shift, powerOf, Nat.pow_eq, ← mul_assoc]
  norm_cast
  rw [mul_right_comm digits]

theorem le_numerator_shift (hx : 0 < x.denominator) :
    digits * (x.shift power).denominator ≤ (x.shift power).numerator ↔
      digits * 10 ^ power ≤ x.toRat := by
  have hpos : (0 : ℚ) < x.denominator := by exact_mod_cast hx
  rw [zpow_eq_div (by norm_num), mul_div_assoc', toRat, div_le_div_iff₀ (by positivity) hpos]
  simp only [shift, powerOf, Nat.pow_eq, ← mul_assoc]
  norm_cast
  rw [mul_right_comm digits]

end Quotient10

namespace RoundingInterval

theorem toRat_lower (hm : 0 < m) : (ofBinary m e).lower.toRat = lowerEnd m e := by
  simp only [ofBinary, Quotient10.toRat_ofBinary]
  rw [lowerEnd, lowerGap, zpow_sub₀ (by norm_num)]
  by_cases hedge : m = powerOf 2 52 ∧ -1074 < e
  · have hgap : (if m = 2 ^ 52 ∧ -1074 < e then 1 / 4 else 1 / 2 : ℚ) = 1 / 4 := if_pos hedge
    rw [if_pos hedge, hgap, Nat.cast_sub (by omega)]
    push_cast
    ring
  · have hgap : (if m = 2 ^ 52 ∧ -1074 < e then 1 / 4 else 1 / 2 : ℚ) = 1 / 2 := if_neg hedge
    rw [if_neg hedge, hgap, Nat.cast_sub (by omega)]
    push_cast
    ring

theorem toRat_upper (m : Nat) (e : Int) : (ofBinary m e).upper.toRat = upperEnd m e := by
  simp only [ofBinary, Quotient10.toRat_ofBinary]
  rw [upperEnd, zpow_sub₀ (by norm_num)]
  push_cast
  ring

/-- A decimal in the interval of a double rounds to it. -/
theorem roundsTo_of_contains (hm : 0 < m)
    (hcontains : (ofBinary m e).contains digits power = true) :
    RoundsTo (digits * 10 ^ power) m e := by
  have hlower : 0 < (ofBinary m e).lower.denominator := Quotient10.denominator_ofBinary_pos _ _
  have hupper : 0 < (ofBinary m e).upper.denominator := Quotient10.denominator_ofBinary_pos _ _
  dsimp only [contains] at hcontains
  split at hcontains
  · rename_i heven
    have hparity : m % 2 = 0 := of_decide_eq_true heven
    obtain ⟨hbelow, habove⟩ := by simpa using hcontains
    rw [Quotient10.numerator_shift_le hlower, toRat_lower hm] at hbelow
    rw [Quotient10.le_numerator_shift hupper, toRat_upper] at habove
    exact ⟨hbelow, habove, fun hodd => by omega⟩
  · obtain ⟨hbelow, habove⟩ := by simpa using hcontains
    rw [← not_le, Quotient10.le_numerator_shift hlower, toRat_lower hm, not_le] at hbelow
    rw [← not_le, Quotient10.numerator_shift_le hupper, toRat_upper, not_le] at habove
    exact ⟨hbelow.le, habove.le, fun _ => ⟨hbelow, habove⟩⟩

end RoundingInterval

/-- The exact value as a decimal. -/
theorem exact_value (m : Nat) (e : Int) :
    Decimal.toRat ⟨m * powerOf 2 e.toNat * powerOf 5 (-e).toNat, min e 0⟩ = m * 2 ^ e := by
  simp only [Decimal.toRat, powerOf, Nat.pow_eq]
  have hmin : min e 0 = -(-e).toNat := by omega
  have hten : (10 : ℚ) ^ (-e).toNat = 2 ^ (-e).toNat * 5 ^ (-e).toNat := by
    rw [← mul_pow]
    norm_num
  rw [zpow_eq_div (by norm_num) e, hmin, zpow_neg, zpow_natCast, hten]
  push_cast
  field_simp

/-- The shortest decimal of a double rounds to it. -/
theorem shortestDecimal_roundsTo (hm : 0 < m) (e : Int) :
    RoundsTo (shortestDecimal m e).toRat m e := by
  simp only [shortestDecimal]
  cases hgrid : (List.range 17).findSome? fun (extra : Nat) =>
      nearestMultiple? (.ofBinary m e) (.ofBinary m e)
        ((Quotient10.ofBinary m e).leading - extra) with
  | none =>
      rw [Option.getD_none, exact_value]
      exact roundsTo_self m e
  | some d =>
      obtain ⟨_, _, hnearest⟩ := List.exists_of_findSome?_eq_some hgrid
      exact RoundingInterval.roundsTo_of_contains hm (nearestMultiple?_contains hnearest)

end Reckon
