import Reckon.Decimal.Text
import Reckon.Proofs.Decimal.Equality
import Reckon.Proofs.Decimal.Shortest
import Reckon.Proofs.Token.Scan

/-
The text of a double.  It is a numeral with the value of the shortest decimal, wherever the point
stands and whether there is an exponent, so that the double is read from it again.
-/

namespace Reckon

open Numeral (digitsValue)

variable {m : Nat} {e leading : Int} {digits rest : List Char} {digit : Char}

/-- The number with these digits, the first of which stands for this power of ten. -/
def placed (digits : List Char) (leading : Int) : ℚ :=
  digitsValue digits * 10 ^ (leading + 1 - digits.length)

/-- The text is that of a numeral of this value, which begins with a digit. -/
def Writes (text : List Char) (value : ℚ) : Prop :=
  ∃ numeral : Numeral, numeral.WellFormed ∧ numeral.whole ≠ [] ∧ numeral.text = text ∧
    numeral.decimal.toRat = value

section digits

theorem digitsValue_append (first second : List Char) :
    digitsValue (first ++ second) =
      digitsValue first * 10 ^ second.length + digitsValue second := by
  change Nat.ofDigitChars 10 (first ++ second) 0 = _
  rw [Nat.ofDigitChars_append, Nat.ofDigitChars_eq_ofDigitChars_zero, mul_comm]
  rfl

theorem digitsValue_zeros (count : Nat) : digitsValue (List.replicate count '0') = 0 := by
  change Nat.ofDigitChars 10 _ 0 = _
  simp

theorem digitsValue_natText (n : Nat) : digitsValue (natText n) = n :=
  Nat.ofDigitChars_ten_toDigits

theorem isDigit_of_mem_natText {n : Nat} {c : Char} (hc : c ∈ natText n) : c.isDigit = true :=
  Nat.isDigit_of_mem_toDigits (by norm_num) (by norm_num) hc

theorem natText_ne_nil (n : Nat) : natText n ≠ [] := Nat.toDigits_ne_nil

theorem isDigit_of_mem_zeros {count : Nat} {c : Char} (hc : c ∈ List.replicate count '0') :
    c.isDigit = true := by
  rw [List.eq_of_mem_replicate hc]
  rfl

/-- Zeros behind the digits do not count. -/
theorem placed_append_zeros (digits : List Char) (count : Nat) (leading : Int) :
    placed (digits ++ List.replicate count '0') leading = placed digits leading := by
  have hexponent : leading + 1 - digits.length =
      (leading + 1 - (digits ++ List.replicate count '0').length) + count := by
    rw [List.length_append, List.length_replicate]
    omega
  rw [placed, placed, hexponent, zpow_add₀ (by norm_num), zpow_natCast, digitsValue_append,
    digitsValue_zeros, List.length_replicate]
  push_cast
  ring

/-- Nor do zeros in front of them. -/
theorem digitsValue_zeros_append (count : Nat) (digits : List Char) :
    digitsValue (List.replicate count '0' ++ digits) = digitsValue digits := by
  rw [digitsValue_append, digitsValue_zeros, zero_mul, zero_add]

theorem placed_zeros_append (count : Nat) (digits : List Char) (leading : Int) :
    placed (List.replicate count '0' ++ digits) leading = placed digits (leading - count) := by
  rw [placed, placed, digitsValue_zeros_append, List.length_append, List.length_replicate]
  congr 2
  omega

theorem exists_dropTrailingZeros (digits : List Char) :
    ∃ count, digits = dropTrailingZeros digits ++ List.replicate count '0' := by
  have hzeros : (digits.reverse.takeWhile (· == '0')).reverse =
      List.replicate (digits.reverse.takeWhile (· == '0')).length '0' := by
    rw [List.eq_replicate_iff]
    refine ⟨List.length_reverse, fun c hc => ?_⟩
    have htest := List.mem_takeWhile_imp (List.mem_reverse.mp hc)
    exact eq_of_beq htest
  refine ⟨(digits.reverse.takeWhile (· == '0')).length, ?_⟩
  rw [← hzeros, dropTrailingZeros, ← List.reverse_append, List.takeWhile_append_dropWhile,
    List.reverse_reverse]

theorem placed_dropTrailingZeros (digits : List Char) (leading : Int) :
    placed (dropTrailingZeros digits) leading = placed digits leading := by
  obtain ⟨count, hcount⟩ := exists_dropTrailingZeros digits
  conv_rhs => rw [hcount, placed_append_zeros]

theorem mem_of_mem_dropTrailingZeros {c : Char} (hc : c ∈ dropTrailingZeros digits) :
    c ∈ digits := by
  obtain ⟨count, hcount⟩ := exists_dropTrailingZeros digits
  rw [hcount]
  exact List.mem_append_left _ hc

/-- Placed by their length, the digits of a decimal stand for it. -/
theorem placed_natText (d : Decimal) :
    placed (natText d.digits) (d.exponent + (natText d.digits).length - 1) = d.toRat := by
  rw [placed, digitsValue_natText, Decimal.toRat]
  congr 2
  omega

end digits

/-- The value of a numeral is that of its digits, placed by its exponent. -/
theorem Numeral.decimal_toRat (numeral : Numeral) (shift : Int)
    (hshift : (numeral.exponent.map Exponent.value).getD 0 = shift) :
    numeral.decimal.toRat =
      placed (numeral.whole ++ numeral.fraction.getD []) (shift + numeral.whole.length - 1) := by
  have hdecimal : numeral.decimal = ⟨digitsValue (numeral.whole ++ numeral.fraction.getD []),
      shift - (numeral.fraction.getD []).length⟩ := by
    rw [← hshift, Numeral.decimal]
    cases numeral.exponent <;> rfl
  rw [hdecimal, Decimal.toRat, placed, List.length_append]
  congr 2
  dsimp only
  omega

/-- Digits around a point. -/
theorem writes_of_point {whole fraction : List Char} (hwhole : ∀ c ∈ whole, c.isDigit = true)
    (hne : whole ≠ []) (hfraction : ∀ c ∈ fraction, c.isDigit = true) :
    Writes (whole ++ '.' :: fraction) (placed (whole ++ fraction) (whole.length - 1)) := by
  refine ⟨⟨whole, some fraction, none⟩, ⟨hwhole, ?_, .inl hne, by simp⟩, hne,
    by simp [Numeral.text, Numeral.fractionText, Numeral.exponentText], ?_⟩
  · rintro _ ⟨⟩
    exact hfraction
  · refine (Numeral.decimal_toRat _ 0 rfl).trans ?_
    rw [Int.zero_add]
    rfl

/-- The exponent of the text. -/
def exponentPart (exponent : Int) : Numeral.Exponent where
  mark := 'e'
  sign := some (if exponent < 0 then '-' else '+')
  digits := if (natText exponent.natAbs).length < 2 then '0' :: natText exponent.natAbs
    else natText exponent.natAbs

theorem exponentPart_wellFormed (exponent : Int) : (exponentPart exponent).WellFormed := by
  refine ⟨.inl rfl, ?_, ?_, ?_⟩
  · intro c hc
    cases hc
    split
    · exact .inr rfl
    · exact .inl rfl
  · intro c hc
    simp only [exponentPart] at hc
    split at hc
    · rcases List.mem_cons.mp hc with rfl | hc
      · rfl
      · exact isDigit_of_mem_natText hc
    · exact isDigit_of_mem_natText hc
  · simp only [exponentPart]
    split
    · exact List.cons_ne_nil _ _
    · exact natText_ne_nil _

theorem exponentPart_value (exponent : Int) : (exponentPart exponent).value = exponent := by
  have hdigits : digitsValue (exponentPart exponent).digits = exponent.natAbs := by
    simp only [exponentPart]
    split
    · exact (digitsValue_zeros_append 1 _).trans (digitsValue_natText _)
    · exact digitsValue_natText _
  rw [Numeral.Exponent.value, hdigits]
  rcases lt_or_ge exponent 0 with hnegative | hnonnegative
  · rw [if_pos (by simp [exponentPart, hnegative])]
    omega
  · rw [if_neg (by simp [exponentPart, not_lt.mpr hnonnegative])]
    omega

/-- One digit in front of the point and the power of ten behind. -/
theorem scientificText_writes (hdigits : ∀ c ∈ digits, c.isDigit = true) (hne : digits ≠ [])
    (leading : Int) : Writes (scientificText digits leading) (placed digits leading) := by
  obtain ⟨digit, rest, rfl⟩ := List.exists_cons_of_ne_nil hne
  have hshift := exponentPart_value leading
  have hexponent := exponentPart_wellFormed leading
  have hdigit : ∀ c ∈ [digit], c.isDigit = true := by
    intro c hc
    exact hdigits c (List.mem_singleton.mp hc ▸ List.mem_cons_self)
  cases rest with
  | nil =>
      refine ⟨⟨[digit], none, some (exponentPart leading)⟩, ⟨hdigit, by simp, by simp, ?_⟩,
        by simp, rfl, ?_⟩
      · rintro _ ⟨⟩
        exact hexponent
      · refine (Numeral.decimal_toRat _ leading ?_).trans ?_
        · exact hshift
        · simp
  | cons second rest =>
      refine ⟨⟨[digit], some (second :: rest), some (exponentPart leading)⟩,
        ⟨hdigit, ?_, by simp, ?_⟩, by simp, by simp [Numeral.text, scientificText]; rfl, ?_⟩
      · rintro _ ⟨⟩ c hc
        exact hdigits c (List.mem_cons_of_mem _ hc)
      · rintro _ ⟨⟩
        exact hexponent
      · refine (Numeral.decimal_toRat _ leading ?_).trans ?_
        · exact hshift
        · simp

/-- Around the point stand the digits, filled with zeros where they do not reach it. -/
theorem exists_around_point (digits : List Char) (whole : Nat) :
    ∃ count, digits.take whole ++ List.replicate (whole - digits.length) '0' ++
        (if digits.drop whole = [] then ['0'] else digits.drop whole) =
      digits ++ List.replicate count '0' := by
  by_cases hreach : digits.drop whole = []
  · have hlength : digits.length ≤ whole := List.drop_eq_nil_iff.mp hreach
    refine ⟨whole - digits.length + 1, ?_⟩
    rw [if_pos hreach, List.take_of_length_le hlength, List.replicate_succ', List.append_assoc]
  · have hlength : whole - digits.length = 0 := by
      rw [List.drop_eq_nil_iff] at hreach
      omega
    refine ⟨0, ?_⟩
    rw [if_neg hreach, hlength, List.replicate_zero, List.append_nil, List.append_nil,
      List.take_append_drop]

theorem positionalText_writes (hdigits : ∀ c ∈ digits, c.isDigit = true) (leading : Int) :
    Writes (positionalText digits leading) (placed digits leading) := by
  rw [positionalText]
  split
  · rename_i hnonneg
    obtain ⟨whole, hwhole⟩ : ∃ whole : Nat, whole = leading.toNat + 1 := ⟨_, rfl⟩
    obtain ⟨count, haround⟩ := exists_around_point digits whole
    have hlength :
        (digits.take whole ++ List.replicate (whole - digits.length) '0').length = whole := by
      rw [List.length_append, List.length_take, List.length_replicate]
      omega
    have hfront : ∀ c ∈ digits.take whole ++ List.replicate (whole - digits.length) '0',
        c.isDigit = true := by
      intro c hc
      rcases List.mem_append.mp hc with hc | hc
      · exact hdigits c (List.mem_of_mem_take hc)
      · exact isDigit_of_mem_zeros hc
    have hbehind : ∀ c ∈ if digits.drop whole = [] then ['0'] else digits.drop whole,
        c.isDigit = true := by
      intro c hc
      split at hc
      · exact List.mem_singleton.mp hc ▸ rfl
      · exact hdigits c (List.mem_of_mem_drop hc)
    have hwrites := writes_of_point hfront (List.ne_nil_of_length_pos (by omega)) hbehind
    have hleading : (whole : Int) - 1 = leading := by omega
    rw [haround, placed_append_zeros, hlength, hleading] at hwrites
    simp only [← hwhole]
    exact hwrites
  · rename_i hnegative
    obtain ⟨gap, hgap⟩ : ∃ gap : Nat, gap = (-leading - 1).toNat := ⟨_, rfl⟩
    have hbehind : ∀ c ∈ List.replicate gap '0' ++ digits, c.isDigit = true := by
      intro c hc
      rcases List.mem_append.mp hc with hc | hc
      · exact isDigit_of_mem_zeros hc
      · exact hdigits c hc
    have hzero : List.replicate 1 '0' ≠ [] := List.cons_ne_nil '0' []
    have hwrites := writes_of_point (fun _ => isDigit_of_mem_zeros) hzero hbehind
    have hleading : ((List.replicate 1 '0').length : Int) - 1 - (1 : Nat) - gap = leading := by
      rw [List.length_replicate]
      omega
    rw [placed_zeros_append, placed_zeros_append, hleading] at hwrites
    rw [← hgap]
    exact hwrites

/-- The text of a positive double is a numeral with the value of its shortest decimal. -/
theorem shortestMagnitude_writes (hm : 0 < m) (e : Int) :
    Writes (shortestMagnitude m e) (shortestDecimal m e).toRat := by
  obtain ⟨digits, hdigits⟩ : ∃ digits, digits = natText (shortestDecimal m e).digits := ⟨_, rfl⟩
  have hvalue := placed_natText (shortestDecimal m e)
  have hplaced := placed_dropTrailingZeros digits
    ((shortestDecimal m e).exponent + digits.length - 1)
  have hall : ∀ c ∈ dropTrailingZeros digits, c.isDigit = true := by
    intro c hc
    exact isDigit_of_mem_natText (hdigits ▸ mem_of_mem_dropTrailingZeros hc)
  rw [← hdigits] at hvalue
  simp only [shortestMagnitude]
  rw [if_neg hm.ne', ← hdigits, ← hvalue, ← hplaced]
  split
  · exact positionalText_writes hall _
  · refine scientificText_writes hall ?_ _
    -- Without digits the value would be zero, and zero does not round to the double.
    intro hnil
    have hzero : (shortestDecimal m e).toRat = 0 := by
      rw [← hvalue, ← hplaced, hnil]
      exact zero_mul _
    exact ((shortestDecimal_roundsTo hm e).pos hm).ne' hzero

/-- A finite double without a sign is written as a numeral that begins with a digit and is read as
this double. -/
theorem writeShortest_numeral {x : Float} (hsign : Unpacked.isUnsigned x.toModel.unpack = true)
    (hfinite : x.isFinite = true) : ∃ numeral : Numeral, numeral.WellFormed ∧ numeral.whole ≠ [] ∧
      writeShortest x = String.ofList numeral.text ∧ numeral.value = x := by
  have hunpacked : ∀ unpacked, x.toModel.unpack = unpacked → unpacked.isFinite = true :=
    fun _ hunpack => hunpack ▸ hfinite
  rw [writeShortest, writeFloat, Binary.ofFloat_eq]
  cases hunpack : x.toModel.unpack with
  | notANumber => cases hunpacked _ hunpack
  | infinity sign => cases hunpacked _ hunpack
  | zero sign =>
      rw [hunpack] at hsign
      cases sign with
      | negative => cases hsign
      | positive =>
          have hx : x = 0.0 := by
            rw [← ofModel_pack_unpack x, hunpack]
            rfl
          refine ⟨⟨['0'], some ['0'], none⟩, ⟨by simp, by simp, by simp, by simp⟩, by simp, rfl, ?_⟩
          rw [hx]
          exact Decimal.toFloat_zero _
  | finite sign m e hpos =>
      rw [hunpack] at hsign
      cases sign with
      | negative => cases hsign
      | positive =>
          obtain ⟨numeral, hnumeral, hwhole, htext, hvalue⟩ := shortestMagnitude_writes hpos e
          refine ⟨numeral, hnumeral, hwhole, by rw [htext]; rfl, ?_⟩
          refine Decimal.toFloat_of_hasParts ⟨hpos, hunpack⟩ ?_
          rw [hvalue]
          exact shortestDecimal_roundsTo hpos e

/-- What is written of a finite double without a sign is read as this double. -/
theorem readNumber?_writeShortest {x : Float}
    (hsign : Unpacked.isUnsigned x.toModel.unpack = true) (hfinite : x.isFinite = true) :
    readNumber? (writeShortest x) = some x := by
  obtain ⟨numeral, hnumeral, _, htext, hvalue⟩ := writeShortest_numeral hsign hfinite
  rw [htext, readNumber?_text hnumeral, hvalue]

end Reckon
