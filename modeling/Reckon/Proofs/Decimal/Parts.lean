import Reckon.Proofs.Decimal.Nearest

/-
Doubles and their parts.  The fields of the bits give the mantissa and the exponent of a double,
and these give the double back.
-/

namespace Reckon

open Float.Model Float.Model.UnpackedFloat

variable {m n : Nat} {e f : Int} {x : Float} {sign : Sign}

/-- The parts in the form in which numbers are written. -/
def Binary.ofUnpacked : UnpackedFloat → Binary
  | .notANumber => .nan
  | .infinity sign => .infinite (sign == .negative)
  | .zero sign => .finite (sign == .negative) 0 (-1074)
  | .finite sign mantissa exponent _ => .finite (sign == .negative) mantissa exponent

section fields

variable (bits : BitVec Format.binary64.numBits)

theorem toNat_unpackMantissa : (unpackMantissa bits).toNat = bits.toNat % 2 ^ 52 := by
  rw [unpackMantissa_def, BitVec.extractLsb'_toNat, Nat.shiftRight_zero]

theorem toNat_unpackExponent : (unpackExponent bits).toNat = bits.toNat / 2 ^ 52 % 2048 := by
  rw [unpackExponent_def, BitVec.extractLsb'_toNat, Nat.shiftRight_eq_div_pow]
  rfl

/-- The sign is the last bit. -/
theorem unpackSign_eq_negative :
    (Sign.ofBitVec (unpackSign bits) == .negative) = decide (2 ^ 63 ≤ bits.toNat) := by
  have hfield : (unpackSign bits).toNat = bits.toNat / 2 ^ 63 % 2 := by
    rw [unpackSign_def, BitVec.extractLsb'_toNat, Nat.shiftRight_eq_div_pow]
    rfl
  have hwidth : bits.toNat < 2 ^ 64 := bits.isLt
  generalize unpackSign bits = field at hfield
  by_cases hlarge : 2 ^ 63 ≤ bits.toNat
  · have hone : field = 1#1 := BitVec.eq_of_toNat_eq (by rw [hfield]; simp; omega)
    rw [hone, decide_eq_true hlarge]
    rfl
  · have hzero : field = 0#1 := BitVec.eq_of_toNat_eq (by rw [hfield]; simp; omega)
    rw [hzero, decide_eq_false hlarge]
    rfl

theorem toNat_implicit_append (field : BitVec 52) :
    (1#1 ++ field).toNat = 2 ^ 52 + field.toNat := by
  rw [BitVec.toNat_append, ← Nat.shiftLeft_add_eq_or_of_lt field.isLt]
  simp [Nat.shiftLeft_eq]

/-- The unpacked form of a sign, an exponent field and a mantissa field.  The least and the greatest
exponent field mark what has no leading bit and what is not finite. -/
inductive Fields (sign : Sign) : Nat → Nat → UnpackedFloat → Prop
  | infinity : Fields sign 2047 0 (.infinity sign)
  | notANumber {mantissa : Nat} (hmantissa : mantissa ≠ 0) : Fields sign 2047 mantissa .notANumber
  | zero : Fields sign 0 0 (.zero sign)
  | subnormal {mantissa : Nat} (hpos : 0 < mantissa) :
      Fields sign 0 mantissa (.finite sign mantissa (-1074) hpos)
  | normal {exponent mantissa : Nat} (hleast : exponent ≠ 0) (hlast : exponent ≠ 2047)
      (hpos : 0 < 2 ^ 52 + mantissa) :
      Fields sign exponent mantissa (.finite sign (2 ^ 52 + mantissa) (exponent - 1075) hpos)

theorem fields_unpack : Fields (Sign.ofBitVec (unpackSign bits)) (bits.toNat / 2 ^ 52 % 2048)
    (bits.toNat % 2 ^ 52) (unpack .binary64 bits) := by
  rw [← toNat_unpackExponent, ← toNat_unpackMantissa]
  simp only [UnpackedFloat.unpack]
  split
  · rename_i hlast
    rw [hlast]
    split
    · rename_i hzero
      rw [hzero]
      exact .infinity
    · rename_i hzero
      exact .notANumber fun hnat => hzero (BitVec.eq_of_toNat_eq hnat)
  · rename_i hlast
    split
    · rename_i hleast
      rw [hleast]
      split
      · rename_i hzero
        rw [hzero]
        exact .zero
      · rename_i hzero
        exact .subnormal (Nat.pos_of_ne_zero fun hnat => hzero (BitVec.eq_of_toNat_eq hnat))
    · rename_i hleast
      have hpos : 0 < 2 ^ 52 + (unpackMantissa bits).toNat := Nat.add_pos_left (by norm_num) _
      have hnormal : Fields (Sign.ofBitVec (unpackSign bits)) _ _ _ :=
        .normal (fun hnat => hleast (BitVec.eq_of_toNat_eq hnat))
          (fun hnat => hlast (BitVec.eq_of_toNat_eq hnat)) hpos
      convert hnormal using 2
      · exact toNat_implicit_append _
      · rfl

end fields

/-- The fields that the writer reads are the parts of the double. -/
theorem Binary.ofFloat_eq (x : Float) : Binary.ofFloat x = .ofUnpacked x.toModel.unpack := by
  have hbits : x.toBits.toNat = x.toModel.toBits.toBitVec.toNat := rfl
  have hsign := unpackSign_eq_negative x.toModel.toBits.toBitVec
  have hfields := fields_unpack x.toModel.toBits.toBitVec
  simp only [Binary.ofFloat, hbits, powerOf, Nat.pow_eq]
  rw [← hsign, Float.Model.unpack]
  generalize x.toModel.toBits.toBitVec.toNat / 2 ^ 52 % 2048 = exponent at hfields ⊢
  generalize x.toModel.toBits.toBitVec.toNat % 2 ^ 52 = mantissa at hfields ⊢
  generalize unpack .binary64 x.toModel.toBits.toBitVec = unpacked at hfields ⊢
  cases hfields with
  | infinity => rfl
  | notANumber hmantissa => simp [hmantissa, ofUnpacked]
  | zero => rfl
  | subnormal hpos => rfl
  | normal hleast hlast hpos => simp [hleast, hlast, ofUnpacked]

/-- A finite double has no more bits than fit. -/
theorem canonical_of_unpack {hpos : 0 < m} (hx : x.toModel.unpack = .finite sign m e hpos) :
    Canonical m e ∧ e ≤ 971 := by
  have hfields := fields_unpack x.toModel.toBits.toBitVec
  rw [Float.Model.unpack] at hx
  rw [hx] at hfields
  have hexponent : x.toModel.toBits.toBitVec.toNat / 2 ^ 52 % 2048 < 2048 :=
    Nat.mod_lt _ (by norm_num)
  have hmantissa : x.toModel.toBits.toBitVec.toNat % 2 ^ 52 < 2 ^ 52 := Nat.mod_lt _ (by norm_num)
  generalize x.toModel.toBits.toBitVec.toNat / 2 ^ 52 % 2048 = exponent at hfields hexponent
  generalize x.toModel.toBits.toBitVec.toNat % 2 ^ 52 = mantissa at hfields hmantissa
  cases hfields with
  | subnormal => exact ⟨⟨hpos, by omega, le_rfl, .inr rfl⟩, by norm_num⟩
  | normal hleast hlast => exact ⟨⟨hpos, by omega, by omega, .inl (by omega)⟩, by omega⟩

/-- The parts of a double are packed to it again. -/
theorem ofModel_pack_unpack (x : Float) : Float.ofModel (.pack x.toModel.unpack) = x := by
  obtain ⟨⟨⟨bits⟩, hvalid⟩⟩ := x
  have hpack := pack_unpack_of_valid hvalid
  simp only [Float.Model.unpack, Float.Model.pack]
  congr

/-- With 53 bits in front of the point the parts are kept. -/
theorem unpack_pack_of_normal {hpos : 0 < m} (hlow : 2 ^ 52 ≤ m) (hhigh : m < 2 ^ 53)
    (hmin : -1074 ≤ e) (hmax : e ≤ 971) :
    unpack .binary64 (pack .binary64 (.finite sign m e hpos)) = .finite sign m e hpos := by
  have hlog : m.log2 + 1 = Format.binary64.mantissaBits :=
    congrArg (· + 1) ((Nat.log2_eq_iff hpos.ne').mpr ⟨hlow, hhigh⟩)
  obtain ⟨biased, hbiased⟩ : ∃ biased : Nat, biased = e + 1075 :=
    ⟨(e + 1075).toNat, Int.toNat_of_nonneg (by omega)⟩
  have hfield : (e + Format.binary64.exponentBias + Format.binary64.mantissaBitsWithoutImplicit
      : Int).toNat = biased := by
    change (e + (1023 : Nat) + (52 : Nat) : Int).toNat = biased
    omega
  have hmod : biased % 2 ^ 11 = biased := Nat.mod_eq_of_lt (by omega)
  have hlast : BitVec.ofNat 11 biased ≠ -1#11 := by
    intro hbits
    have hnat := congrArg BitVec.toNat hbits
    rw [BitVec.toNat_ofNat, hmod] at hnat
    simp at hnat
    omega
  have hleast : BitVec.ofNat 11 biased ≠ 0#11 := by
    intro hbits
    have hnat := congrArg BitVec.toNat hbits
    rw [BitVec.toNat_ofNat, hmod] at hnat
    simp at hnat
    omega
  have hmantissa : (1#1 ++ BitVec.ofNat 52 m).toNat = m := by
    rw [toNat_implicit_append, BitVec.toNat_ofNat]
    omega
  simp only [UnpackedFloat.pack, hfield, hlog, if_true]
  rw [if_neg (by norm_num; omega)]
  simp only [UnpackedFloat.unpack, unpackMantissa_packComponents, unpackExponent_packComponents,
    unpackSign_packComponents, Sign.ofBitVec_toBitVec, hlast, hleast, if_false, hmantissa]
  congr 1
  rw [BitVec.toNat_ofNat, hmod, hbiased]
  norm_num [Format.exponentBias]

end Reckon
