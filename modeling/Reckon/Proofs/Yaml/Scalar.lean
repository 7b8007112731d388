import Mathlib
import Reckon.Text.Quoted
import Reckon.Yaml.Scalar

/-
Scalars in written form.  A text in double quotes keeps the printable characters of ASCII and gives
all others by their codes; the reader undoes this.  A plain scalar is read up to where the text
ends, or up to a comma in brackets, or up to the colon behind a key.
-/

namespace Reckon

variable {base value width digit : Nat}

theorem digitValue?_hexDigit (hdigit : digit < 16) : digitValue? (hexDigit digit) = some digit := by
  interval_cases digit <;> decide

namespace Yaml

variable {bracketed : Bool} {indent : Nat} {blanks text rest after : List Char} {c : Char}

/-- Printable characters of ASCII, the space among them. -/
def isPrintableAscii (c : Char) : Bool := decide (' ' ≤ c) && decide (c ≤ '~')

/-- A character that goes on with a plain scalar, whatever stands around it. -/
def isPlainChar (c : Char) : Bool :=
  isPrintableAscii c && c ≠ ' ' && !isBracket c && c ≠ ':' && c ≠ '?' && c ≠ '#'

/-- A text that is a plain scalar wherever one may stand.  A sign or a point in front must have a
letter or a digit behind it. -/
def isWord : List Char → Bool
  | [] => false
  | c :: rest =>
      beginsPlain true (c :: rest) && (c :: rest).all isPlainChar &&
        ((c ≠ '-' && c ≠ '.') || rest.head?.any Char.isAlphanum)

/-- A character inside double quotes: as it stands, or by the eight digits of its code. -/
def writtenChar (c : Char) : List Char :=
  if isPrintableAscii c ∧ c ≠ '"' ∧ c ≠ '\\' then [c] else '\\' :: 'U' :: hexDigits 8 c.toNat

/-! ### Scalars in double quotes -/

theorem doubleRest_digit (hdigit : digitValue? c = some digit) :
    doubleRest (.code (width + 2) value) (c :: rest) =
      doubleRest (.code (width + 1) (16 * value + digit)) rest := by
  simp [doubleRest, hdigit]

/-- Digits add to the code that has been read, the highest first. -/
theorem doubleRest_hexDigits :
    doubleRest (.code (base + (width + 1)) value) (hexDigits base digit ++ rest) =
      doubleRest (.code (width + 1) (value * 16 ^ base + digit % 16 ^ base)) rest := by
  -- The last digit is the first that is taken off, so the others are read before it.
  induction base generalizing width digit rest with
  | zero => simp [hexDigits, Nat.mod_one]
  | succ base ih =>
      have hcount : base + 1 + (width + 1) = base + (width + 1 + 1) := by omega
      have hlast := digitValue?_hexDigit (Nat.mod_lt digit (show 0 < 16 by norm_num))
      have hvalue : 16 * (value * 16 ^ base + digit / 16 % 16 ^ base) + digit % 16 =
          value * 16 ^ (base + 1) + digit % 16 ^ (base + 1) := by
        rw [pow_succ', Nat.mod_mul]
        ring
      rw [hexDigits, List.append_assoc, List.singleton_append, hcount, ih,
        doubleRest_digit hlast, hvalue]

theorem charOfCode?_toNat (c : Char) : charOfCode? c.toNat = some c := by
  have hvalid : Nat.isValidChar c.toNat := c.valid
  rw [charOfCode?, if_pos hvalid, Char.ofNat_toNat]

/-- An escaped character is read as itself. -/
theorem doubleRest_escaped (c : Char) (rest : List Char) :
    doubleRest .escape ('U' :: hexDigits 8 c.toNat ++ rest) =
      within [c] (doubleRest (.text []) rest) := by
  have hbound : c.toNat / 16 < 16 ^ 7 := by
    have hvalid : Nat.isValidChar c.toNat := c.valid
    have hlt : c.toNat < 0x110000 := by
      rcases hvalid with hlow | ⟨-, hhigh⟩ <;> omega
    omega
  have hlast := digitValue?_hexDigit (Nat.mod_lt c.toNat (show 0 < 16 by norm_num))
  have hcode : charOfCode? (16 * (c.toNat / 16) + c.toNat % 16) = some c := by
    rw [Nat.div_add_mod]
    exact charOfCode?_toNat c
  calc doubleRest .escape ('U' :: hexDigits 8 c.toNat ++ rest)
      = doubleRest (.code 8 0) (hexDigits 8 c.toNat ++ rest) := rfl
    _ = doubleRest (.code (7 + (0 + 1)) 0)
          (hexDigits 7 (c.toNat / 16) ++ hexDigit (c.toNat % 16) :: rest) := by
        rw [hexDigits, List.append_assoc, List.singleton_append]
    _ = doubleRest (.code (0 + 1) (0 * 16 ^ 7 + c.toNat / 16 % 16 ^ 7))
          (hexDigit (c.toNat % 16) :: rest) := doubleRest_hexDigits
    _ = doubleRest (.code 1 (c.toNat / 16)) (hexDigit (c.toNat % 16) :: rest) := by
        rw [Nat.mod_eq_of_lt hbound, Nat.zero_mul, Nat.zero_add (c.toNat / 16)]
    _ = within [c] (doubleRest (.text []) rest) := by simp [doubleRest, hlast, hcode]

theorem isCutOff_of_not_mem (hblanks : '\n' ∉ blanks) : isCutOff blanks rest = false := by
  have hlast : blanks.getLast? ≠ some '\n' := fun hsome => hblanks (List.mem_of_getLast? hsome)
  simp [isCutOff, hlast]

/-- A text in double quotes is read up to the closing one. -/
theorem doubleRest_written (hblanks : '\n' ∉ blanks) :
    doubleRest (.text blanks) (text.flatMap writtenChar ++ '"' :: after) =
      some (blanks ++ text, after) := by
  induction text generalizing blanks with
  | nil =>
      rw [List.flatMap_nil, List.nil_append, List.append_nil, doubleRest]
      simp [isCutOff_of_not_mem hblanks, fold_of_not_mem hblanks]
  | cons c text ih =>
      rw [List.flatMap_cons, List.append_assoc]
      have hnone : '\n' ∉ ([] : List Char) := List.not_mem_nil
      rw [writtenChar]
      split
      · rename_i hdirect
        obtain ⟨hprintable, hquote, hslash⟩ := hdirect
        rw [List.singleton_append, doubleRest]
        by_cases hspace : c = ' '
        · subst hspace
          rw [if_pos (.inl rfl), ih (by simpa using hblanks), List.append_assoc]
          rfl
        · have hblank : ¬(c = ' ' ∨ c = '\t' ∨ c = '\n') := by
            rintro (rfl | rfl | rfl)
            · exact hspace rfl
            · revert hprintable; decide
            · revert hprintable; decide
          rw [if_neg hblank, isCutOff_of_not_mem hblanks, if_neg Bool.false_ne_true,
            if_neg hquote, if_neg hslash, ih hnone, fold_of_not_mem hblanks]
          simp [within]
      · rw [List.cons_append, doubleRest, if_neg (by decide), isCutOff_of_not_mem hblanks,
          if_neg Bool.false_ne_true, if_neg (by decide), if_pos rfl, doubleRest_escaped, ih hnone,
          fold_of_not_mem hblanks]
        simp [within]

/-! ### Plain scalars -/

/-- A plain scalar ends in front of this text. -/
def Stops (bracketed : Bool) (indent : Nat) (after : List Char) : Prop :=
  plainRest bracketed indent [] after = ([], after)

theorem stops_nil (bracketed : Bool) (indent : Nat) : Stops bracketed indent [] := rfl

theorem stops_comma (indent : Nat) (after : List Char) : Stops true indent (',' :: after) := by
  simp [Stops, plainRest, goesOn, isBracket]

theorem stops_colon (bracketed : Bool) (indent : Nat) (hafter : atGap after = true) :
    Stops bracketed indent (':' :: after) := by
  simp [Stops, plainRest, goesOn, separates, hafter]

theorem isPlainChar_ne (hc : isPlainChar c = true) :
    (c ≠ ' ' ∧ c ≠ '\t' ∧ c ≠ '\n') ∧ c ≠ ':' ∧ c ≠ '?' ∧ c ≠ '#' ∧ isBracket c = false := by
  simp only [isPlainChar, Bool.and_eq_true, Bool.not_eq_true', ne_eq, decide_not] at hc
  obtain ⟨⟨⟨⟨⟨hprintable, hspace⟩, hbracket⟩, hcolon⟩, hquestion⟩, hhash⟩ := hc
  refine ⟨⟨by simpa using hspace, ?_, ?_⟩, by simpa using hcolon, by simpa using hquestion,
    by simpa using hhash, hbracket⟩
  · rintro rfl
    revert hprintable
    decide
  · rintro rfl
    revert hprintable
    decide

theorem atGap_of_isPlainChar (hc : isPlainChar c = true) : atGap (c :: rest) = false := by
  obtain ⟨⟨hspace, htab, hbreak⟩, -⟩ := isPlainChar_ne hc
  simp [atGap, hspace, htab, hbreak]

theorem goesOn_of_isPlainChar (hc : isPlainChar c = true) :
    goesOn bracketed indent [] (c :: rest) = true := by
  obtain ⟨-, hcolon, hquestion, -, hbracket⟩ := isPlainChar_ne hc
  have hgap : atGap [c] = false := atGap_of_isPlainChar hc
  simp [goesOn, hgap, hcolon, hquestion, hbracket]

/-- A plain scalar is read up to where it stops. -/
theorem plain_append (htext : ∀ c ∈ text, isPlainChar c = true)
    (hafter : Stops bracketed indent after) :
    plain bracketed indent (text ++ after) = (text, after) := by
  rw [plain]
  induction text with
  | nil => exact hafter
  | cons c text ih =>
      have hc := htext c List.mem_cons_self
      obtain ⟨⟨hspace, -, hbreak⟩, -⟩ := isPlainChar_ne hc
      have hblank : ¬(c = ' ' ∨ c = '\n') := not_or.mpr ⟨hspace, hbreak⟩
      have htail := ih fun other hother => htext other (List.mem_cons_of_mem c hother)
      rw [List.cons_append, plainRest, if_neg hblank, if_pos (goesOn_of_isPlainChar hc), htail]
      rfl

/-- What makes up a plain scalar that can be written. -/
theorem exists_cons_of_isWord (hword : isWord text = true) :
    ∃ c rest, text = c :: rest ∧ beginsPlain true (c :: rest) = true ∧
      (∀ other ∈ text, isPlainChar other = true) ∧
      (c ≠ '-' ∧ c ≠ '.' ∨ ∃ d more, rest = d :: more ∧ d.isAlphanum = true) := by
  cases text with
  | nil => cases hword
  | cons c rest =>
      simp only [isWord, Bool.and_eq_true, Bool.or_eq_true, List.all_eq_true, ne_eq, decide_not,
        Bool.not_eq_true', decide_eq_false_iff_not] at hword
      obtain ⟨⟨hbegins, hall⟩, hsign⟩ := hword
      refine ⟨c, rest, rfl, hbegins, hall, hsign.imp_right fun hnext => ?_⟩
      cases rest with
      | nil => cases hnext
      | cons d more => exact ⟨d, more, rfl, hnext⟩

theorem beginsPlain_append (hword : isWord text = true) (bracketed : Bool) (after : List Char) :
    beginsPlain bracketed (text ++ after) = true := by
  obtain ⟨c, rest, rfl, hbegins, hall, hsign⟩ := exists_cons_of_isWord hword
  obtain ⟨-, hcolon, hquestion, -⟩ := isPlainChar_ne (hall c List.mem_cons_self)
  rw [List.cons_append, beginsPlain]
  rw [beginsPlain] at hbegins
  by_cases hdash : c = '-'
  · obtain ⟨hother, -⟩ | ⟨d, more, rfl, -⟩ := hsign
    · exact absurd hdash hother
    · have hd := hall d (List.mem_cons_of_mem c List.mem_cons_self)
      simp [hdash, atGap_of_isPlainChar hd]
  · simpa [hdash, hcolon, hquestion] using hbegins

theorem isMarker_eq_false
    (hmarker : ∀ rest, text ≠ '-' :: '-' :: rest ∧ text ≠ '.' :: '.' :: rest) :
    isMarker text = false := by
  rw [isMarker.eq_def]
  split
  · exact absurd rfl (hmarker _).1
  · exact absurd rfl (hmarker _).2
  · rfl

theorem isMarker_append (hword : isWord text = true) (after : List Char) :
    isMarker (text ++ after) = false := by
  obtain ⟨c, rest, rfl, -, -, hsign⟩ := exists_cons_of_isWord hword
  apply isMarker_eq_false
  intro more
  obtain ⟨hdash, hpoint⟩ | ⟨d, tail, rfl, hd⟩ := hsign
  · simp [hdash, hpoint]
  · have hdash : d ≠ '-' := by
      rintro rfl
      cases hd
    have hpoint : d ≠ '.' := by
      rintro rfl
      cases hd
    simp [hdash, hpoint]

/-! ### Characters of written forms -/

theorem isPrintableAscii_hexDigits (width value : Nat) (hc : c ∈ hexDigits width value) :
    isPrintableAscii c = true := by
  induction width generalizing value with
  | zero => cases hc
  | succ width ih =>
      rw [hexDigits, List.mem_append, List.mem_singleton] at hc
      rcases hc with hfront | rfl
      · exact ih _ hfront
      · have hdigit := Nat.mod_lt value (show 0 < 16 by norm_num)
        generalize value % 16 = digit at hdigit
        interval_cases digit <;> decide

theorem isPrintableAscii_writtenChar {other : Char} (hc : c ∈ writtenChar other) :
    isPrintableAscii c = true := by
  rw [writtenChar] at hc
  split at hc
  · rename_i hdirect
    rw [List.mem_singleton.mp hc]
    exact hdirect.1
  · rcases List.mem_cons.mp hc with rfl | hc
    · decide
    · rcases List.mem_cons.mp hc with rfl | hc
      · decide
      · exact isPrintableAscii_hexDigits 8 _ hc

end Yaml

end Reckon
