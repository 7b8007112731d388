import Reckon.Proofs.Token.Scan

/-
The texts of tokens, and the longest of them at the front of a text.  A text begins with at most
one kind of token: numerals with a digit or a point, names with a letter or an underscore, and
symbols with themselves.
-/

namespace Reckon

namespace Numeral

variable {exponent : Option Exponent} {numeral : Numeral} {rest : List Char}

theorem length_scanExponent_le (text : List Char) :
    (scanExponent text).2.length ≤ text.length := by
  have hlength := congrArg List.length (scanExponent_append text)
  rw [List.length_append] at hlength
  omega

theorem length_scanFraction_le (text : List Char) :
    (scanFraction text).2.length ≤ text.length := by
  have hlength := congrArg List.length (scanFraction_append text)
  rw [List.length_append] at hlength
  omega

/-- An exponent at the front of a text is scanned, with further digits if there are any. -/
theorem length_scanExponent_text_le {part : Exponent} (hpart : part.WellFormed)
    (rest : List Char) : (scanExponent (part.text ++ rest)).2.length ≤ rest.length := by
  obtain ⟨hmark, hsign, hdigits, hnil⟩ := hpart
  obtain ⟨digit, more, hmore⟩ := List.exists_cons_of_ne_nil hnil
  have htake : (part.digits ++ rest).takeWhile Char.isDigit ≠ [] := by
    simp [hmore, hdigits digit (hmore ▸ List.mem_cons_self)]
  simp only [Exponent.text, List.cons_append, List.append_assoc, scanExponent, hmark, ↓reduceIte,
    scanSign_of_digits hsign hdigits hnil, htake]
  rw [List.dropWhile_append_of_pos hdigits]
  exact List.length_dropWhile_le _ rest

/-- Neither digits nor a fraction are scanned in front of an exponent. -/
theorem scan_beforeExponent {part : Exponent} (hpart : part.WellFormed) (rest : List Char) :
    (part.text ++ rest).dropWhile Char.isDigit = part.text ++ rest ∧
      scanFraction (part.text ++ rest) = (none, part.text ++ rest) := by
  have hmark : part.mark.isDigit = false ∧ part.mark ≠ '.' := by
    rcases hpart.mark with hmark | hmark <;> rw [hmark] <;> decide
  simp [Exponent.text, scanFraction, hmark]

/-- Where an exponent or none stands in front of a rest, no more than the rest is left of it. -/
theorem length_exponent_rest_le (hexponent : ∀ part ∈ exponent, part.WellFormed)
    (rest : List Char) :
    (scanExponent ((exponentText exponent ++ rest).dropWhile Char.isDigit)).2.length ≤
        rest.length ∧
      (scanExponent (scanFraction
        ((exponentText exponent ++ rest).dropWhile Char.isDigit)).2).2.length ≤ rest.length := by
  cases exponent with
  | none =>
      have hdrop := List.length_dropWhile_le Char.isDigit rest
      refine ⟨Nat.le_trans (length_scanExponent_le _) hdrop, ?_⟩
      exact Nat.le_trans (length_scanExponent_le _) (Nat.le_trans (length_scanFraction_le _) hdrop)
  | some part =>
      have hpart := hexponent part rfl
      obtain ⟨hdrop, hfraction⟩ := scan_beforeExponent hpart rest
      rw [exponentText, hdrop, hfraction]
      exact ⟨length_scanExponent_text_le hpart rest, length_scanExponent_text_le hpart rest⟩

/-- Where a numeral stands in front of a rest, no more than the rest is left behind a scan. -/
theorem length_scan_rest_le (hnumeral : numeral.WellFormed) (rest : List Char) :
    (scanExponent (scanFraction
      ((numeral.text ++ rest).dropWhile Char.isDigit)).2).2.length ≤ rest.length := by
  obtain ⟨hwhole, hfraction, _, hexponent⟩ := hnumeral
  obtain ⟨hplain, hpoint⟩ := length_exponent_rest_le hexponent rest
  rw [text, List.append_assoc, List.append_assoc, List.dropWhile_append_of_pos hwhole]
  cases hcase : numeral.fraction with
  | none => exact hpoint
  | some digits =>
      have hstop : ('.' :: (digits ++ (exponentText numeral.exponent ++ rest))).dropWhile
          Char.isDigit = '.' :: (digits ++ (exponentText numeral.exponent ++ rest)) := by
        rw [List.dropWhile_cons_of_neg (by decide)]
      rw [fractionText, List.cons_append, hstop]
      simp only [scanFraction, ↓reduceIte]
      rw [List.dropWhile_append_of_pos (hfraction digits hcase)]
      exact hplain

/-- The scan of a text that begins with a numeral finds one that is at least as long. -/
theorem exists_scan? (hnumeral : numeral.WellFormed) (rest : List Char) :
    ∃ found after, scan? (numeral.text ++ rest) = some (found, after) ∧
      after.length ≤ rest.length := by
  have hdigits : ¬((numeral.text ++ rest).takeWhile Char.isDigit = [] ∧
      (scanFraction ((numeral.text ++ rest).dropWhile Char.isDigit)).1.getD [] = []) := by
    obtain ⟨hwhole, hfraction, hnil, _⟩ := hnumeral
    cases hfront : numeral.whole with
    | cons c more =>
        have hc : c.isDigit = true := hwhole c (hfront ▸ List.mem_cons_self)
        simp [text, hfront, hc]
    | nil =>
        cases hcase : numeral.fraction with
        | none => simp [hfront, hcase] at hnil
        | some digits =>
            obtain ⟨c, more, hmore⟩ := List.exists_cons_of_ne_nil
              (show digits ≠ [] by simpa [hfront, hcase] using hnil)
            have hc : c.isDigit = true := hfraction digits hcase c (hmore ▸ List.mem_cons_self)
            have hstop : Char.isDigit '.' = false := by decide
            simp [text, hfront, hcase, fractionText, scanFraction, hmore, hc, hstop]
  simp only [scan?, hdigits, ↓reduceIte, Option.some.injEq, Prod.mk.injEq]
  exact ⟨_, _, ⟨rfl, rfl⟩, length_scan_rest_le hnumeral rest⟩

theorem mem_of_getLast?_append {first second : List Char} (hsecond : second ≠ []) {c : Char}
    (hc : c ∈ (first ++ second).getLast?) : c ∈ second := by
  rw [List.getLast?_append, List.getLast?_eq_some_getLast hsecond] at hc
  cases hc
  exact List.getLast_mem hsecond

theorem count_point_digits {digits : List Char} (hdigits : ∀ c ∈ digits, c.isDigit = true) :
    digits.count '.' = 0 := by
  apply List.count_eq_zero.mpr
  intro hpoint
  exact absurd (hdigits _ hpoint) (by decide)

theorem count_point_exponentText (hexponent : ∀ part ∈ exponent, part.WellFormed) :
    (exponentText exponent).count '.' = 0 := by
  apply List.count_eq_zero.mpr
  intro hpoint
  cases exponent with
  | none => cases hpoint
  | some part =>
      obtain ⟨hmark, hsign, hdigits, _⟩ := hexponent part rfl
      simp only [exponentText, Exponent.text, List.cons_append, List.mem_cons, List.mem_append,
        Option.mem_toList] at hpoint
      rcases hpoint with hpoint | hpoint | hpoint
      · rw [← hpoint] at hmark
        exact absurd hmark (by decide)
      · exact absurd (hsign _ hpoint) (by decide)
      · exact absurd (hdigits _ hpoint) (by decide)

/-- A numeral ends with a digit or its point, and has one point at most. -/
theorem WellFormed.text_plain (hnumeral : numeral.WellFormed) :
    (∀ c ∈ numeral.text.getLast?, c.isDigit = true ∨ c = '.') ∧ numeral.text.count '.' ≤ 1 ∧
      '\x00' ∉ numeral.text := by
  refine ⟨?_, ?_, fun hc => absurd (mem_chars_of_mem_text hnumeral hc) (by decide)⟩
  · intro c hc
    obtain ⟨hwhole, hfraction, hdigits, hexponent⟩ := hnumeral
    rw [text] at hc
    cases hpart : numeral.exponent with
    | some part =>
        obtain ⟨_, _, hdigit, hnil⟩ := hexponent part hpart
        rw [hpart, exponentText, Exponent.text, ← List.append_assoc] at hc
        exact .inl (hdigit c (mem_of_getLast?_append hnil hc))
    | none =>
        rw [hpart, exponentText, List.append_nil] at hc
        cases hcase : numeral.fraction with
        | some digits =>
            rw [hcase, fractionText] at hc
            rcases List.mem_cons.mp (mem_of_getLast?_append (List.cons_ne_nil _ _) hc) with
              rfl | hc
            · exact .inr rfl
            · exact .inl (hfraction digits hcase c hc)
        | none =>
            rw [hcase, fractionText, List.append_nil] at hc
            exact .inl (hwhole c (List.mem_of_getLast? hc))
  · obtain ⟨hwhole, hfraction, _, hexponent⟩ := hnumeral
    rw [text, List.count_append, List.count_append, count_point_digits hwhole,
      count_point_exponentText hexponent]
    cases hcase : numeral.fraction with
    | none => exact Nat.zero_le 1
    | some digits =>
        rw [fractionText, List.count_cons_self, count_point_digits (hfraction digits hcase)]

end Numeral

/-- The texts of tokens with their kinds: numerals, names and symbols. -/
inductive Lexeme : Token.Kind → List Char → Prop
  | number {numeral : Numeral} (hnumeral : numeral.WellFormed) :
      Lexeme (.number numeral.value) numeral.text
  | name {c : Char} {rest : List Char} (hc : isNameStart c = true)
      (hrest : ∀ d ∈ rest, isNamePart d = true) :
      Lexeme (.name (String.ofList (c :: rest))) (c :: rest)
  | symbol (mark : Symbol) : Lexeme (.symbol mark) [mark.char]

/-- The text is a token of this kind, and no longer token stands at the front of the text with the
rest behind it. -/
structure Longest (kind : Token.Kind) (text rest : List Char) : Prop where
  lexeme : Lexeme kind text
  length_le : ∀ other longer, Lexeme other longer → longer <+: text ++ rest →
    longer.length ≤ text.length

variable {kind other : Token.Kind} {text rest : List Char}

/-- No numeral begins with another character than a digit or a point. -/
theorem Numeral.scan?_eq_none {c : Char} (hdigit : c.isDigit = false) (hpoint : c ≠ '.')
    (rest : List Char) : Numeral.scan? (c :: rest) = none := by
  simp [Numeral.scan?, hdigit, Numeral.scanFraction, hpoint]

/-- No name begins with a digit or a point. -/
theorem plain_of_isNameStart {c : Char} (hc : isNameStart c = true) :
    c.isDigit = false ∧ c ≠ '.' := by
  have hchars : ∀ c ∈ Numeral.chars, c.isDigit = true ∨ c = '.' → isNameStart c = false :=
    forall_of_all (by decide)
  constructor
  · by_contra hdigit
    rw [Bool.not_eq_false] at hdigit
    rw [hchars c (Numeral.mem_chars_of_isDigit hdigit) (.inl hdigit)] at hc
    cases hc
  · rintro rfl
    revert hc
    decide

/-- No symbol is a digit, a point or the beginning of a name. -/
theorem Symbol.char_plain (mark : Symbol) :
    mark.char.isDigit = false ∧ mark.char ≠ '.' ∧ isNameStart mark.char = false := by
  cases mark <;> decide

theorem scanFront_of_numeral {numeral : Numeral} {c : Char}
    (hscan : Numeral.scan? (c :: text) = some (numeral, rest)) :
    scanFront (c :: text) = (.ok (.number numeral.value), numeral.text, rest) := by
  rw [scanFront, hscan]

theorem scanFront_of_isNameStart {c : Char} (hc : isNameStart c = true) (rest : List Char) :
    scanFront (c :: rest) = (.ok (.name (String.ofList (c :: rest.takeWhile isNamePart))),
      c :: rest.takeWhile isNamePart, rest.dropWhile isNamePart) := by
  obtain ⟨hdigit, hpoint⟩ := plain_of_isNameStart hc
  rw [scanFront, Numeral.scan?_eq_none hdigit hpoint]
  dsimp only
  rw [if_pos hc]

theorem scanFront_symbol (mark : Symbol) (rest : List Char) :
    scanFront (mark.char :: rest) = (.ok (.symbol mark), [mark.char], rest) := by
  obtain ⟨hdigit, hpoint, hname⟩ := mark.char_plain
  rw [scanFront, Numeral.scan?_eq_none hdigit hpoint]
  simp [hname, Symbol.ofChar?_char]

namespace Lexeme

theorem ne_nil (hlexeme : Lexeme kind text) : text ≠ [] := by
  cases hlexeme with
  | number hnumeral =>
      obtain ⟨c, rest, htext, _⟩ := Numeral.head_text hnumeral
      rw [htext]
      exact List.cons_ne_nil c rest
  | name _ _ => exact List.cons_ne_nil _ _
  | symbol mark => exact List.cons_ne_nil _ _

theorem ne_eof (hlexeme : Lexeme kind text) : kind ≠ .eof := by
  cases hlexeme <;> simp

/-- A token is scanned as such to its end. -/
theorem scanFront_eq (hlexeme : Lexeme kind text) : scanFront text = (.ok kind, text, []) := by
  cases hlexeme with
  | @number numeral hnumeral =>
      obtain ⟨c, rest, htext, _⟩ := Numeral.head_text hnumeral
      have hscan := Numeral.scan?_text hnumeral
      rw [htext] at hscan
      rw [htext, scanFront_of_numeral hscan, htext]
  | name hc hrest =>
      rw [scanFront_of_isNameStart hc, List.takeWhile_eq_self_iff.mpr hrest,
        List.dropWhile_eq_nil_iff.mpr hrest]
  | symbol mark => exact scanFront_symbol mark []

/-- A text is a token of one kind only. -/
theorem kind_unique (hlexeme : Lexeme kind text) (hother : Lexeme other text) : other = kind := by
  have hsame := hother.scanFront_eq
  rw [hlexeme.scanFront_eq] at hsame
  cases hsame
  rfl

/-- A scan of a text that begins with a token finds one, and none that is shorter. -/
theorem length_le_scanFront (hlexeme : Lexeme kind text) (rest : List Char) :
    (∃ found, (scanFront (text ++ rest)).1 = .ok found) ∧
      text.length ≤ (scanFront (text ++ rest)).2.1.length := by
  cases hlexeme with
  | @number numeral hnumeral =>
      obtain ⟨found, after, hscan, hafter⟩ := Numeral.exists_scan? hnumeral rest
      have hlength := congrArg List.length (Numeral.scan?_append hscan)
      obtain ⟨c, more, htext, _⟩ := Numeral.head_text hnumeral
      rw [htext, List.cons_append] at hscan hlength ⊢
      rw [scanFront_of_numeral hscan]
      refine ⟨⟨_, rfl⟩, ?_⟩
      simp only [List.length_append, List.length_cons] at hlength ⊢
      omega
  | name hc hrest =>
      rw [List.cons_append, scanFront_of_isNameStart hc, List.takeWhile_append_of_pos hrest]
      refine ⟨⟨_, rfl⟩, ?_⟩
      simp
  | symbol mark =>
      rw [List.singleton_append, scanFront_symbol]
      exact ⟨⟨_, rfl⟩, Nat.le_refl 1⟩

end Lexeme

/-- What a scan finds is a token. -/
theorem lexeme_scanFront {c : Char} (hfront : (scanFront (c :: rest)).1 = .ok kind) :
    Lexeme kind (scanFront (c :: rest)).2.1 := by
  cases hscan : Numeral.scan? (c :: rest) with
  | some found =>
      obtain ⟨numeral, after⟩ := found
      rw [scanFront_of_numeral hscan] at hfront ⊢
      cases hfront
      exact .number (Numeral.wellFormed_of_scan? hscan)
  | none =>
      by_cases hname : isNameStart c = true
      · rw [scanFront_of_isNameStart hname] at hfront ⊢
        cases hfront
        exact .name hname fun d hd => List.mem_takeWhile_imp hd
      · cases hsymbol : Symbol.ofChar? c with
        | some mark =>
            simp only [scanFront, hscan, hname, hsymbol, Bool.false_eq_true, ↓reduceIte]
              at hfront ⊢
            cases hfront
            rw [← Symbol.char_of_ofChar? hsymbol]
            exact .symbol mark
        | none => simp [scanFront, hscan, hname, hsymbol] at hfront

/-- Where no token is found, the first character is at fault. -/
theorem scanFront_of_error {c : Char} {cause : SyntaxError.Cause}
    (hfront : (scanFront (c :: rest)).1 = .error cause) :
    scanFront (c :: rest) = (.error (faultOf c), [c], rest) := by
  cases hscan : Numeral.scan? (c :: rest) with
  | some found =>
      rw [scanFront_of_numeral hscan] at hfront
      cases hfront
  | none =>
      by_cases hname : isNameStart c = true
      · rw [scanFront_of_isNameStart hname] at hfront
        cases hfront
      · cases hsymbol : Symbol.ofChar? c with
        | some mark => simp [scanFront, hscan, hname, hsymbol] at hfront
        | none => simp [scanFront, hscan, hname, hsymbol]

/-- A scan finds the longest token. -/
theorem longest_scanFront {c : Char} (hfront : (scanFront (c :: rest)).1 = .ok kind) :
    Longest kind (scanFront (c :: rest)).2.1 (scanFront (c :: rest)).2.2 := by
  refine ⟨lexeme_scanFront hfront, ?_⟩
  rw [scanFront_append]
  rintro other longer hlonger ⟨after, hafter⟩
  rw [← hafter]
  exact (hlonger.length_le_scanFront after).2

/-- The longest token at the front of a text is what a scan finds. -/
theorem Longest.scanFront_eq (hlongest : Longest kind text rest) :
    scanFront (text ++ rest) = (.ok kind, text, rest) := by
  obtain ⟨⟨found, hfound⟩, hlength⟩ := hlongest.lexeme.length_le_scanFront rest
  obtain ⟨c, more, htext⟩ := List.exists_cons_of_ne_nil hlongest.lexeme.ne_nil
  have hsplit := scanFront_append (text ++ rest)
  have hlexeme : Lexeme found (scanFront (text ++ rest)).2.1 := by
    rw [htext, List.cons_append] at hfound ⊢
    exact lexeme_scanFront hfound
  have hle := hlongest.length_le _ _ hlexeme ⟨_, hsplit⟩
  obtain ⟨hsame, hrest⟩ := List.append_inj hsplit (Nat.le_antisymm hle hlength)
  rw [hsame] at hlexeme
  rw [hlongest.lexeme.kind_unique hlexeme] at hfound
  exact Prod.ext hfound (Prod.ext hsame hrest)

/-- A scan fails just where no token stands at the front of the text. -/
theorem scanFront_error_iff {c : Char} :
    scanFront (c :: rest) = (.error (faultOf c), [c], rest) ↔
      ∀ kind text, Lexeme kind text → ¬text <+: c :: rest := by
  constructor
  · rintro hfront kind text hlexeme ⟨after, hafter⟩
    obtain ⟨⟨found, hfound⟩, _⟩ := hlexeme.length_le_scanFront after
    rw [hafter, hfront] at hfound
    cases hfound
  · intro hnone
    cases hfront : (scanFront (c :: rest)).1 with
    | error cause => exact scanFront_of_error hfront
    | ok kind =>
        exact absurd ⟨_, scanFront_append (c :: rest)⟩ (hnone _ _ (lexeme_scanFront hfront))

end Reckon
