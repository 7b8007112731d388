import Mathlib.Data.List.TakeWhile
import Mathlib.Tactic.IntervalCases
import Reckon.Decimal.Reading
import Reckon.Token.Scan

/-
What a scan finds.  The text of a number is a numeral, which as a text of its own is read as the
same number, and the end of the input comes last and only once.
-/

namespace Reckon

namespace Numeral

/-- A letter for the exponent, a sign if there is one, and at least one digit. -/
structure Exponent.WellFormed (exponent : Exponent) : Prop where
  mark : exponent.mark = 'e' ∨ exponent.mark = 'E'
  sign : ∀ c ∈ exponent.sign, c = '+' ∨ c = '-'
  digits : ∀ c ∈ exponent.digits, c.isDigit = true
  digits_ne_nil : exponent.digits ≠ []

/-- Digits with or without a point and digits behind it, or a point with digits behind it; then
an exponent if there is one. -/
structure WellFormed (numeral : Numeral) : Prop where
  whole : ∀ c ∈ numeral.whole, c.isDigit = true
  fraction : ∀ digits ∈ numeral.fraction, ∀ c ∈ digits, c.isDigit = true
  digits_ne_nil : numeral.whole ≠ [] ∨ numeral.fraction.getD [] ≠ []
  exponent : ∀ exponent ∈ numeral.exponent, exponent.WellFormed

variable {text rest digits : List Char} {numeral : Numeral}

theorem isDigit_of_mem_takeWhile {c : Char} (hc : c ∈ text.takeWhile Char.isDigit) :
    c.isDigit = true :=
  List.mem_takeWhile_imp hc

theorem scanSign_sign (text : List Char) : ∀ c ∈ (scanSign text).1, c = '+' ∨ c = '-' := by
  intro c hc
  cases text with
  | nil => cases hc
  | cons first rest =>
      by_cases hfirst : first = '+' ∨ first = '-'
      · simp only [scanSign, hfirst, ↓reduceIte, Option.mem_def, Option.some.injEq] at hc
        exact hc ▸ hfirst
      · simp [scanSign, hfirst] at hc

theorem scanExponent_wellFormed (text : List Char) :
    ∀ exponent ∈ (scanExponent text).1, exponent.WellFormed := by
  intro exponent hexponent
  cases text with
  | nil => cases hexponent
  | cons c rest =>
      by_cases hmark : c = 'e' ∨ c = 'E'
      · by_cases hdigits : (scanSign rest).2.takeWhile Char.isDigit = []
        · simp [scanExponent, hmark, hdigits] at hexponent
        · simp only [scanExponent, hmark, hdigits, ↓reduceIte, Option.mem_def,
            Option.some.injEq] at hexponent
          subst hexponent
          exact ⟨hmark, scanSign_sign rest, fun _ => isDigit_of_mem_takeWhile, hdigits⟩
      · simp [scanExponent, hmark] at hexponent

theorem scanFraction_digits (text : List Char) :
    ∀ digits ∈ (scanFraction text).1, ∀ c ∈ digits, c.isDigit = true := by
  intro digits hdigits
  cases text with
  | nil => cases hdigits
  | cons c rest =>
      by_cases hpoint : c = '.'
      · simp only [scanFraction, hpoint, ↓reduceIte, Option.mem_def, Option.some.injEq]
          at hdigits
        subst hdigits
        intro c
        exact isDigit_of_mem_takeWhile
      · simp [scanFraction, hpoint] at hdigits

/-- What is scanned as a numeral has the form of one. -/
theorem wellFormed_of_scan? (hscan : scan? text = some (numeral, rest)) :
    numeral.WellFormed := by
  simp only [scan?] at hscan
  split at hscan
  · cases hscan
  · rename_i hdigits
    cases hscan
    exact ⟨fun _ => isDigit_of_mem_takeWhile, scanFraction_digits _,
      not_and_or.mp hdigits, scanExponent_wellFormed _⟩

/-- No digit stands at the front. -/
def BeginsNoDigit (text : List Char) : Prop := ∀ c ∈ text.head?, c.isDigit = false

theorem takeWhile_of_beginsNoDigit (hdigits : ∀ c ∈ digits, c.isDigit = true)
    (hrest : BeginsNoDigit rest) : (digits ++ rest).takeWhile Char.isDigit = digits := by
  rw [List.takeWhile_append_of_pos hdigits]
  cases rest with
  | nil => simp
  | cons c rest => simp [hrest c rfl]

theorem dropWhile_of_beginsNoDigit (hdigits : ∀ c ∈ digits, c.isDigit = true)
    (hrest : BeginsNoDigit rest) : (digits ++ rest).dropWhile Char.isDigit = rest := by
  rw [List.dropWhile_append_of_pos hdigits]
  cases rest with
  | nil => rfl
  | cons c rest => simp [hrest c rfl]

/-- What stands at the front does not go on with a numeral. -/
def EndsNumeral (text : List Char) : Prop :=
  ∀ c ∈ text.head?, c.isDigit = false ∧ c ≠ '.' ∧ c ≠ 'e' ∧ c ≠ 'E'

theorem endsNumeral_nil : EndsNumeral [] := by
  intro c hc
  cases hc

theorem beginsNoDigit_exponentText {exponent : Option Exponent}
    (hexponent : ∀ part ∈ exponent, part.WellFormed) (hrest : EndsNumeral rest) :
    BeginsNoDigit (exponentText exponent ++ rest) := by
  cases exponent with
  | none => exact fun c hc => (hrest c hc).1
  | some part =>
      intro c hc
      cases hc
      rcases (hexponent part rfl).mark with hmark | hmark <;> rw [hmark] <;> decide

theorem head?_exponentText {exponent : Option Exponent}
    (hexponent : ∀ part ∈ exponent, part.WellFormed) (hrest : EndsNumeral rest) :
    (exponentText exponent ++ rest).head? ≠ some '.' := by
  cases exponent with
  | none => exact fun hpoint => (hrest '.' hpoint).2.1 rfl
  | some part =>
      rcases (hexponent part rfl).mark with hmark | hmark <;>
        simp [exponentText, Exponent.text, hmark]

theorem beginsNoDigit_fractionText {fraction : Option (List Char)} (hrest : BeginsNoDigit rest) :
    BeginsNoDigit (fractionText fraction ++ rest) := by
  cases fraction with
  | none => exact hrest
  | some digits =>
      intro c hc
      cases hc
      decide

theorem scanSign_of_digits {sign : Option Char} (hsign : ∀ c ∈ sign, c = '+' ∨ c = '-')
    (hdigits : ∀ c ∈ digits, c.isDigit = true) (hnil : digits ≠ []) :
    scanSign (sign.toList ++ (digits ++ rest)) = (sign, digits ++ rest) := by
  cases sign with
  | some c => simp [scanSign, hsign c rfl]
  | none =>
      obtain ⟨c, more, rfl⟩ := List.exists_cons_of_ne_nil hnil
      have hc : ¬(c = '+' ∨ c = '-') := by
        have hdigit := hdigits c List.mem_cons_self
        rintro (rfl | rfl) <;> revert hdigit <;> decide
      simp [scanSign, hc]

theorem scanExponent_exponentText {exponent : Option Exponent}
    (hexponent : ∀ part ∈ exponent, part.WellFormed) (hrest : EndsNumeral rest) :
    scanExponent (exponentText exponent ++ rest) = (exponent, rest) := by
  cases exponent with
  | none =>
      cases rest with
      | nil => rfl
      | cons c rest =>
          obtain ⟨-, -, hlower, hupper⟩ := hrest c rfl
          simp [exponentText, scanExponent, hlower, hupper]
  | some part =>
      obtain ⟨hmark, hsign, hdigits, hnil⟩ := hexponent part rfl
      have hbehind : BeginsNoDigit rest := fun c hc => (hrest c hc).1
      simp only [exponentText, Exponent.text, List.cons_append, List.append_assoc, scanExponent,
        hmark, ↓reduceIte, scanSign_of_digits hsign hdigits hnil,
        takeWhile_of_beginsNoDigit hdigits hbehind, dropWhile_of_beginsNoDigit hdigits hbehind,
        hnil]

theorem scanFraction_fractionText {fraction : Option (List Char)}
    (hfraction : ∀ digits ∈ fraction, ∀ c ∈ digits, c.isDigit = true)
    (hrest : BeginsNoDigit rest) (hpoint : rest.head? ≠ some '.') :
    scanFraction (fractionText fraction ++ rest) = (fraction, rest) := by
  cases fraction with
  | none =>
      cases rest with
      | nil => rfl
      | cons c more =>
          have hc : c ≠ '.' := fun heq => hpoint (by rw [heq]; rfl)
          simp [fractionText, scanFraction, hc]
  | some digits =>
      simp [fractionText, scanFraction, takeWhile_of_beginsNoDigit (hfraction digits rfl) hrest,
        dropWhile_of_beginsNoDigit (hfraction digits rfl) hrest]

/-- The text of a numeral is scanned as this numeral if nothing behind it goes on with it. -/
theorem scan?_text_append (hnumeral : numeral.WellFormed) (hrest : EndsNumeral rest) :
    scan? (numeral.text ++ rest) = some (numeral, rest) := by
  obtain ⟨hwhole, hfraction, hdigits, hexponent⟩ := hnumeral
  have hbehind := beginsNoDigit_exponentText hexponent hrest
  have hpoint := head?_exponentText hexponent hrest
  have hbeyond : BeginsNoDigit
      (fractionText numeral.fraction ++ (exponentText numeral.exponent ++ rest)) :=
    beginsNoDigit_fractionText hbehind
  simp only [scan?, text, List.append_assoc, takeWhile_of_beginsNoDigit hwhole hbeyond,
    dropWhile_of_beginsNoDigit hwhole hbeyond, scanFraction_fractionText hfraction hbehind hpoint,
    scanExponent_exponentText hexponent hrest]
  rw [if_neg (not_and_or.mpr hdigits)]

/-- The text of a numeral is scanned as this numeral to its end. -/
theorem scan?_text (hnumeral : numeral.WellFormed) : scan? numeral.text = some (numeral, []) := by
  simpa using scan?_text_append hnumeral endsNumeral_nil

/-- The characters of numerals. -/
def chars : List Char :=
  ['0', '1', '2', '3', '4', '5', '6', '7', '8', '9', '.', 'e', 'E', '+', '-']

theorem mem_chars_of_isDigit {c : Char} (hc : c.isDigit = true) : c ∈ chars := by
  have hbounds : 48 ≤ c.toNat ∧ c.toNat ≤ 57 := by
    simpa [Char.isDigit, UInt32.le_iff_toNat_le] using hc
  have hchar : Char.ofNat c.toNat ∈ chars := by
    obtain ⟨hlow, hhigh⟩ := hbounds
    interval_cases c.toNat <;> decide
  rwa [Char.ofNat_toNat] at hchar

theorem mem_chars_of_exponentText {exponent : Option Exponent}
    (hexponent : ∀ part ∈ exponent, part.WellFormed) {c : Char}
    (hc : c ∈ exponentText exponent) : c ∈ chars := by
  cases exponent with
  | none => cases hc
  | some part =>
      obtain ⟨hmark, hsign, hdigits, _⟩ := hexponent part rfl
      simp only [exponentText, Exponent.text, List.mem_cons, List.mem_append,
        Option.mem_toList, List.cons_append] at hc
      rcases hc with rfl | hc | hc
      · rcases hmark with hmark | hmark <;> rw [hmark] <;> decide
      · rcases hsign c hc with rfl | rfl <;> decide
      · exact mem_chars_of_isDigit (hdigits c hc)

theorem mem_chars_of_mem_text (hnumeral : numeral.WellFormed) {c : Char}
    (hc : c ∈ numeral.text) : c ∈ chars := by
  obtain ⟨hwhole, hfraction, _, hexponent⟩ := hnumeral
  simp only [text, List.mem_append, or_assoc] at hc
  rcases hc with hc | hc | hc
  · exact mem_chars_of_isDigit (hwhole c hc)
  · cases hpart : numeral.fraction with
    | none => simp [hpart, fractionText] at hc
    | some digits =>
        simp only [hpart, fractionText, List.mem_cons] at hc
        rcases hc with rfl | hc
        · decide
        · exact mem_chars_of_isDigit (hfraction digits hpart c hc)
  · exact mem_chars_of_exponentText hexponent hc

/-- A numeral begins with a digit or with its point. -/
theorem head_text (hnumeral : numeral.WellFormed) :
    ∃ c rest, numeral.text = c :: rest ∧ (c.isDigit = true ∨ c = '.') := by
  obtain ⟨hwhole, hfraction, hdigits, _⟩ := hnumeral
  cases hfront : numeral.whole with
  | cons c rest =>
      exact ⟨c, _, by simp only [text, hfront]; rfl,
        .inl (hwhole c (by rw [hfront]; exact List.mem_cons_self))⟩
  | nil =>
      cases hpart : numeral.fraction with
      | none => simp [hfront, hpart] at hdigits
      | some digits =>
          exact ⟨'.', _, by simp only [text, hfront, hpart]; rfl, .inr rfl⟩

end Numeral

theorem trimEnds_of_forall {test : Char → Bool} {text : List Char}
    (htext : ∀ c ∈ text, test c = false) : trimEnds test text = text := by
  have hdrop : ∀ {line : List Char}, (∀ c ∈ line, test c = false) →
      line.dropWhile test = line := by
    intro line hline
    cases line with
    | nil => rfl
    | cons c rest => simp [hline c List.mem_cons_self]
  have hreverse : ∀ c ∈ text.reverse, test c = false := fun c hc =>
    htext c (List.mem_reverse.mp hc)
  rw [trimEnds, hdrop htext, hdrop hreverse, List.reverse_reverse]

theorem dropUnderscores?_of_not_mem {text : List Char} (htext : '_' ∉ text)
    (behindDigit : Bool) : dropUnderscores? behindDigit text = some text := by
  induction text generalizing behindDigit with
  | nil => rfl
  | cons c rest ih =>
      simp only [List.mem_cons, not_or] at htext
      have hc : c ≠ '_' := fun heq => htext.1 heq.symm
      simp [dropUnderscores?, hc, ih htext.2]

/-- What a check of the list shows of its items.  Deciding it without the list would go through all
characters there are. -/
theorem forall_of_all {α : Type} {items : List α} {p : α → Prop} [DecidablePred p]
    (hall : items.all (fun item => decide (p item)) = true) : ∀ item ∈ items, p item := by
  intro item hitem
  exact of_decide_eq_true (List.all_eq_true.mp hall item hitem)

/-- The words for infinity and for what is not a number begin with letters. -/
theorem readMagnitude?_of_scan? {c : Char} {rest : List Char} {numeral : Numeral}
    (hc : c ∈ Numeral.chars) (hscan : Numeral.scan? (c :: rest) = some (numeral, [])) :
    readMagnitude? (c :: rest) = some numeral.value := by
  have hhead : ∀ c ∈ Numeral.chars, c.toLower ≠ 'i' ∧ c.toLower ≠ 'n' :=
    forall_of_all (by decide)
  have hword : ∀ word : String, word.toList.head? = some 'i' ∨ word.toList.head? = some 'n' →
      String.ofList ((c :: rest).map Char.toLower) ≠ word := by
    rintro word hword rfl
    simp only [List.map_cons, String.toList_ofList, List.head?_cons, Option.some.injEq] at hword
    exact hword.elim (hhead c hc).1 (hhead c hc).2
  have hinfinity : ¬(String.ofList ((c :: rest).map Char.toLower) = "inf" ∨
      String.ofList ((c :: rest).map Char.toLower) = "infinity") :=
    not_or.mpr ⟨hword "inf" (.inl rfl), hword "infinity" (.inl rfl)⟩
  simp only [readMagnitude?, hinfinity, hword "nan" (.inr rfl), ↓reduceIte, hscan]

/-- The text of a numeral is read as its value. -/
theorem readNumber?_text {numeral : Numeral} (hnumeral : numeral.WellFormed) :
    readNumber? (String.ofList numeral.text) = some numeral.value := by
  have hplain : ∀ c ∈ Numeral.chars, isPadding c = false ∧ asciiDigit c = c ∧ '_' ≠ c :=
    forall_of_all (by decide)
  have hchars : ∀ c ∈ numeral.text, c ∈ Numeral.chars := fun c hc =>
    Numeral.mem_chars_of_mem_text hnumeral hc
  have htrim : trimEnds isPadding numeral.text = numeral.text :=
    trimEnds_of_forall fun c hc => (hplain c (hchars c hc)).1
  have hascii : numeral.text.map asciiDigit = numeral.text :=
    List.map_congr_left (fun c hc => (hplain c (hchars c hc)).2.1) |>.trans (List.map_id _)
  have hscore : '_' ∉ numeral.text := fun hc => (hplain _ (hchars _ hc)).2.2 rfl
  obtain ⟨c, rest, htext, hc⟩ := Numeral.head_text hnumeral
  have hsign : Numeral.scanSign numeral.text = (none, numeral.text) := by
    have hnone : ¬(c = '+' ∨ c = '-') := by
      rintro (rfl | rfl) <;> revert hc <;> decide
    simp [htext, Numeral.scanSign, hnone]
  have hmagnitude : readMagnitude? numeral.text = some numeral.value := by
    have hscan := Numeral.scan?_text hnumeral
    rw [htext] at hscan
    rw [htext]
    exact readMagnitude?_of_scan? (hchars c (htext ▸ List.mem_cons_self)) hscan
  simp [readNumber?, htrim, hascii, dropUnderscores?_of_not_mem hscore, hsign, hmagnitude]

theorem scanFront_number {text : List Char} {value : Float}
    (hfront : (scanFront text).1 = .ok (.number value)) :
    ∃ numeral : Numeral, numeral.WellFormed ∧ (scanFront text).2.1 = numeral.text ∧
      numeral.value = value := by
  cases text with
  | nil => cases hfront
  | cons c rest =>
      cases hscan : Numeral.scan? (c :: rest) with
      | some found =>
          obtain ⟨numeral, after⟩ := found
          simp only [scanFront, hscan, Except.ok.injEq, Token.Kind.number.injEq] at hfront ⊢
          exact ⟨numeral, Numeral.wellFormed_of_scan? hscan, rfl, hfront⟩
      | none =>
          by_cases hname : isNameStart c = true
          · simp [scanFront, hscan, hname] at hfront
          · cases hsymbol : Symbol.ofChar? c <;>
              simp [scanFront, hscan, hname, hsymbol] at hfront

namespace Cursor

variable {cursor : Cursor} {token : Token}

theorem scan_eq_ok (htoken : cursor.scan.1 = .ok token) :
    (scanFront cursor.skipBlanks.rest).1 = .ok token.kind ∧
      token.lexeme = String.ofList (scanFront cursor.skipBlanks.rest).2.1 := by
  unfold scan at htoken
  dsimp only at htoken
  split at htoken
  · rename_i kind hkind
    cases htoken
    exact ⟨hkind, rfl⟩
  · cases htoken

theorem run_of_error {error : SyntaxError} (hscan : cursor.scan.1 = .error error) :
    cursor.run = ⟨[], some error, cursor.scan.2⟩ := by
  rw [run]
  split
  · rename_i other hother
    rw [hscan] at hother
    cases hother
    rfl
  · rename_i hother
    rw [hscan] at hother
    cases hother

theorem run_of_eof (hscan : cursor.scan.1 = .ok token) (hkind : token.kind = .eof) :
    cursor.run = ⟨[token], none, cursor.scan.2⟩ := by
  rw [run]
  split
  · rename_i hother
    rw [hscan] at hother
    cases hother
  · rename_i other hother
    rw [hscan] at hother
    cases hother
    rw [dif_pos hkind]

theorem run_of_token (hscan : cursor.scan.1 = .ok token) (hkind : token.kind ≠ .eof) :
    cursor.run = ⟨token :: cursor.scan.2.run.tokens, cursor.scan.2.run.error,
      cursor.scan.2.run.cursor⟩ := by
  rw [run]
  split
  · rename_i hother
    rw [hscan] at hother
    cases hother
  · rename_i other hother
    rw [hscan] at hother
    cases hother
    rw [dif_neg hkind]

/-- All tokens of a run are scanned by cursors. -/
theorem exists_scan_of_mem_run (htoken : token ∈ cursor.run.tokens) :
    ∃ there : Cursor, there.scan.1 = .ok token := by
  induction cursor using Cursor.run.induct with
  | case1 cursor error hscan =>
      rw [run_of_error hscan] at htoken
      cases htoken
  | case2 cursor last hscan hkind =>
      rw [run_of_eof hscan hkind, List.mem_singleton] at htoken
      exact ⟨cursor, htoken ▸ hscan⟩
  | case3 cursor first hscan hkind _ ih =>
      rw [run_of_token hscan hkind, List.mem_cons] at htoken
      rcases htoken with rfl | htoken
      · exact ⟨cursor, hscan⟩
      · exact ih htoken

/-- A run without an error ends with the end of the input. -/
theorem run_eof (hrun : cursor.run.error = none) :
    ∃ body eof, cursor.run.tokens = body ++ [eof] ∧ eof.kind = .eof ∧
      ∀ token ∈ body, token.kind ≠ .eof := by
  induction cursor using Cursor.run.induct with
  | case1 cursor error hscan =>
      rw [run_of_error hscan] at hrun
      cases hrun
  | case2 cursor last hscan hkind =>
      rw [run_of_eof hscan hkind]
      exact ⟨[], last, rfl, hkind, fun _ hmem => absurd hmem List.not_mem_nil⟩
  | case3 cursor first hscan hkind _ ih =>
      rw [run_of_token hscan hkind] at hrun ⊢
      obtain ⟨body, eof, htokens, heof, hbody⟩ := ih hrun
      refine ⟨first :: body, eof, by simp [htokens], heof, ?_⟩
      intro token htoken
      rcases List.mem_cons.mp htoken with rfl | htoken
      · exact hkind
      · exact hbody token htoken

end Cursor

/-- The lexeme of every scanned number is a numeral and is read as the value of the number. -/
theorem scanTokens_number {source : String} {token : Token} {value : Float}
    (htoken : token ∈ (scanTokens source).1) (hkind : token.kind = .number value) :
    ∃ numeral : Numeral, numeral.WellFormed ∧ token.lexeme = String.ofList numeral.text ∧
      readNumber? token.lexeme = some value := by
  obtain ⟨there, hscan⟩ := Cursor.exists_scan_of_mem_run htoken
  obtain ⟨hfront, hlexeme⟩ := Cursor.scan_eq_ok hscan
  rw [hkind] at hfront
  obtain ⟨numeral, hnumeral, htext, rfl⟩ := scanFront_number hfront
  rw [htext] at hlexeme
  exact ⟨numeral, hnumeral, hlexeme, hlexeme ▸ readNumber?_text hnumeral⟩

/-- The end of the input stands behind all other tokens. -/
theorem tokenize_eof {source : String} {tokens : List Token}
    (htokens : tokenize source = .ok tokens) :
    ∃ body eof, tokens = body ++ [eof] ∧ eof.kind = .eof ∧
      ∀ token ∈ body, token.kind ≠ .eof := by
  have hrun : (Cursor.ofSource source).run.error = none ∧
      (Cursor.ofSource source).run.tokens = tokens := by
    cases herror : (Cursor.ofSource source).run.error with
    | none => simpa [tokenize, scanTokens, herror] using htokens
    | some error => simp [tokenize, scanTokens, herror] at htokens
  obtain ⟨herror, rfl⟩ := hrun
  exact Cursor.run_eof herror

end Reckon
