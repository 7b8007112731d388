import Reckon.Proofs.Token.Lexeme
import Reckon.Proofs.Token.Position

/-
Tokens by longest match.  A text is taken apart from its front: blanks are passed over, and what
stands there otherwise is the longest token.  This ends at the end of the text or where no token
stands; there the first character is at fault.
-/

namespace Reckon

variable {source : String} {tokens : List Token} {passed text rest : List Char}
  {kind : Token.Kind} {c : Char}

/-- The tokens of a source found up to a place, with the text in front of the place and the text
behind it. -/
inductive Scanned (source : String) : List Token → List Char → List Char → Prop
  | start : Scanned source [] [] source.toList
  | blank {tokens : List Token} {passed rest : List Char} {c : Char}
      (hscanned : Scanned source tokens passed (c :: rest)) (hc : isBlank c = true) :
      Scanned source tokens (passed ++ [c]) rest
  | token {tokens : List Token} {passed text rest : List Char} {kind : Token.Kind}
      (hscanned : Scanned source tokens passed (text ++ rest))
      (hfront : ∀ c ∈ (text ++ rest).head?, isBlank c = false) (hlongest : Longest kind text rest) :
      Scanned source
        (tokens ++ [⟨kind, String.ofList text,
          ⟨Location.origin.after passed, Location.origin.after (passed ++ text)⟩⟩])
        (passed ++ text) rest

/-- No token stands at the front of the text. -/
def NoToken (text : List Char) : Prop := ∀ kind front, Lexeme kind front → ¬front <+: text

namespace Cursor

theorem skipBlanks_blank (hc : isBlank c = true) (passed rest : List Char) :
    (behind passed (c :: rest)).skipBlanks = (behind (passed ++ [c]) rest).skipBlanks := by
  simp [skipBlanks, behind, pass, hc]

theorem skipBlanks_of_front (hfront : ∀ c ∈ rest.head?, isBlank c = false)
    (passed : List Char) : (behind passed rest).skipBlanks = behind passed rest := by
  cases rest with
  | nil => rfl
  | cons c rest => simp [skipBlanks, behind, pass, hfront c rfl]

theorem scan_blank (hc : isBlank c = true) (passed rest : List Char) :
    (behind passed (c :: rest)).scan = (behind (passed ++ [c]) rest).scan := by
  rw [scan, scan, skipBlanks_blank hc]

theorem scan_token (hfront : ∀ c ∈ (text ++ rest).head?, isBlank c = false)
    (hlongest : Longest kind text rest) (passed : List Char) :
    (behind passed (text ++ rest)).scan =
      (.ok ⟨kind, String.ofList text,
        ⟨Location.origin.after passed, Location.origin.after (passed ++ text)⟩⟩,
        behind (passed ++ text) rest) := by
  have hskip := skipBlanks_of_front hfront passed
  have hscan : scanFront (behind passed (text ++ rest)).rest = (.ok kind, text, rest) :=
    hlongest.scanFront_eq
  simp only [scan, hskip, hscan, pass_behind]
  rw [token, Location.after_append]
  rfl

theorem scan_eof (passed : List Char) :
    (behind passed []).scan =
      (.ok ⟨.eof, "", ⟨Location.origin.after passed, Location.origin.after passed⟩⟩,
        behind passed []) :=
  rfl

theorem scan_fault (hc : isBlank c = false) (hnone : NoToken (c :: rest))
    (passed : List Char) :
    (behind passed (c :: rest)).scan =
      (.error ⟨faultOf c,
        ⟨Location.origin.after passed, Location.origin.after (passed ++ [c])⟩, none⟩,
        behind (passed ++ [c]) rest) := by
  have hfront : ∀ other ∈ (c :: rest).head?, isBlank other = false := by simpa using hc
  have hskip := skipBlanks_of_front hfront passed
  have hscan : scanFront (behind passed (c :: rest)).rest = (.error (faultOf c), [c], rest) :=
    scanFront_error_iff.mpr hnone
  simp only [scan, hskip, hscan, pass_behind]
  rfl

/-- A run depends on nothing but its first scan. -/
theorem run_congr {cursor other : Cursor} (hscan : cursor.scan = other.scan) :
    cursor.run = other.run := by
  cases hfirst : other.scan.1 with
  | error error => rw [run_of_error hfirst, run_of_error (hscan ▸ hfirst), hscan]
  | ok token =>
      by_cases hkind : token.kind = .eof
      · rw [run_of_eof hfirst hkind, run_of_eof (hscan ▸ hfirst) hkind, hscan]
      · rw [run_of_token hfirst hkind, run_of_token (hscan ▸ hfirst) hkind, hscan]

end Cursor

namespace Scanned

theorem append_eq (hscanned : Scanned source tokens passed rest) :
    passed ++ rest = source.toList := by
  induction hscanned with
  | start => rfl
  | blank _ _ ih => simpa using ih
  | token _ _ _ ih => simpa using ih

/-- What a source is taken apart into are tokens. -/
theorem lexeme_of_mem (hscanned : Scanned source tokens passed rest) :
    ∀ token ∈ tokens, Lexeme token.kind token.lexeme.toList := by
  induction hscanned with
  | start => simp
  | blank _ _ ih => exact ih
  | token _ _ hlongest ih =>
      intro token htoken
      rcases List.mem_append.mp htoken with htoken | htoken
      · exact ih token htoken
      · rw [List.mem_singleton.mp htoken, String.toList_ofList]
        exact hlongest.lexeme

/-- Every character passed is a blank or stands in a token. -/
theorem blank_or_lexeme (hscanned : Scanned source tokens passed rest) :
    ∀ c ∈ passed, isBlank c = true ∨ ∃ kind text, Lexeme kind text ∧ c ∈ text := by
  induction hscanned with
  | start => simp
  | blank _ hblank ih =>
      intro c hc
      rcases List.mem_append.mp hc with hc | hc
      · exact ih c hc
      · rw [List.mem_singleton.mp hc]
        exact .inl hblank
  | token _ _ hlongest ih =>
      intro c hc
      rcases List.mem_append.mp hc with hc | hc
      · exact ih c hc
      · exact .inr ⟨_, _, hlongest.lexeme, hc⟩

/-- A run of the whole source finds these tokens and then what a run finds behind them. -/
theorem run_eq (hscanned : Scanned source tokens passed rest) :
    (Cursor.ofSource source).run.tokens = tokens ++ (Cursor.behind passed rest).run.tokens ∧
      (Cursor.ofSource source).run.error = (Cursor.behind passed rest).run.error := by
  induction hscanned with
  | start => exact ⟨rfl, rfl⟩
  | @blank tokens passed rest c _ hc ih =>
      rw [Cursor.run_congr (Cursor.scan_blank hc passed rest)] at ih
      exact ih
  | @token tokens passed text rest kind _ hfront hlongest ih =>
      have hscan := Cursor.scan_token hfront hlongest passed
      rw [Cursor.run_of_token (congrArg Prod.fst hscan) hlongest.lexeme.ne_eof, hscan] at ih
      simpa using ih

/-- From every place the end of the source is reached, or a place where no token stands. -/
theorem exists_end (hscanned : Scanned source tokens passed rest) :
    (∃ more, Scanned source more source.toList []) ∨
      ∃ more before c after, Scanned source more before (c :: after) ∧ isBlank c = false ∧
        NoToken (c :: after) := by
  -- A blank and a token both leave less to take apart.
  induction hlength : rest.length using Nat.strong_induction_on generalizing tokens passed rest with
  | h length ih =>
      cases rest with
      | nil =>
          have hpassed := hscanned.append_eq
          rw [List.append_nil] at hpassed
          exact .inl ⟨tokens, hpassed ▸ hscanned⟩
      | cons c rest =>
          subst hlength
          cases hc : isBlank c with
          | true => exact ih _ (Nat.lt_succ_self _) (hscanned.blank hc) rfl
          | false =>
              cases hfront : (scanFront (c :: rest)).1 with
              | error cause =>
                  exact .inr ⟨tokens, passed, c, rest, hscanned, hc,
                    scanFront_error_iff.mp (scanFront_of_error hfront)⟩
              | ok kind =>
                  have hsplit := scanFront_append (c :: rest)
                  have hhead : ∀ other ∈ (c :: rest).head?, isBlank other = false := by
                    simpa using hc
                  rw [← hsplit] at hscanned hhead
                  exact ih _ (scanFront_rest_length c rest)
                    (hscanned.token hhead (longest_scanFront hfront)) rfl

end Scanned

theorem tokenize_eq_run (source : String) :
    tokenize source = match (Cursor.ofSource source).run.error with
      | none => .ok (Cursor.ofSource source).run.tokens
      | some error => .error (error.within source) := by
  rw [tokenize, scanTokens]
  cases (Cursor.ofSource source).run.error <;> rfl

/-- The token at the end of a source. -/
def endToken (source : String) : Token :=
  ⟨.eof, "", ⟨Location.origin.after source.toList, Location.origin.after source.toList⟩⟩

/-- The error of a character that begins no token, behind the text that has been passed. -/
def strayError (source : String) (passed : List Char) (c : Char) : SyntaxError :=
  ⟨if c ∈ foreignOperators then .unknownOperator c else .unexpectedCharacter c,
    ⟨Location.origin.after passed, Location.origin.after (passed ++ [c])⟩,
    lineAt? source (Location.origin.after passed).line⟩

theorem Scanned.tokenize_of_end (hscanned : Scanned source tokens source.toList []) :
    tokenize source = .ok (tokens ++ [endToken source]) := by
  obtain ⟨htokens, herror⟩ := hscanned.run_eq
  rw [Cursor.run_of_eof (congrArg Prod.fst (Cursor.scan_eof _)) rfl] at htokens herror
  rw [tokenize_eq_run, herror, htokens]
  rfl

theorem Scanned.tokenize_of_fault (hscanned : Scanned source tokens passed (c :: rest))
    (hc : isBlank c = false) (hnone : NoToken (c :: rest)) :
    tokenize source = .error (strayError source passed c) := by
  obtain ⟨_, herror⟩ := hscanned.run_eq
  rw [Cursor.run_of_error (congrArg Prod.fst (Cursor.scan_fault hc hnone passed))] at herror
  rw [tokenize_eq_run, herror]
  rfl

/-- A source that has tokens is taken apart to its end. -/
theorem exists_scanned_of_tokenize {all : List Token} (hall : tokenize source = .ok all) :
    ∃ tokens, Scanned source tokens source.toList [] ∧ all = tokens ++ [endToken source] := by
  have hstart : Scanned source [] [] source.toList := .start
  rcases hstart.exists_end with
    ⟨tokens, hscanned⟩ | ⟨tokens, passed, c, rest, hscanned, hc, hnone⟩
  · rw [hscanned.tokenize_of_end] at hall
    exact ⟨tokens, hscanned, (Except.ok.inj hall).symm⟩
  · rw [hscanned.tokenize_of_fault hc hnone] at hall
    cases hall

theorem not_mem_of_lexeme (hlexeme : Lexeme kind text) : '\x00' ∉ text := by
  cases hlexeme with
  | number hnumeral => exact hnumeral.text_plain.2.2
  | name hc hrest =>
      intro hmem
      rcases List.mem_cons.mp hmem with rfl | hmem
      · exact absurd hc (by decide)
      · exact absurd (hrest _ hmem) (by decide)
  | symbol mark => cases mark <;> decide

/-- A text is taken apart by longest match.  It has tokens if and only if its end is reached, and
then one end of the input stands behind them.  Otherwise a place is reached where no token stands,
and the character there is the error.  Numbers end with a digit or their point and have one point
at most, and a null character belongs to no token and is not the end. -/
theorem tokenize_longest (source : String) :
    (∀ all, tokenize source = .ok all ↔
      ∃ tokens, Scanned source tokens source.toList [] ∧ all = tokens ++ [endToken source]) ∧
    (∀ error, tokenize source = .error error ↔
      ∃ tokens passed c rest, Scanned source tokens passed (c :: rest) ∧ isBlank c = false ∧
        NoToken (c :: rest) ∧ error = strayError source passed c) ∧
    (∀ tokens passed rest, Scanned source tokens passed rest →
      passed ++ rest = source.toList ∧ (Location.origin.after passed).offset = passed.length ∧
        ∀ token ∈ tokens, token.kind ≠ .eof ∧ ∀ value, token.kind = .number value →
          (∀ c ∈ token.lexeme.toList.getLast?, c.isDigit = true ∨ c = '.') ∧
            token.lexeme.toList.count '.' ≤ 1 ∧ '\x00' ∉ token.lexeme.toList) ∧
    ('\x00' ∈ source.toList → ∃ error, tokenize source = .error error) := by
  have hend : (∃ tokens, Scanned source tokens source.toList []) ∨
      ∃ tokens passed c rest, Scanned source tokens passed (c :: rest) ∧ isBlank c = false ∧
        NoToken (c :: rest) := Scanned.start.exists_end
  refine ⟨?_, ?_, ?_, ?_⟩
  · intro all
    constructor
    · intro hall
      rcases hend with ⟨tokens, hscanned⟩ | ⟨tokens, passed, c, rest, hscanned, hc, hnone⟩
      · rw [hscanned.tokenize_of_end] at hall
        exact ⟨tokens, hscanned, (Except.ok.inj hall).symm⟩
      · rw [hscanned.tokenize_of_fault hc hnone] at hall
        cases hall
    · rintro ⟨tokens, hscanned, rfl⟩
      exact hscanned.tokenize_of_end
  · intro error
    constructor
    · intro herror
      rcases hend with ⟨tokens, hscanned⟩ | ⟨tokens, passed, c, rest, hscanned, hc, hnone⟩
      · rw [hscanned.tokenize_of_end] at herror
        cases herror
      · rw [hscanned.tokenize_of_fault hc hnone] at herror
        exact ⟨tokens, passed, c, rest, hscanned, hc, hnone, (Except.error.inj herror).symm⟩
    · rintro ⟨tokens, passed, c, rest, hscanned, hc, hnone, rfl⟩
      exact hscanned.tokenize_of_fault hc hnone
  · intro tokens passed rest hscanned
    refine ⟨hscanned.append_eq, Location.origin_after_offset passed, ?_⟩
    intro token htoken
    have hlexeme := hscanned.lexeme_of_mem token htoken
    refine ⟨hlexeme.ne_eof, ?_⟩
    intro value hvalue
    rw [hvalue] at hlexeme
    generalize htext : token.lexeme.toList = text at hlexeme
    cases hlexeme with
    | number hnumeral => exact hnumeral.text_plain
  · intro hnull
    rcases hend with ⟨tokens, hscanned⟩ | ⟨tokens, passed, c, rest, hscanned, hc, hnone⟩
    · rcases hscanned.blank_or_lexeme _ hnull with hblank | ⟨kind, text, hlexeme, hmem⟩
      · exact absurd hblank (by decide)
      · exact absurd hmem (not_mem_of_lexeme hlexeme)
    · exact ⟨_, hscanned.tokenize_of_fault hc hnone⟩

end Reckon
