import Reckon.Proofs.Expr.Blame
import Reckon.Proofs.Expr.Parse
import Reckon.Proofs.Token.Tiling

/-
Where the error of a text stands.  The reader and the parser point to a piece of the text, with the
text that has been passed in front of it; only where an operand is missing at the end is the piece
empty.
-/

namespace Reckon

section

variable {source : String} {tokens : List Token} {token : Token} {error : SyntaxError}
  {passed text rest : List Char}

/-- The span goes over this text of the source. -/
structure Span.Cuts (source : String) (span : Span) (passed text rest : List Char) : Prop where
  source_eq : passed ++ (text ++ rest) = source.toList
  span_eq : span = ⟨Location.origin.after passed, Location.origin.after (passed ++ text)⟩
  not_blank : ∀ c ∈ text, isBlank c = false

/-- The error stands at this text, which is empty only where the input ends too early, and comes
with the line that its line number refers to. -/
structure SyntaxError.Cuts (source : String) (error : SyntaxError)
    (passed text rest : List Char) : Prop where
  span : error.span.Cuts source passed text rest
  line_eq : error.sourceLine = lineAt? source error.span.start.line
  at_end : text = [] → rest = [] ∧ error.cause = .unexpectedEnd .operand

theorem extract_middle (first second third : List Char) :
    (first ++ (second ++ third)).extract first.length (first.length + second.length) = second := by
  rw [List.extract_eq_take_drop, List.drop_left, Nat.add_sub_cancel_left, List.take_left]

namespace SyntaxError.Cuts

theorem start_offset (hcuts : error.Cuts source passed text rest) :
    error.span.start.offset = passed.length := by
  rw [hcuts.span.span_eq]
  exact Location.origin_after_offset passed

theorem stop_offset (hcuts : error.Cuts source passed text rest) :
    error.span.stop.offset = passed.length + text.length := by
  rw [hcuts.span.span_eq]
  exact (Location.origin_after_offset _).trans List.length_append

theorem take_start (hcuts : error.Cuts source passed text rest) :
    source.toList.take error.span.start.offset = passed := by
  rw [hcuts.start_offset, ← hcuts.span.source_eq, List.take_left]

theorem extract_eq (hcuts : error.Cuts source passed text rest) :
    source.toList.extract error.span.start.offset error.span.stop.offset = text := by
  rw [hcuts.start_offset, hcuts.stop_offset, ← hcuts.span.source_eq, extract_middle]

theorem newline_not_mem (hcuts : error.Cuts source passed text rest) : '\n' ∉ text := by
  intro hmem
  have hblank := hcuts.span.not_blank _ hmem
  revert hblank
  decide

end SyntaxError.Cuts

/-- Every token of a source stands somewhere in it. -/
theorem Scanned.exists_cuts (hscanned : Scanned source tokens passed rest) :
    ∀ token ∈ tokens, ∃ front text back, token.span.Cuts source front text back ∧ text ≠ [] := by
  induction hscanned with
  | start => simp
  | blank _ _ ih => exact ih
  | @token tokens passed text rest kind hscanned _ hlongest ih =>
      intro token htoken
      rcases List.mem_append.mp htoken with htoken | htoken
      · exact ih token htoken
      · rw [List.mem_singleton.mp htoken]
        exact ⟨passed, text, rest, ⟨hscanned.append_eq, rfl, hlongest.lexeme.isBlank_of_mem⟩,
          hlongest.lexeme.ne_nil⟩

theorem endToken_cuts (source : String) : (endToken source).span.Cuts source source.toList [] [] :=
  ⟨by simp, by simp [endToken], by simp⟩

theorem exists_cuts_of_tokenize (herror : tokenize source = .error error) :
    ∃ passed text rest, error.Cuts source passed text rest := by
  have hstart : Scanned source [] [] source.toList := .start
  rcases hstart.exists_end with
    ⟨tokens, hscanned⟩ | ⟨tokens, passed, c, rest, hscanned, hc, hnone⟩
  · rw [hscanned.tokenize_of_end] at herror
    cases herror
  · rw [hscanned.tokenize_of_fault hc hnone] at herror
    cases herror
    exact ⟨passed, [c], rest, ⟨hscanned.append_eq, rfl, by simpa using hc⟩, rfl, by simp⟩

/-- An error is reported with the line of the source at its place. -/
theorem sourceLine_of_parseTokens
    (hparse : parseTokens tokens (some source) = .error (.rejected error)) :
    error.sourceLine = lineAt? source error.span.start.line := by
  rw [parseTokens] at hparse
  cases hrun : ReadState.run tokens.toArray (passLimit tokens.toArray) ReadState.start with
  | none =>
      rw [hrun] at hparse
      cases hparse
  | some result =>
      rw [hrun] at hparse
      cases result with
      | error failure =>
          cases failure with
          | rejected found =>
              cases hparse
              rfl
          | _ => cases hparse
      | ok nodes =>
          dsimp only at hparse
          cases hnodes : Expr.ofNodes (nodes.toList.map (Node.map Int.ofNat)) (some source) with
          | ok expr =>
              rw [hnodes] at hparse
              cases hparse
          | error malformed =>
              rw [hnodes] at hparse
              cases hparse

theorem exists_cuts_of_parse (hparse : parse source = .error (.rejected error)) :
    ∃ passed text rest, error.Cuts source passed text rest := by
  cases htokens : tokenize source with
  | error fault =>
      have hfault : fault = error := by
        rw [parse, htokens] at hparse
        exact ParseFailure.rejected.inj (Except.error.inj hparse)
      exact exists_cuts_of_tokenize (hfault ▸ htokens)
  | ok all =>
      obtain ⟨body, hscanned, rfl⟩ := exists_scanned_of_tokenize htokens
      have hbody : ∀ token ∈ body, token.kind ≠ .eof := fun token htoken =>
        (hscanned.lexeme_of_mem token htoken).ne_eof
      rw [parse_of_tokenize htokens] at hparse
      have hline := sourceLine_of_parseTokens hparse
      obtain ⟨before, token, after, reported, hsplit, hfailure, hcause, hspan, -, -, hlast,
        hplace⟩ := exists_blamed_of_parseTokens rfl hbody hparse
      cases hfailure
      have hblames := blames_blame hplace hcause hspan
      -- What is at fault is a token with a lexeme, or an operand is missing at the end.
      have hinside : ∀ token ∈ body, error.span = token.span →
          ∃ passed text rest, error.Cuts source passed text rest := by
        intro token htoken hsame
        obtain ⟨passed, text, rest, hcuts, htext⟩ := hscanned.exists_cuts token htoken
        exact ⟨passed, text, rest, hsame ▸ hcuts, hline, fun hnil => absurd hnil htext⟩
      have hmem : token ∈ body ++ [endToken source] := by
        rw [hsplit]
        exact List.mem_append_right _ List.mem_cons_self
      by_cases hkind : token.kind = .eof
      · have htoken : token = endToken source := by
          rcases List.mem_append.mp hmem with htoken | htoken
          · exact absurd hkind (hbody token htoken)
          · exact List.mem_singleton.mp htoken
        cases hdue : operandDue before.getLast? with
        | true =>
            obtain ⟨hcause, hspan⟩ := hblames.missingOperand hkind hdue
            rw [htoken] at hspan
            exact ⟨source.toList, [], [], hspan ▸ endToken_cuts source, hline,
              fun _ => ⟨rfl, hcause⟩⟩
        | false =>
            obtain ⟨-, bracket, hbracket, hspan⟩ := hblames.unclosed hkind hdue
            rw [(hlast hkind).1] at hbracket
            rcases mem_of_mem_openFrom (List.mem_of_mem_head? hbracket) with hnone | hopening
            · cases hnone
            · exact hinside _ hopening hspan
      · rcases List.mem_append.mp hmem with htoken | htoken
        · exact hinside token htoken (hblames.span_eq hkind)
        · rw [List.mem_singleton.mp htoken] at hkind
          exact absurd rfl hkind

end

end Reckon
