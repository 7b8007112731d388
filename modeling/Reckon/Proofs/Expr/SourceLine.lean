import Mathlib
import Reckon.Proofs.Diagnostic
import Reckon.Proofs.Expr.ErrorPlace
import Reckon.Proofs.Text.Lines

/-
The line that a rejected text is shown by.  Its number counts the line feeds in front of the error,
and it is looked up among the lines of the text, which end at other characters as well.
-/

namespace Reckon

theorem isBlank_of_isLineBreak {c : Char} (hc : isLineBreak c = true) : isBlank c = true := by
  have hcodes : ∀ code ∈ [0xa, 0xb, 0xc, 0xd, 0x1c, 0x1d, 0x1e, 0x85, 0x2028, 0x2029],
      isBlank (Char.ofNat code) = true := by decide
  rw [isLineBreak, decide_eq_true_eq] at hc
  have hblank := hcodes _ hc
  rwa [Char.ofNat_toNat] at hblank

section

variable {source : String} {passed text rest before line : List Char}

theorem isLineBreak_of_not_blank (htext : ∀ c ∈ text, isBlank c = false) :
    ∀ c ∈ text, isLineBreak c = false := by
  intro c hc
  by_contra hbreak
  have hblank := isBlank_of_isLineBreak (Bool.eq_true_of_not_eq_false hbreak)
  rw [htext c hc] at hblank
  cases hblank

/-- Behind a line feed, line numbers and lines go together if no break in front is stray. -/
theorem getElem?_textLines (hlast : ∀ c ∈ before.getLast?, c = '\n')
    (hstray : strayBreaks before = 0) (rest : List Char) :
    (textLines (before ++ rest))[before.count '\n']? = (textLines rest).head? := by
  obtain ⟨closed, hlength, hlines⟩ := exists_textLines_append hlast rest
  rw [hstray, Nat.add_zero] at hlength
  rw [hlines, List.getElem?_append_right (Nat.le_of_eq hlength), hlength, Nat.sub_self,
    List.head?_eq_getElem?]

/-- With stray breaks in front there are more lines than the line number counts. -/
theorem getElem?_textLines_ne_none (hlast : ∀ c ∈ before.getLast?, c = '\n')
    (hstray : strayBreaks before ≠ 0) (rest : List Char) :
    (textLines (before ++ rest))[before.count '\n']? ≠ none := by
  obtain ⟨closed, hlength, hlines⟩ := exists_textLines_append hlast rest
  rw [hlines, Ne, List.getElem?_eq_none_iff, List.length_append]
  omega

theorem lineAt?_after (source : String) (passed : List Char) :
    lineAt? source (Location.origin.after passed).line =
      ((textLines source.toList)[passed.count '\n']?).map String.ofList := by
  have hnumber : (Location.origin.after passed).line - 1 = passed.count '\n' := by
    rw [Location.origin_after_line, Nat.add_sub_cancel_left]
  have hpositive : (1 : Int) ≤ (Location.origin.after passed).line := by
    rw [Location.origin_after_line]
    omega
  rw [lineAt?, if_pos hpositive, Int.toNat_natCast, hnumber]

/-- The column counts from the place behind a line feed. -/
theorem column_after_append (hlast : ∀ c ∈ before.getLast?, c = '\n') (hline : '\n' ∉ line) :
    (Location.origin.after (before ++ line)).column = line.length + 1 := by
  have hbefore : (Location.origin.after before).column = 1 := by
    rcases List.eq_nil_or_concat' before with rfl | ⟨front, c, rfl⟩
    · rfl
    · have hc : c = '\n' := hlast c (by simp)
      rw [Location.after_append, Location.after_cons, Location.after_nil, Location.next, if_pos hc]
  rw [Location.after_append, Location.after_of_not_mem _ hline]
  dsimp only
  rw [hbefore, Nat.add_comm]

theorem count_append_line (before : List Char) (hline : '\n' ∉ line) :
    (before ++ line).count '\n' = before.count '\n' := by
  rw [List.count_append, List.count_eq_zero_of_not_mem hline, Nat.add_zero]

theorem strayBreaks_append_line (before : List Char) (hline : '\n' ∉ line) :
    strayBreaks (before ++ line) = strayBreaks before + strayBreaks line :=
  strayBreaks_append fun hhead => hline (List.mem_of_mem_head? hhead)

theorem length_takeWhile_lt {p : Char → Bool} {c : Char} (hmem : c ∈ line) (hc : p c = false)
    (rest : List Char) : ((line ++ rest).takeWhile p).length < line.length := by
  induction line with
  | nil => cases hmem
  | cons d line ih =>
      rw [List.cons_append, List.takeWhile_cons]
      cases hd : p d with
      | false => simp
      | true =>
          have hne : c ≠ d := by
            rintro rfl
            rw [hd] at hc
            cases hc
          simpa using ih (List.mem_of_ne_of_mem hne hmem)

end

namespace SyntaxError.Cuts

variable {source shown : String} {error : SyntaxError} {passed text rest before line : List Char}

theorem start_column (hcuts : error.Cuts source (before ++ line) text rest)
    (hlast : ∀ c ∈ before.getLast?, c = '\n') (hline : '\n' ∉ line) :
    error.span.start.column - 1 = line.length := by
  rw [hcuts.span.span_eq]
  dsimp only
  rw [column_after_append hlast hline, Nat.add_sub_cancel]

theorem stop_column (hcuts : error.Cuts source (before ++ line) text rest)
    (hlast : ∀ c ∈ before.getLast?, c = '\n') (hline : '\n' ∉ line) :
    error.span.stop.column - 1 = line.length + text.length := by
  have hboth : '\n' ∉ line ++ text := by
    simpa [hline] using hcuts.newline_not_mem
  rw [hcuts.span.span_eq]
  dsimp only
  rw [List.append_assoc, column_after_append hlast hboth, Nat.add_sub_cancel, List.length_append]

/-- As far as no break in front of its line is stray, an error is shown by what begins behind the
last line feed and goes up to the next break. -/
theorem shown_eq (hcuts : error.Cuts source (before ++ line) text rest)
    (hlast : ∀ c ∈ before.getLast?, c = '\n') (hline : '\n' ∉ line)
    (hstray : strayBreaks before = 0) (hshown : error.sourceLine = some shown) :
    shown.toList = (line ++ (text ++ rest)).takeWhile fun c => !isLineBreak c := by
  have hnumber : error.span.start.line = (Location.origin.after (before ++ line)).line := by
    rw [hcuts.span.span_eq]
  have hsource : before ++ (line ++ (text ++ rest)) = source.toList := by
    rw [← hcuts.span.source_eq, List.append_assoc]
  rw [hcuts.line_eq, hnumber, lineAt?_after, ← hsource, count_append_line before hline,
    getElem?_textLines hlast hstray] at hshown
  by_cases hempty : line ++ (text ++ rest) = []
  · rw [hempty, textLines_nil] at hshown
    cases hshown
  · rw [head?_textLines hempty] at hshown
    cases hshown
    exact String.toList_ofList

end SyntaxError.Cuts

section

variable {source shown : String} {error : SyntaxError}

/-- The part of the source line under the carets is the text at fault, if every break in front of
it is a line feed, perhaps with a carriage return before it.  If another break stands between the
last line feed and the error, the line ends before the place that the carets mark. -/
theorem sourceLine_of_parse (hparse : parse source = .error (.rejected error))
    (hshown : error.sourceLine = some shown) :
    (strayBreaks (source.toList.take error.span.start.offset) = 0 →
      shown.toList.extract (error.span.start.column - 1) (error.span.stop.column - 1) =
        source.toList.extract error.span.start.offset error.span.stop.offset) ∧
    ∀ before line, source.toList.take error.span.start.offset = before ++ line →
      (∀ c ∈ before.getLast?, c = '\n') → '\n' ∉ line → strayBreaks before = 0 →
      strayBreaks line ≠ 0 → shown.toList.length < error.span.start.column - 1 := by
  obtain ⟨passed, text, rest, hcuts⟩ := exists_cuts_of_parse hparse
  rw [hcuts.take_start, hcuts.extract_eq]
  constructor
  · intro hstray
    obtain ⟨before, line, rfl, hlast, hline, -⟩ := Location.origin_after_split passed
    rw [strayBreaks_append_line before hline, Nat.add_eq_zero_iff] at hstray
    have hopen : ∀ c ∈ line ++ text, isLineBreak c = false := by
      intro c hc
      rcases List.mem_append.mp hc with hc | hc
      · exact (strayBreaks_eq_zero_iff hline).mp hstray.2 c hc
      · exact isLineBreak_of_not_blank hcuts.span.not_blank c hc
    rw [hcuts.shown_eq hlast hline hstray.1 hshown, hcuts.start_column hlast hline,
      hcuts.stop_column hlast hline, ← List.append_assoc,
      List.takeWhile_append_of_pos (by simpa using hopen), List.append_assoc, extract_middle]
  · rintro before line rfl hlast hline hstray hbreak
    rw [Ne, strayBreaks_eq_zero_iff hline] at hbreak
    push Not at hbreak
    obtain ⟨c, hmem, hc⟩ := hbreak
    rw [hcuts.shown_eq hlast hline hstray hshown, hcuts.start_column hlast hline]
    exact length_takeWhile_lt hmem (by simpa using hc) _

/-- An error in the second line of a source with the line ends of two characters. -/
theorem sourceLine_of_parse_crlf :
    parse "a\r\n+ $" =
      .error (.rejected ⟨.unknownOperator '$', ⟨⟨2, 3, 5⟩, ⟨2, 4, 6⟩⟩, some "+ $"⟩) ∧
    strayBreaks ("a\r\n+ $".toList.take 5) = 0 ∧
    "+ $".toList.extract 2 3 = "a\r\n+ $".toList.extract 5 6 := by
  have hparse : parse "a\r\n+ $" =
      .error (.rejected ⟨.unknownOperator '$', ⟨⟨2, 3, 5⟩, ⟨2, 4, 6⟩⟩, some "+ $"⟩) := by cbv
  have hstray : strayBreaks ("a\r\n+ $".toList.take 5) = 0 := by decide
  exact ⟨hparse, hstray, (sourceLine_of_parse hparse rfl).1 hstray⟩

/-- A lone carriage return ends a line that the line number does not count: the line shown ends
before the error. -/
theorem sourceLine_of_parse_stray :
    ∃ source error shown, parse source = .error (.rejected error) ∧
      error.sourceLine = some shown ∧
      shown.toList.extract (error.span.start.column - 1) (error.span.stop.column - 1) ≠
        source.toList.extract error.span.start.offset error.span.stop.offset := by
  refine ⟨"a\r+ $", ⟨.unknownOperator '$', ⟨⟨1, 5, 4⟩, ⟨1, 6, 5⟩⟩, some "a"⟩, "a", ?_, rfl, ?_⟩
  · cbv
  · decide

end

/-- A place at the end of a source whose lines all end with a line feed. -/
structure Location.BehindLines (source : String) (location : Location) : Prop where
  offset_eq : location.offset = source.toList.length
  stray_eq : strayBreaks source.toList = 0
  last_eq : ∀ c ∈ source.toList.getLast?, c = '\n'

section

variable {source : String} {error : SyntaxError} {passed text rest before line : List Char}

theorem getLast?_eq_of_append (hlast : ∀ c ∈ (before ++ line).getLast?, c = '\n')
    (hline : '\n' ∉ line) : line = [] := by
  rcases List.eq_nil_or_concat' line with rfl | ⟨front, c, rfl⟩
  · rfl
  · have hc : c = '\n' := hlast c (by simp)
    simp [hc] at hline

/-- A line number refers to a line of the source, but for a place behind all its lines. -/
theorem lineAt?_after_eq_none_iff (hsource : passed ++ rest = source.toList) :
    lineAt? source (Location.origin.after passed).line = none ↔
      (Location.origin.after passed).BehindLines source := by
  obtain ⟨before, line, rfl, hlast, hline, -⟩ := Location.origin_after_split passed
  have hsplit : before ++ (line ++ rest) = source.toList := by
    rw [← hsource, List.append_assoc]
  have hoffset := Location.origin_after_offset (before ++ line)
  rw [lineAt?_after, Option.map_eq_none_iff, ← hsplit, count_append_line before hline]
  constructor
  · intro hnone
    by_cases hstray : strayBreaks before = 0
    · rw [getElem?_textLines hlast hstray] at hnone
      have hempty : line ++ rest = [] := by
        by_contra hne
        rw [head?_textLines hne] at hnone
        cases hnone
      obtain ⟨rfl, rfl⟩ := List.append_eq_nil_iff.mp hempty
      rw [List.append_nil] at hsource
      refine ⟨hsource ▸ hoffset, ?_, ?_⟩
      · rw [← hsource, List.append_nil]
        exact hstray
      · rw [← hsource, List.append_nil]
        exact hlast
    · exact absurd hnone (getElem?_textLines_ne_none hlast hstray _)
  · rintro ⟨hend, hstray, hfeed⟩
    have hrest : rest = [] := by
      rw [hoffset, ← hsource] at hend
      simp only [List.length_append] at hend
      exact List.eq_nil_of_length_eq_zero (by omega)
    rw [hrest, List.append_nil] at hsource
    rw [← hsource] at hstray hfeed
    have hempty := getLast?_eq_of_append hfeed hline
    rw [hempty, List.append_nil] at hstray
    rw [getElem?_textLines hlast hstray, hempty, hrest, List.append_nil, textLines_nil]
    rfl

/-- Where an error stands behind all lines, its message is one row without any bar. -/
theorem SyntaxError.Cuts.bar_not_mem_short (hcuts : error.Cuts source passed text rest)
    (hbehind : error.span.start.BehindLines source) : '|' ∉ error.diagnostic.short.toList := by
  have htext : text = [] := by
    have hend := hbehind.offset_eq
    rw [hcuts.start_offset, ← hcuts.span.source_eq, List.length_append, List.length_append] at hend
    exact List.eq_nil_of_length_eq_zero (by omega)
  have hplace := error.span.start.bar_not_mem_text
  have hcause := (hcuts.at_end htext).2
  have hextent : error.diagnostic.extent = some error.span.extent := rfl
  have hcode : error.diagnostic.code = "E102" := by
    rw [SyntaxError.diagnostic, hcause]
    rfl
  have hmessage : error.diagnostic.message = "unexpected end of input, expected " ++ "operand" := by
    rw [SyntaxError.diagnostic, hcause]
    rfl
  have hhints : error.diagnostic.hints = [] := by
    rw [SyntaxError.diagnostic, hcause]
    rfl
  rw [Diagnostic.short_of_hints hhints, Diagnostic.header_of_extent hextent, hcode, hmessage]
  simp only [String.toList_append, List.mem_append, not_or]
  exact ⟨⟨⟨⟨⟨hplace, by decide⟩, by decide⟩, by decide⟩, by decide⟩, by decide, by decide⟩

/-- Every error of a text that is rejected lies within the text.  Its message shows the line of the
source that its line number refers to, with carets below it, unless it stands at the end of a source
whose lines all end with a line feed: then its number refers to no line and the message shows
none. -/
theorem format_of_parse (hparse : parse source = .error (.rejected error)) :
    error.span.start.offset ≤ error.span.stop.offset ∧
    error.span.stop.offset ≤ source.toList.length ∧
    (¬error.span.start.BehindLines source →
      ∃ line, lineAt? source error.span.start.line = some line ∧
        Diagnostic.ShowsLine error.diagnostic.format error.span.start.line line) ∧
    (error.span.start.BehindLines source →
      error.diagnostic.format = error.diagnostic.short ∧
        ∀ number line, ¬Diagnostic.ShowsLine error.diagnostic.format number line) := by
  obtain ⟨passed, text, rest, hcuts⟩ := exists_cuts_of_parse hparse
  have hstart : error.span.start = Location.origin.after passed := by rw [hcuts.span.span_eq]
  have hnone := lineAt?_after_eq_none_iff hcuts.span.source_eq
  rw [← hstart] at hnone
  refine ⟨?_, ?_, ?_, ?_⟩
  · rw [hcuts.start_offset, hcuts.stop_offset]
    exact Nat.le_add_right _ _
  · rw [hcuts.stop_offset, ← hcuts.span.source_eq, List.length_append, List.length_append]
    omega
  · intro hbefore
    obtain ⟨line, hline⟩ := Option.ne_none_iff_exists'.mp (mt hnone.mp hbefore)
    refine ⟨line, hline, ?_⟩
    have hextent : error.diagnostic.extent = some error.span.extent := rfl
    have hshown : error.diagnostic.sourceLine = some line := hcuts.line_eq.trans hline
    have hshows := Diagnostic.showsLine_format hextent hshown
    exact hshows
  · intro hbehind
    have hformat : error.diagnostic.format = error.diagnostic.short :=
      Diagnostic.format_of_none (hcuts.line_eq.trans (hnone.mpr hbehind))
    refine ⟨hformat, fun number line hshows => ?_⟩
    rw [hformat] at hshows
    exact hcuts.bar_not_mem_short hbehind hshows.bar_mem

/-- Behind a blank at the end the line is still there. -/
theorem format_of_parse_blank :
    ∃ error, parse "a + " = .error (.rejected error) ∧ ¬error.span.start.BehindLines "a + " ∧
      ∃ line, lineAt? "a + " error.span.start.line = some line ∧
        Diagnostic.ShowsLine error.diagnostic.format error.span.start.line line := by
  have hparse : parse "a + " =
      .error (.rejected ⟨.unexpectedEnd .operand, ⟨⟨1, 5, 4⟩, ⟨1, 5, 4⟩⟩, some "a + "⟩) := by cbv
  have hbefore : ¬(Location.mk 1 5 4).BehindLines "a + " := by
    rintro ⟨-, -, hlast⟩
    exact absurd (hlast ' ' rfl) (by decide)
  obtain ⟨-, -, hshown, -⟩ := format_of_parse hparse
  exact ⟨_, hparse, hbefore, hshown hbefore⟩

/-- Behind a line feed at the end no line is shown. -/
theorem format_of_parse_feed :
    ∃ error, parse "a +\n" = .error (.rejected error) ∧
      ∀ number line, ¬Diagnostic.ShowsLine error.diagnostic.format number line := by
  have hparse : parse "a +\n" =
      .error (.rejected ⟨.unexpectedEnd .operand, ⟨⟨2, 1, 4⟩, ⟨2, 1, 4⟩⟩, none⟩) := by cbv
  refine ⟨_, hparse, fun number line hshows => ?_⟩
  have hbar := hshows.bar_mem
  revert hbar
  decide +kernel

end

end Reckon
