import Reckon.Proofs.Token.LongestMatch
import Reckon.Proofs.Token.Reader

/-
Tokens as tiles of their source.  The tokens stand one behind the other, each with its lexeme at
its offsets, and only blanks stand between them.  Offset, line and column of every token and of
every error belong to the same place, and neither leaves its line.
-/

namespace Reckon

variable {source : String} {text : List Char} {tokens : List Token} {token : Token} {bound : Nat}

namespace Location

/-- A place in the source.  The line counts the line feeds in front of it, and the column its
distance from the place behind the last of them. -/
structure Marks (source : String) (location : Location) : Prop where
  offset_le : location.offset ≤ source.toList.length
  line_eq : location.line = 1 + (source.toList.take location.offset).count '\n'
  column_eq : ∃ before line, source.toList.take location.offset = before ++ line ∧
    (∀ c ∈ before.getLast?, c = '\n') ∧ '\n' ∉ line ∧
    location.column = location.offset - before.length + 1

/-- A text is split behind its last line feed, and the column counts from there. -/
theorem origin_after_split (passed : List Char) :
    ∃ before line, passed = before ++ line ∧ (∀ c ∈ before.getLast?, c = '\n') ∧ '\n' ∉ line ∧
      (origin.after passed).column = line.length + 1 := by
  induction passed using List.reverseRecOn with
  | nil => exact ⟨[], [], rfl, by simp, List.not_mem_nil, rfl⟩
  | append_singleton passed c ih =>
      obtain ⟨before, line, hsplit, hbefore, hline, hcolumn⟩ := ih
      rw [after_append, after_cons, after_nil, next]
      by_cases hc : c = '\n'
      · exact ⟨passed ++ [c], [], by simp, by simp [hc], List.not_mem_nil, by simp [hc]⟩
      · refine ⟨before, line ++ [c], by simp [hsplit], hbefore, ?_, ?_⟩
        · simpa [hline] using fun heq => hc heq.symm
        · simp [hc, hcolumn]

theorem marks_origin_after {passed rest : List Char} (hsource : passed ++ rest = source.toList) :
    (origin.after passed).Marks source := by
  have hoffset := origin_after_offset passed
  have htake : source.toList.take (origin.after passed).offset = passed := by
    rw [hoffset, ← hsource, List.take_left]
  refine ⟨?_, ?_, ?_⟩
  · rw [hoffset, ← hsource, List.length_append]
    exact Nat.le_add_right _ _
  · rw [htake]
    exact origin_after_line passed
  · obtain ⟨before, line, hsplit, hbefore, hline, hcolumn⟩ := origin_after_split passed
    refine ⟨before, line, htake.trans hsplit, hbefore, hline, ?_⟩
    rw [hcolumn, hoffset, hsplit, List.length_append, Nat.add_sub_cancel_left]

end Location

/-- The span begins and ends at places of the source, on one line, and the text stands between
them. -/
structure Span.Covers (source : String) (span : Span) (text : List Char) : Prop where
  start_marks : span.start.Marks source
  stop_marks : span.stop.Marks source
  text_eq : source.toList.extract span.start.offset span.stop.offset = text
  offset_eq : span.stop.offset = span.start.offset + text.length
  line_eq : span.stop.line = span.start.line
  column_eq : span.stop.column = span.start.column + text.length

theorem Span.covers_after {passed rest : List Char}
    (hsource : passed ++ (text ++ rest) = source.toList) (htext : '\n' ∉ text) :
    Span.Covers source ⟨Location.origin.after passed, Location.origin.after (passed ++ text)⟩
      text := by
  have hstop := Location.after_of_not_mem (Location.origin.after passed) htext
  rw [← Location.after_append] at hstop
  have hoffset := Location.origin_after_offset passed
  refine ⟨Location.marks_origin_after hsource,
    Location.marks_origin_after ((List.append_assoc passed text rest).trans hsource), ?_,
    by simp only [hstop], by simp only [hstop], by simp only [hstop]⟩
  rw [hstop, hoffset, ← hsource, List.extract_eq_take_drop, List.drop_left,
    Nat.add_sub_cancel_left, List.take_left]

theorem Numeral.isBlank_of_mem_chars : ∀ c ∈ Numeral.chars, isBlank c = false :=
  forall_of_all (by decide)

/-- A blank is no letter, no digit and no underscore. -/
theorem isNamePart_of_isBlank {c : Char} (hc : isBlank c = true) : isNamePart c = false := by
  have hcodes : ∀ range ∈ blankRanges, ∀ code ∈ List.range' range.1 (range.2 + 1 - range.1),
      isNamePart (Char.ofNat code) = false := by decide +kernel
  obtain ⟨range, hrange, hlow, hhigh⟩ := Ranges.mem_of_contains hc
  have hcode : c.toNat ∈ List.range' range.1 (range.2 + 1 - range.1) := by
    rw [List.mem_range'_1]
    omega
  have hpart := hcodes range hrange c.toNat hcode
  rwa [Char.ofNat_toNat] at hpart

theorem Lexeme.isBlank_of_mem {kind : Token.Kind} (hlexeme : Lexeme kind text) :
    ∀ c ∈ text, isBlank c = false := by
  have hpart : ∀ c, isNamePart c = true → isBlank c = false := by
    intro c hc
    by_contra hblank
    rw [isNamePart_of_isBlank (Bool.eq_true_of_not_eq_false hblank)] at hc
    cases hc
  intro c hc
  cases hlexeme with
  | number hnumeral =>
      exact Numeral.isBlank_of_mem_chars c (Numeral.mem_chars_of_mem_text hnumeral hc)
  | name hstart hrest =>
      rcases List.mem_cons.mp hc with rfl | hc
      · exact hpart _ (isNamePart_of_isNameStart hstart)
      · exact hpart c (hrest c hc)
  | symbol mark =>
      rw [List.mem_singleton.mp hc]
      cases mark <;> decide

/-- No token goes over the end of its line. -/
theorem Lexeme.newline_not_mem {kind : Token.Kind} (hlexeme : Lexeme kind text) : '\n' ∉ text := by
  intro hmem
  have hblank := hlexeme.isBlank_of_mem _ hmem
  revert hblank
  decide

/-- Tokens that tile a source up to a bound: each has its lexeme at its offsets, they stand one
behind the other, and what stands in none of them is blank. -/
structure Tiles (source : List Char) (bound : Nat) (tokens : List Token) : Prop where
  nonempty : ∀ token ∈ tokens, token.span.start.offset < token.span.stop.offset
  ordered : tokens.Pairwise fun first second => first.span.stop.offset ≤ second.span.start.offset
  lexeme_eq : ∀ token ∈ tokens,
    source.extract token.span.start.offset token.span.stop.offset = token.lexeme.toList
  bounded : ∀ token ∈ tokens, token.span.stop.offset ≤ bound
  blank : ∀ index c, source[index]? = some c → index < bound →
    (∀ token ∈ tokens, ¬(token.span.start.offset ≤ index ∧ index < token.span.stop.offset)) →
    isBlank c = true

namespace Tiles

variable {source : List Char}

theorem nil (source : List Char) : Tiles source 0 [] :=
  ⟨by simp, .nil, by simp, by simp, fun _ _ _ hindex => absurd hindex (Nat.not_lt_zero _)⟩

/-- One blank more is tiled. -/
theorem blank_succ (htiles : Tiles source bound tokens)
    (hblank : ∀ c ∈ source[bound]?, isBlank c = true) : Tiles source (bound + 1) tokens := by
  refine ⟨htiles.nonempty, htiles.ordered, htiles.lexeme_eq,
    fun token htoken => Nat.le_succ_of_le (htiles.bounded token htoken), ?_⟩
  intro index c hc hindex houtside
  rcases Nat.lt_succ_iff_lt_or_eq.mp hindex with hbefore | rfl
  · exact htiles.blank index c hc hbefore houtside
  · exact hblank c hc

/-- A token that begins at the bound takes the tiles to its end. -/
theorem append_token (token : Token) (htiles : Tiles source token.span.start.offset tokens)
    (hnonempty : token.span.start.offset < token.span.stop.offset)
    (hlexeme : source.extract token.span.start.offset token.span.stop.offset =
      token.lexeme.toList) :
    Tiles source token.span.stop.offset (tokens ++ [token]) := by
  refine ⟨?_, ?_, ?_, ?_, ?_⟩
  · simpa [or_imp, forall_and, hnonempty] using htiles.nonempty
  · rw [List.pairwise_append]
    refine ⟨htiles.ordered, List.pairwise_singleton _ _, ?_⟩
    intro first hfirst second hsecond
    rw [List.mem_singleton.mp hsecond]
    exact htiles.bounded first hfirst
  · simpa [or_imp, forall_and, hlexeme] using htiles.lexeme_eq
  · intro other hother
    rcases List.mem_append.mp hother with hother | hother
    · exact Nat.le_trans (htiles.bounded other hother) (Nat.le_of_lt hnonempty)
    · rw [List.mem_singleton.mp hother]
  · intro index c hc hindex houtside
    have hbefore : index < token.span.start.offset := by
      have hout := houtside token (List.mem_append_right _ (List.mem_singleton_self token))
      omega
    exact htiles.blank index c hc hbefore fun other hother =>
      houtside other (List.mem_append_left _ hother)

end Tiles

/-- The tokens found up to a place tile the text in front of it. -/
theorem Scanned.tiles {passed rest : List Char} (hscanned : Scanned source tokens passed rest) :
    Tiles source.toList passed.length tokens := by
  induction hscanned with
  | start => exact .nil _
  | @blank tokens passed rest c hscanned hc ih =>
      rw [List.length_append, List.length_singleton]
      apply ih.blank_succ
      intro other hother
      rw [← hscanned.append_eq, List.getElem?_append_right (Nat.le_refl _), Nat.sub_self] at hother
      cases hother
      exact hc
  | @token tokens passed text rest kind hscanned _ hlongest ih =>
      have hcovers := Span.covers_after hscanned.append_eq hlongest.lexeme.newline_not_mem
      have hstop := Location.origin_after_offset (passed ++ text)
      have hpositive := List.length_pos_iff.mpr hlongest.lexeme.ne_nil
      rw [← Location.origin_after_offset passed] at ih
      rw [← hstop]
      refine Tiles.append_token ⟨kind, String.ofList text, ⟨Location.origin.after passed,
        Location.origin.after (passed ++ text)⟩⟩ ih ?_ ?_
      · exact Nat.lt_of_lt_of_eq (Nat.lt_add_of_pos_right hpositive) hcovers.offset_eq.symm
      · rw [hcovers.text_eq, String.toList_ofList]

/-- The lexemes put back at their offsets from a place on, with what stands between them in the
source. -/
def relaid (source : List Char) : Nat → List Token → List Char
  | place, [] => source.drop place
  | place, token :: rest =>
      source.extract place token.span.start.offset ++ token.lexeme.toList ++
        relaid source token.span.stop.offset rest

theorem extract_append_drop {source : List Char} {start stop : Nat} (hle : start ≤ stop) :
    source.extract start stop ++ source.drop stop = source.drop start := by
  have hdrop : source.drop stop = (source.drop start).drop (stop - start) := by
    rw [List.drop_drop, Nat.add_sub_cancel' hle]
  rw [hdrop, List.extract_eq_take_drop, List.take_append_drop]

theorem Tiles.relaid_eq {source : List Char} (htiles : Tiles source bound tokens) {place : Nat}
    (hplace : ∀ token ∈ tokens, place ≤ token.span.start.offset) :
    relaid source place tokens = source.drop place := by
  obtain ⟨hnonempty, hordered, hlexeme, -, -⟩ := htiles
  induction tokens generalizing place with
  | nil => rfl
  | cons token rest ih =>
      have hrest : relaid source token.span.stop.offset rest =
          source.drop token.span.stop.offset := by
        apply ih
        · exact fun other hother => List.rel_of_pairwise_cons hordered hother
        · exact fun other hother => hnonempty other (List.mem_cons_of_mem token hother)
        · exact hordered.of_cons
        · exact fun other hother => hlexeme other (List.mem_cons_of_mem token hother)
      rw [relaid, hrest, ← hlexeme token List.mem_cons_self, List.append_assoc,
        extract_append_drop (Nat.le_of_lt (hnonempty token List.mem_cons_self)),
        extract_append_drop (hplace token List.mem_cons_self)]

namespace Cursor

variable {cursor : Cursor} {passed rest : List Char}

/-- What a scan finds lies between the text passed and what the front of the rest adds to it. -/
theorem scan_eq (hskip : cursor.skipBlanks = behind passed rest) :
    cursor.scan.1 = match (scanFront rest).1 with
      | .ok kind => .ok ⟨kind, String.ofList (scanFront rest).2.1,
          ⟨Location.origin.after passed, Location.origin.after (passed ++ (scanFront rest).2.1)⟩⟩
      | .error cause => .error ⟨cause,
          ⟨Location.origin.after passed, Location.origin.after (passed ++ (scanFront rest).2.1)⟩,
          none⟩ := by
  simp only [scan, hskip, pass_behind]
  cases hfront : (scanFront rest).1 <;>
    simp [behind, hfront, token, Location.after_append]

theorem isBlank_of_head?_skipBlanks (cursor : Cursor) :
    ∀ c ∈ cursor.skipBlanks.rest.head?, isBlank c = false := by
  intro c hc
  have hhead := List.head?_dropWhile_not isBlank cursor.rest
  change c ∈ (cursor.rest.dropWhile isBlank).head? at hc
  rw [Option.mem_def.mp hc] at hhead
  simpa using hhead

/-- What a scan finds covers its lexeme, and an error the one character at fault. -/
theorem StandsIn.covers (hcursor : cursor.StandsIn source) :
    match cursor.scan.1 with
    | .ok token => token.span.Covers source token.lexeme.toList
    | .error error => ∃ c, error.span.Covers source [c] := by
  obtain ⟨passed, rest, hsource, hskip⟩ := hcursor.skipBlanks
  have hfront := scanFront_append rest
  rw [scan_eq hskip]
  cases rest with
  | nil => exact Span.covers_after (show passed ++ ([] ++ []) = _ from hsource) List.not_mem_nil
  | cons c rest =>
      cases hkind : (scanFront (c :: rest)).1 with
      | ok kind =>
          rw [← hfront] at hsource
          simpa using Span.covers_after hsource (lexeme_scanFront hkind).newline_not_mem
      | error cause =>
          rw [scanFront_of_error hkind]
          refine ⟨c, Span.covers_after (show passed ++ ([c] ++ rest) = _ from hsource) ?_⟩
          have hc : isBlank c = false := by
            apply cursor.isBlank_of_head?_skipBlanks
            rw [hskip]
            rfl
          intro hmem
          rw [← List.mem_singleton.mp hmem] at hc
          revert hc
          decide

end Cursor

/-- Every item of the endless scan covers its text. -/
theorem endless_covers (source : String) (index : Nat) :
    match endless source index with
    | .ok token => token.span.Covers source token.lexeme.toList
    | .error error => ∃ c, error.span.Covers source [c] := by
  have hcovers := (Reader.standsIn_behindScans source index).covers
  rw [endless]
  cases hscan : (Cursor.behindScans source index).scan.1 with
  | ok token => rwa [hscan] at hcovers
  | error error => rwa [hscan] at hcovers

/-- The tokens and the error of a source are items of its endless scan. -/
theorem scanTokens_endless (source : String) :
    (∀ token ∈ (scanTokens source).1, ∃ index, endless source index = .ok token) ∧
      ∀ error ∈ (scanTokens source).2, ∃ index, endless source index = .error error := by
  have hrun := Reader.run_scans (show Cursor.ofSource source = Cursor.behindScans source 0 from rfl)
  constructor
  · intro token htoken
    obtain ⟨index, hindex⟩ := List.getElem?_of_mem htoken
    exact ⟨_, hrun.1 index token hindex⟩
  · intro error herror
    obtain ⟨found, hfound, rfl⟩ := Option.map_eq_some_iff.mp herror
    have hlast := hrun.2
    rw [hfound] at hlast
    exact ⟨_, hlast.2.1⟩

theorem scanTokens_of_tokenize {all : List Token} (hall : tokenize source = .ok all) :
    (scanTokens source).1 = all := by
  unfold tokenize at hall
  split at hall
  · rename_i tokens heq
    rw [heq, Except.ok.inj hall]
  · cases hall

theorem scanTokens_of_tokenize_error {error : SyntaxError}
    (herror : tokenize source = .error error) :
    (scanTokens source).2 = some error := by
  unfold tokenize at herror
  split at herror
  · cases herror
  · rename_i found heq
    rw [heq, Except.error.inj herror]

/-- The tokens of a source tile it.  In front of the end they take up room one behind the other,
each with its lexeme at its offsets; only blanks stand between them, the end is empty and stands
behind the last character, and the lexemes with what stands between them are the source.  Of any
source, the places of all tokens and errors are those of the source, and none leaves its line;
this holds also of what is found behind an error. -/
theorem tokenize_tiles (source : String) :
    (∀ all, tokenize source = .ok all →
      (∃ body eof, all = body ++ [eof] ∧ Tiles source.toList source.toList.length body ∧
        relaid source.toList 0 body = source.toList ∧ (∀ token ∈ body, token.kind ≠ .eof) ∧
        eof.kind = .eof ∧ eof.lexeme = "" ∧ eof.span.start = eof.span.stop ∧
        eof.span.start.offset = source.toList.length) ∧
      ∀ token ∈ all, token.span.Covers source token.lexeme.toList) ∧
    (∀ error, tokenize source = .error error → ∃ c, error.span.Covers source [c]) ∧
    (∀ token ∈ (scanTokens source).1, token.span.Covers source token.lexeme.toList) ∧
    (∀ error ∈ (scanTokens source).2, ∃ c, error.span.Covers source [c]) ∧
    ∀ index, match endless source index with
      | .ok token => token.span.Covers source token.lexeme.toList
      | .error error => ∃ c, error.span.Covers source [c] := by
  have htokens : ∀ token ∈ (scanTokens source).1,
      token.span.Covers source token.lexeme.toList := by
    intro token htoken
    obtain ⟨index, hindex⟩ := (scanTokens_endless source).1 token htoken
    have hcovers := endless_covers source index
    rwa [hindex] at hcovers
  have herrors : ∀ error ∈ (scanTokens source).2, ∃ c, error.span.Covers source [c] := by
    intro error herror
    obtain ⟨index, hindex⟩ := (scanTokens_endless source).2 error herror
    have hcovers := endless_covers source index
    rwa [hindex] at hcovers
  refine ⟨?_, ?_, htokens, herrors, endless_covers source⟩
  · intro all hall
    refine ⟨?_, scanTokens_of_tokenize hall ▸ htokens⟩
    obtain ⟨body, hscanned, rfl⟩ := exists_scanned_of_tokenize hall
    have htiles := hscanned.tiles
    refine ⟨body, endToken source, rfl, htiles, ?_, ?_, rfl, rfl, rfl,
      Location.origin_after_offset _⟩
    · exact htiles.relaid_eq fun _ _ => Nat.zero_le _
    · exact fun token htoken => (hscanned.lexeme_of_mem token htoken).ne_eof
  · exact fun error herror => herrors error (scanTokens_of_tokenize_error herror)

end Reckon
