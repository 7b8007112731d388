import Mathlib.Data.List.Chain
import Reckon.Proofs.Token.Tiling

/-
Layout between tokens.  The lexemes of a source may be laid out anew with any blanks between them,
if two words do not meet: what follows a lexeme then never goes on with it, so that the longest
match finds the same tokens again.
-/

namespace Reckon

/-- Numbers and names are words. -/
def Token.Kind.isWord : Token.Kind → Bool
  | .number _ | .name _ => true
  | _ => false

/-- No word goes on with what stands at the front: no letter, no digit, no underscore, no point. -/
def EndsWord (rest : List Char) : Prop := ∀ c ∈ rest.head?, isNamePart c = false ∧ c ≠ '.'

variable {kind : Token.Kind} {text rest : List Char}

theorem isNamePart_of_isDigit {c : Char} (hc : c.isDigit = true) : isNamePart c = true := by
  have hchars : ∀ c ∈ Numeral.chars, c.isDigit = true → isNamePart c = true :=
    forall_of_all (by decide)
  exact hchars c (Numeral.mem_chars_of_isDigit hc) hc

theorem EndsWord.endsNumeral (hrest : EndsWord rest) : Numeral.EndsNumeral rest := by
  intro c hc
  obtain ⟨hpart, hpoint⟩ := hrest c hc
  refine ⟨?_, hpoint, ?_, ?_⟩
  · by_contra hdigit
    rw [isNamePart_of_isDigit (by simpa using hdigit)] at hpart
    cases hpart
  · rintro rfl
    revert hpart
    decide
  · rintro rfl
    revert hpart
    decide

/-- A lexeme is the longest token where nothing goes on with it. -/
theorem Lexeme.longest (hlexeme : Lexeme kind text)
    (hrest : kind.isWord = true → EndsWord rest) : Longest kind text rest := by
  have hscan : scanFront (text ++ rest) = (.ok kind, text, rest) := by
    cases hlexeme with
    | @number numeral hnumeral =>
        obtain ⟨c, more, htext, _⟩ := Numeral.head_text hnumeral
        have hscan := Numeral.scan?_text_append hnumeral (hrest rfl).endsNumeral
        rw [htext, List.cons_append] at hscan ⊢
        rw [scanFront_of_numeral hscan, htext]
    | @name c name hstart hparts =>
        have hstop : ∀ d ∈ rest.head?, isNamePart d = false := fun d hd => (hrest rfl d hd).1
        have htake : rest.takeWhile isNamePart = [] := by
          cases rest with
          | nil => rfl
          | cons d more => simp [hstop d rfl]
        have hdrop : rest.dropWhile isNamePart = rest := by
          cases rest with
          | nil => rfl
          | cons d more => simp [hstop d rfl]
        rw [List.cons_append, scanFront_of_isNameStart hstart, List.takeWhile_append_of_pos hparts,
          List.dropWhile_append_of_pos hparts, htake, hdrop, List.append_nil]
    | symbol mark => exact scanFront_symbol mark rest
  obtain ⟨c, more, htext⟩ := List.exists_cons_of_ne_nil hlexeme.ne_nil
  have hlongest : Longest kind (scanFront (text ++ rest)).2.1 (scanFront (text ++ rest)).2.2 := by
    rw [htext, List.cons_append] at hscan ⊢
    exact longest_scanFront (congrArg Prod.fst hscan)
  rwa [hscan] at hlongest

/-- Tokens with blanks in front of each, and blanks at the end. -/
def laidOut (pieces : List (List Char × Token)) (last : List Char) : List Char :=
  pieces.flatMap (fun piece => piece.1 ++ piece.2.lexeme.toList) ++ last

theorem laidOut_nil (last : List Char) : laidOut [] last = last := rfl

theorem laidOut_cons (piece : List Char × Token) (pieces : List (List Char × Token))
    (last : List Char) :
    laidOut (piece :: pieces) last =
      piece.1 ++ (piece.2.lexeme.toList ++ laidOut pieces last) := by
  simp [laidOut]

/-- A layout of lexemes: all that stands between them is blank, and something stands between two
words. -/
structure Layout (pieces : List (List Char × Token)) (last : List Char) : Prop where
  lexeme : ∀ piece ∈ pieces, Lexeme piece.2.kind piece.2.lexeme.toList
  blank : ∀ piece ∈ pieces, ∀ c ∈ piece.1, isBlank c = true
  blank_last : ∀ c ∈ last, isBlank c = true
  apart : pieces.IsChain fun first second =>
    first.2.kind.isWord = true → second.2.kind.isWord = true → second.1 ≠ []

/-- The two tokens differ in nothing but their places. -/
def Token.SameText (token other : Token) : Prop :=
  other.kind = token.kind ∧ other.lexeme = token.lexeme

theorem sameText_symm {tokens others : List Token}
    (hsame : List.Forall₂ Token.SameText tokens others) :
    List.Forall₂ Token.SameText others tokens :=
  hsame.flip.imp fun _ _ hpair => ⟨hpair.1.symm, hpair.2.symm⟩

variable {source : String} {tokens : List Token} {passed gap last : List Char}
  {piece : List Char × Token} {pieces : List (List Char × Token)}

theorem endsWord_of_blank (hgap : ∀ c ∈ gap, isBlank c = true)
    (hrest : gap = [] → EndsWord rest) : EndsWord (gap ++ rest) := by
  cases gap with
  | nil => exact hrest rfl
  | cons c more =>
      intro d hd
      cases hd
      have hblank := hgap c List.mem_cons_self
      refine ⟨isNamePart_of_isBlank hblank, ?_⟩
      rintro rfl
      revert hblank
      decide

theorem endsWord_nil : EndsWord [] := by
  intro c hc
  cases hc

theorem endsWord_symbol (mark : Symbol) (rest : List Char) : EndsWord (mark.char :: rest) := by
  intro c hc
  cases hc
  cases mark <;> decide

/-- Nothing in a layout goes on with a word. -/
theorem Layout.endsWord (hlayout : Layout (piece :: pieces) last)
    (hword : piece.2.kind.isWord = true) : EndsWord (laidOut pieces last) := by
  cases pieces with
  | nil =>
      have hlast : EndsWord (last ++ []) :=
        endsWord_of_blank hlayout.blank_last fun _ => endsWord_nil
      rwa [List.append_nil] at hlast
  | cons next rest =>
      have hmem : next ∈ piece :: next :: rest := by simp
      rw [laidOut_cons]
      apply endsWord_of_blank (hlayout.blank next hmem)
      intro hgap
      have hapart := (List.isChain_cons_cons.mp hlayout.apart).1 hword
      have hlexeme := hlayout.lexeme next hmem
      generalize next.2.lexeme.toList = text at hlexeme
      generalize next.2.kind = kind at hlexeme hapart
      cases hlexeme with
      | number _ => exact absurd hgap (hapart rfl)
      | name _ _ => exact absurd hgap (hapart rfl)
      | symbol mark => exact endsWord_symbol mark _

theorem Layout.tail (hlayout : Layout (piece :: pieces) last) : Layout pieces last :=
  ⟨fun other hother => hlayout.lexeme other (List.mem_cons_of_mem piece hother),
    fun other hother => hlayout.blank other (List.mem_cons_of_mem piece hother),
    hlayout.blank_last, hlayout.apart.tail⟩

/-- All blanks in front are passed over. -/
theorem Scanned.blanks (hscanned : Scanned source tokens passed (gap ++ rest))
    (hgap : ∀ c ∈ gap, isBlank c = true) : Scanned source tokens (passed ++ gap) rest := by
  induction gap generalizing passed with
  | nil => simpa using hscanned
  | cons c more ih =>
      have hone := hscanned.blank (hgap c List.mem_cons_self)
      have hrest := ih hone fun d hd => hgap d (List.mem_cons_of_mem c hd)
      rwa [List.append_assoc, List.singleton_append] at hrest

/-- A lexeme at the front is found if nothing goes on with it. -/
theorem Scanned.lexeme (hscanned : Scanned source tokens passed (text ++ rest))
    (hlexeme : Lexeme kind text) (hrest : kind.isWord = true → EndsWord rest) :
    ∃ span, Scanned source (tokens ++ [⟨kind, String.ofList text, span⟩]) (passed ++ text)
      rest := by
  have hfront : ∀ c ∈ (text ++ rest).head?, isBlank c = false := by
    intro c hc
    obtain ⟨d, more, rfl⟩ := List.exists_cons_of_ne_nil hlexeme.ne_nil
    cases hc
    exact hlexeme.isBlank_of_mem c List.mem_cons_self
  exact ⟨_, hscanned.token hfront (hlexeme.longest hrest)⟩

/-- In front of a layout its tokens are found, up to their places. -/
theorem Scanned.layout (hscanned : Scanned source tokens passed (laidOut pieces last))
    (hlayout : Layout pieces last) :
    ∃ more, Scanned source (tokens ++ more) source.toList [] ∧
      List.Forall₂ Token.SameText (pieces.map Prod.snd) more := by
  induction pieces generalizing tokens passed with
  | nil =>
      rw [laidOut_nil, ← List.append_nil last] at hscanned
      have hend := hscanned.blanks hlayout.blank_last
      have hpassed := hend.append_eq
      rw [List.append_nil] at hpassed
      rw [hpassed] at hend
      exact ⟨[], by simpa using hend, .nil⟩
  | cons piece rest ih =>
      rw [laidOut_cons] at hscanned
      have hmem : piece ∈ piece :: rest := List.mem_cons_self
      obtain ⟨span, hfound⟩ := (hscanned.blanks (hlayout.blank piece hmem)).lexeme
        (hlayout.lexeme piece hmem) hlayout.endsWord
      obtain ⟨more, hmore, hsame⟩ := ih hfound hlayout.tail
      rw [List.append_assoc, String.ofList_toList] at hmore
      exact ⟨_, hmore, .cons ⟨rfl, rfl⟩ hsame⟩

/-- A layout of the tokens of a source is taken apart into the same tokens. -/
theorem tokenize_laidOut {eof : Token}
    (htokens : tokenize source = .ok (pieces.map Prod.snd ++ [eof]))
    (hblank : ∀ piece ∈ pieces, ∀ c ∈ piece.1, isBlank c = true)
    (hlast : ∀ c ∈ last, isBlank c = true)
    (hapart : pieces.IsChain fun first second =>
      first.2.kind.isWord = true → second.2.kind.isWord = true → second.1 ≠ []) :
    ∃ others, tokenize (String.ofList (laidOut pieces last)) =
        .ok (others ++ [endToken (String.ofList (laidOut pieces last))]) ∧
      List.Forall₂ Token.SameText (pieces.map Prod.snd) others := by
  obtain ⟨tokens, hscanned, hall⟩ := exists_scanned_of_tokenize htokens
  obtain ⟨rfl, -⟩ := List.append_inj' hall rfl
  have hlayout : Layout pieces last := by
    refine ⟨?_, hblank, hlast, hapart⟩
    intro piece hpiece
    exact hscanned.lexeme_of_mem _ (List.mem_map_of_mem hpiece)
  have hstart : Scanned (String.ofList (laidOut pieces last)) [] [] (laidOut pieces last) := by
    have hstart : Scanned (String.ofList (laidOut pieces last)) [] [] _ := .start
    rwa [String.toList_ofList] at hstart
  obtain ⟨others, hothers, hsame⟩ := hstart.layout hlayout
  exact ⟨others, hothers.tokenize_of_end, hsame⟩

end Reckon
