import Reckon.Proofs.Decimal.Equality
import Reckon.Proofs.Expr.Origin
import Reckon.Proofs.Expr.Placement

/-
Layout does not matter.  A layout of the tokens of a text spells an expression that is equal to
that of the text, or is rejected for the same at the same token.
-/

namespace Reckon

open ReadState

variable {tokens others body before after placed behind : List Token}
  {token other eof stop : Token} {first second : Option String} {tree : Tree}

/-- Errors of two lists of tokens that say the same, and point to tokens with the same index. -/
structure SameError (tokens others : List Token) (error other : SyntaxError) : Prop where
  cause : other.cause = error.cause
  code : other.diagnostic.code = error.diagnostic.code
  message : other.diagnostic.message = error.diagnostic.message
  place : ∃ (index : Nat) (token moved : Token), tokens[index]? = some token ∧
    others[index]? = some moved ∧ error.span = token.span ∧ other.span = moved.span

/-- Two lists of tokens are read as equal expressions, or rejected with the same error. -/
inductive SameReading (tokens others : List Token) :
    Except ParseFailure Expr → Except ParseFailure Expr → Prop
  | read {expr other : Expr} (hnodes : other.nodes = expr.nodes)
      (hsame : expr.sameAs other = true) : SameReading tokens others (.ok expr) (.ok other)
  | rejected {error other : SyntaxError} (herror : SameError tokens others error other) :
      SameReading tokens others (.error (.rejected error)) (.error (.rejected other))

section

variable {ρ : Type} [DecidableEq ρ]

theorem Node.sameAs_self {node : Node ρ}
    (hliteral : ∀ value, node = .literal value → (value == value) = true) :
    node.sameAs node = true := by
  cases node with
  | literal value => exact hliteral value rfl
  | var name => simp [Node.sameAs]
  | unary operator operand => simp [Node.sameAs]
  | binary operator left right => simp [Node.sameAs]
  | call name args => simp [Node.sameAs]
  | bare => simp [Node.sameAs]

end

theorem Expr.sameAs_of_nodes {expr other : Expr} (hnodes : other.nodes = expr.nodes)
    (hliteral : ∀ value, .literal value ∈ expr.nodes → (value == value) = true) :
    expr.sameAs other = true := by
  have hself : ∀ node ∈ expr.nodes, node.sameAs node = true := by
    intro node hnode
    apply Node.sameAs_self
    rintro value rfl
    exact hliteral value hnode
  simp only [Expr.sameAs, Expr.size, hnodes, beq_self_eq_true, Bool.true_and, List.all_eq_true]
  intro pair hpair
  obtain ⟨hfirst, hboth⟩ : pair.1 ∈ expr.nodes ∧ pair.1 = pair.2 := by
    rw [List.zip, List.zipWith_self] at hpair
    obtain ⟨node, hnode, rfl⟩ := List.mem_map.mp hpair
    exact ⟨hnode, rfl⟩
  rw [← hboth]
  exact hself _ hfirst

/-- What a token is blamed for is said without naming a place. -/
theorem message_blame (before : List Token) (token : Token) (offset other : Nat) :
    (blame before token).1.message offset = (blame before token).1.message other := by
  rw [blame, misplacedCause]
  split
  · split
    · rfl
    · split <;> rfl
  · split <;> rfl

/-- Of two lists of the same text, the second is rejected no later than the first. -/
theorem length_le_of_refused (hsame : List.Forall₂ Token.SameText tokens others)
    (hsplit : tokens = before ++ token :: after) (hother : others = placed ++ other :: behind)
    (hrefused : token.kind ≠ .eof → ¬Viable (before ++ [token]))
    (hlast : token.kind = .eof → after = []) (hviable : Viable placed) :
    placed.length ≤ before.length := by
  by_contra hlonger
  have hlt : before.length + 1 ≤ placed.length := by omega
  by_cases heof : token.kind = .eof
  · have hlength := hsame.length_eq
    rw [hsplit, hother, hlast heof] at hlength
    simp only [List.length_append, List.length_cons, List.length_nil] at hlength
    omega
  · apply hrefused heof
    have hfront : List.Forall₂ Token.SameText (before ++ [token])
        (placed.take (before.length + 1)) := by
      have htake := List.forall₂_take (before.length + 1) hsame
      rwa [hsplit, hother, List.append_cons, List.take_left' (by simp),
        List.take_append_of_le_length hlt] at htake
    have hviableTake : Viable (placed.take (before.length + 1)) := by
      rw [← List.take_append_drop (before.length + 1) placed] at hviable
      exact hviable.of_append
    exact hviableTake.of_sameText (sameText_symm hfront)

/-- Behind the end of the input stands nothing. -/
theorem eq_nil_of_split (hsplit : body ++ [eof] = before ++ token :: after)
    (hbefore : before = body) : after = [] := by
  subst hbefore
  exact (List.cons.inj (List.append_cancel_left hsplit)).2.symm

/-- Tokens of the same text fall apart at places with the same index. -/
theorem sameText_split (hsame : List.Forall₂ Token.SameText (before ++ token :: after)
    (placed ++ other :: behind)) (hlength : placed.length = before.length) :
    List.Forall₂ Token.SameText before placed ∧ Token.SameText token other := by
  have hfront := List.forall₂_take before.length hsame
  have hback := List.forall₂_drop before.length hsame
  rw [List.take_left, ← hlength, List.take_left] at hfront
  rw [List.drop_left, ← hlength, List.drop_left] at hback
  exact ⟨hfront, (List.forall₂_cons.mp hback).1⟩

section

variable (hend : eof.kind = .eof) (hbody : ∀ token ∈ body, token.kind ≠ .eof)
  (hstop : stop.kind = .eof) (hothers : ∀ token ∈ others, token.kind ≠ .eof)
  (hsame : List.Forall₂ Token.SameText (body ++ [eof]) (others ++ [stop]))

include hend hbody hstop hothers hsame

/-- Rejected tokens of the same text have the same error. -/
theorem exists_sameError {failure moved : ParseFailure}
    (hfailure : parseTokens (body ++ [eof]) first = .error failure)
    (hmoved : parseTokens (others ++ [stop]) second = .error moved) :
    ∃ error other, failure = .rejected error ∧ moved = .rejected other ∧
      SameError (body ++ [eof]) (others ++ [stop]) error other := by
  obtain ⟨before, token, after, error, hsplit, rfl, hcause, hspan, hviable, hrefused, hlast, -⟩ :=
    exists_blamed_of_parseTokens hend hbody hfailure
  obtain ⟨placed, place, behind, other, hplaced, rfl, hcauseOther, hspanOther, hviableOther,
    hrefusedOther, hlastOther, -⟩ := exists_blamed_of_parseTokens hstop hothers hmoved
  have hafter : token.kind = .eof → after = [] :=
    fun hkind => eq_nil_of_split hsplit (hlast hkind).1
  have hbehind : place.kind = .eof → behind = [] :=
    fun hkind => eq_nil_of_split hplaced (hlastOther hkind).1
  -- Whichever list is rejected first, the other one begins with the same and is rejected there.
  have hlength : placed.length = before.length := Nat.le_antisymm
    (length_le_of_refused hsame hsplit hplaced hrefused hafter hviableOther)
    (length_le_of_refused (sameText_symm hsame) hplaced hsplit hrefusedOther hbehind hviable)
  rw [hsplit, hplaced] at hsame ⊢
  obtain ⟨hfront, htoken⟩ := sameText_split hsame hlength
  obtain ⟨hcauses, hpair⟩ := blame_sameText hfront htoken
  have hcauseEq : other.cause = error.cause := by rw [hcause, hcauseOther, hcauses]
  have hmem : ((blame before token).2, (blame placed place).2) ∈
      (before ++ token :: after).zip (placed ++ place :: behind) := by
    rw [List.append_cons, List.append_cons placed, List.zip_append (by simp [hlength])]
    exact List.mem_append_left _ hpair
  obtain ⟨index, hindex⟩ := List.mem_iff_getElem?.mp hmem
  obtain ⟨hthis, hthat⟩ := List.getElem?_zip_eq_some.mp hindex
  refine ⟨error, other, rfl, rfl, hcauseEq, congrArg SyntaxError.Cause.code hcauseEq, ?_,
    index, _, _, hthis, hthat, hspan, hspanOther⟩
  change other.cause.message _ = error.cause.message _
  rw [hcauseEq, hcause]
  exact message_blame before token _ _

/-- Tokens of the same text are read the same. -/
theorem sameReading_of_sameText
    (hnumber : ∀ token ∈ body, ∀ value, token.kind = .number value → (value == value) = true) :
    SameReading (body ++ [eof]) (others ++ [stop]) (parseTokens (body ++ [eof]) first)
      (parseTokens (others ++ [stop]) second) := by
  have hwords : List.Forall₂ Token.SameText body others := by
    have hlength : others.length = body.length := by simpa using hsame.length_eq.symm
    exact (sameText_split hsame hlength).1
  have hkinds := kinds_eq hwords
  rcases parseTokens_cases hend hbody first with ⟨error, herror⟩ | ⟨tree, hexpr, hparse⟩
  · rcases parseTokens_cases hstop hothers second with ⟨other, hother⟩ | ⟨tree, hexpr, -⟩
    · obtain ⟨_, _, hfirst, hsecond, hsameError⟩ :=
        exists_sameError hend hbody hstop hothers hsame herror hother
      rw [herror, hother, hfirst, hsecond]
      exact .rejected hsameError
    · rw [parseTokens_of_derives hend hbody first (hexpr.of_kinds hkinds.symm)] at herror
      cases herror
  · rw [hparse, parseTokens_of_derives hstop hothers second (hexpr.of_kinds hkinds)]
    refine .read rfl (Expr.sameAs_of_nodes rfl ?_)
    intro value hvalue
    obtain ⟨token, htoken, hkind⟩ := hexpr.comesFrom 0 _ hvalue
    exact hnumber token htoken value hkind

end

/-- Numbers that have been scanned equal themselves. -/
theorem number_beq_self {source : String} (htokens : tokenize source = .ok tokens) :
    ∀ token ∈ tokens, ∀ value, token.kind = .number value → (value == value) = true := by
  intro token htoken value hkind
  obtain ⟨found, hscanned, rfl⟩ := exists_scanned_of_tokenize htokens
  rcases List.mem_append.mp htoken with hfound | hlast
  · have hlexeme := hscanned.lexeme_of_mem token hfound
    rw [hkind] at hlexeme
    generalize token.lexeme.toList = text at hlexeme
    cases hlexeme with
    | @number numeral _ => exact numeral.decimal.toFloat_beq_self
  · rw [List.mem_singleton.mp hlast] at hkind
    cases hkind

/-- The end of the input is the last token, and no other one. -/
theorem tokenize_concat {source : String} (htokens : tokenize source = .ok (body ++ [eof])) :
    eof = endToken source ∧ ∀ token ∈ body, token.kind ≠ .eof := by
  obtain ⟨found, hscanned, hall⟩ := exists_scanned_of_tokenize htokens
  obtain ⟨rfl, hlast⟩ := List.append_inj' hall rfl
  exact ⟨List.singleton_inj.mp hlast,
    fun token htoken => (hscanned.lexeme_of_mem token htoken).ne_eof⟩

section

variable {source : String} {pieces : List (List Char × Token)} {last : List Char}

/-- Layout never matters.  A text with the tokens of a source and any blanks between them, so that
no two words meet, has the same tokens up to their places; it is read as an expression equal to that
of the source, or rejected with the same error at the token with the same index. -/
theorem parse_laidOut (htokens : tokenize source = .ok (pieces.map Prod.snd ++ [eof]))
    (hblank : ∀ piece ∈ pieces, ∀ c ∈ piece.1, isBlank c = true)
    (hlast : ∀ c ∈ last, isBlank c = true)
    (hapart : pieces.IsChain fun first second =>
      first.2.kind.isWord = true → second.2.kind.isWord = true → second.1 ≠ []) :
    ∃ others, tokenize (String.ofList (laidOut pieces last)) = .ok others ∧
      List.Forall₂ Token.SameText (pieces.map Prod.snd ++ [eof]) others ∧
      SameReading (pieces.map Prod.snd ++ [eof]) others (parse source)
        (parse (String.ofList (laidOut pieces last))) := by
  obtain ⟨others, hothers, hwords⟩ := tokenize_laidOut htokens hblank hlast hapart
  obtain ⟨hend, hbody⟩ := tokenize_concat htokens
  have hnone := (tokenize_concat hothers).2
  have hsame : List.Forall₂ Token.SameText (pieces.map Prod.snd ++ [eof])
      (others ++ [endToken (String.ofList (laidOut pieces last))]) :=
    List.rel_append hwords (.cons ⟨hend ▸ rfl, hend ▸ rfl⟩ .nil)
  refine ⟨_, hothers, hsame, ?_⟩
  rw [parse_of_tokenize htokens, parse_of_tokenize hothers]
  exact sameReading_of_sameText (hend ▸ rfl) hbody rfl hnone hsame
    fun token htoken => number_beq_self htokens token (List.mem_append_left _ htoken)

end

/-- The tokens of `2 e +3` in another layout.  No numeral with an exponent may come of it. -/
def apartFromExponent : List (List Char × Token) :=
  [([], ⟨.number 2, "2", ⟨⟨1, 1, 0⟩, ⟨1, 2, 1⟩⟩⟩),
    (['\n'], ⟨.name "e", "e", ⟨⟨1, 3, 2⟩, ⟨1, 4, 3⟩⟩⟩),
    ([], ⟨.symbol .plus, "+", ⟨⟨1, 5, 4⟩, ⟨1, 6, 5⟩⟩⟩),
    ([' '], ⟨.number 3, "3", ⟨⟨1, 6, 5⟩, ⟨1, 7, 6⟩⟩⟩)]

theorem parse_apartFromExponent :
    laidOut apartFromExponent ['\t'] = "2\ne+ 3\t".toList ∧
    ∃ eof others, tokenize "2 e +3" = .ok (apartFromExponent.map Prod.snd ++ [eof]) ∧
      tokenize (String.ofList (laidOut apartFromExponent ['\t'])) = .ok others ∧
      List.Forall₂ Token.SameText (apartFromExponent.map Prod.snd ++ [eof]) others ∧
      SameReading (apartFromExponent.map Prod.snd ++ [eof]) others (parse "2 e +3")
        (parse (String.ofList (laidOut apartFromExponent ['\t']))) := by
  have htokens : tokenize "2 e +3" =
      .ok (apartFromExponent.map Prod.snd ++ [⟨.eof, "", ⟨⟨1, 7, 6⟩, ⟨1, 7, 6⟩⟩⟩]) := by
    decide +kernel
  have hnewline : isBlank '\n' = true := by decide
  have hspace : isBlank ' ' = true := by decide
  have hlast : ∀ c ∈ ['\t'], isBlank c = true := List.forall_mem_singleton.mpr (by decide)
  obtain ⟨others, hothers, hsame, hreading⟩ :=
    parse_laidOut htokens (by simp [apartFromExponent, hnewline, hspace]) hlast
      (by simp [apartFromExponent, Token.Kind.isWord])
  exact ⟨by decide, _, others, htokens, hothers, hsame, hreading⟩

end Reckon
