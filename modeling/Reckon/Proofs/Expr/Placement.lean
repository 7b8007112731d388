import Reckon.Proofs.Expr.Blame
import Reckon.Proofs.Token.Layout

/-
The places of tokens do not matter.  Tokens that differ in nothing but their places spell the same
expression, or the same error at the same token.
-/

namespace Reckon

open ReadState Reckon.Frame

section

variable {first second word other : List Token} {mark : Token} {phrase : Phrase} {tree : Tree}

/-- Tokens of the same kinds fall apart in the same way. -/
theorem exists_split_kinds
    (hkinds : other.map Token.kind = (first ++ mark :: second).map Token.kind) :
    ∃ front token back, other = front ++ token :: back ∧
      front.map Token.kind = first.map Token.kind ∧ token.kind = mark.kind ∧
      back.map Token.kind = second.map Token.kind := by
  rw [List.map_append, List.map_cons] at hkinds
  obtain ⟨front, behind, rfl, hfront, hbehind⟩ := List.map_eq_append_iff.mp hkinds
  obtain ⟨token, back, rfl, htoken, hback⟩ := List.map_eq_cons_iff.mp hbehind
  exact ⟨front, token, back, rfl, hfront, htoken, hback⟩

mutual

/-- A derivation depends on nothing but the kinds of the tokens. -/
theorem Derives.of_kinds {phrase : Phrase} {word : List Token} {tree : Tree} :
    Derives phrase word tree → ∀ {other : List Token},
      other.map Token.kind = word.map Token.kind → Derives phrase other tree
  | .term hterm, _, hkinds => .term (hterm.of_kinds hkinds)
  | .sum hfirst hmark hoperator hsecond, _, hkinds => by
      obtain ⟨_, _, _, rfl, hfront, htoken, hback⟩ := exists_split_kinds hkinds
      exact (hfirst.of_kinds hfront).sum (htoken.trans hmark) hoperator (hsecond.of_kinds hback)
  | .signed hsigned, _, hkinds => .signed (hsigned.of_kinds hkinds)
  | .product hfirst hmark hoperator hsecond, _, hkinds => by
      obtain ⟨_, _, _, rfl, hfront, htoken, hback⟩ := exists_split_kinds hkinds
      exact (hfirst.of_kinds hfront).product (htoken.trans hmark) hoperator
        (hsecond.of_kinds hback)
  | .sign hmark hoperator hoperand, _, hkinds => by
      obtain ⟨_, _, rfl, htoken, hback⟩ := List.map_eq_cons_iff.mp hkinds
      exact (hoperand.of_kinds hback).sign (htoken.trans hmark) hoperator
  | .power hpower, _, hkinds => .power (hpower.of_kinds hkinds)
  | .factorial hfactorial, _, hkinds => .factorial (hfactorial.of_kinds hkinds)
  | .raise hbase hmark hexponent, _, hkinds => by
      obtain ⟨_, _, _, rfl, hfront, htoken, hback⟩ := exists_split_kinds hkinds
      exact .raise (hbase.of_kinds hfront) (htoken.trans hmark) (hexponent.of_kinds hback)
  | .primary hprimary, _, hkinds => .primary (hprimary.of_kinds hkinds)
  | .bang hoperand hmark, _, hkinds => by
      obtain ⟨_, _, back, rfl, hfront, htoken, hback⟩ := exists_split_kinds hkinds
      obtain rfl := List.map_eq_nil_iff.mp hback
      exact (hoperand.of_kinds hfront).bang (htoken.trans hmark)
  | .number hkind, _, hkinds => by
      obtain ⟨_, back, rfl, htoken, hback⟩ := List.map_eq_cons_iff.mp hkinds
      obtain rfl := List.map_eq_nil_iff.mp hback
      exact .number (htoken.trans hkind)
  | .name hkind, _, hkinds => by
      obtain ⟨_, back, rfl, htoken, hback⟩ := List.map_eq_cons_iff.mp hkinds
      obtain rfl := List.map_eq_nil_iff.mp hback
      exact .name (htoken.trans hkind)
  | .emptyCall hkind hopening hclosing, _, hkinds => by
      obtain ⟨_, _, rfl, htitle, hkinds⟩ := List.map_eq_cons_iff.mp hkinds
      obtain ⟨_, _, rfl, hleft, hkinds⟩ := List.map_eq_cons_iff.mp hkinds
      obtain ⟨_, back, rfl, hright, hback⟩ := List.map_eq_cons_iff.mp hkinds
      obtain rfl := List.map_eq_nil_iff.mp hback
      exact .emptyCall (htitle.trans hkind) (hleft.trans hopening) (hright.trans hclosing)
  | .call hkind hopening hargs hclosing, _, hkinds => by
      obtain ⟨_, _, rfl, htitle, hkinds⟩ := List.map_eq_cons_iff.mp hkinds
      obtain ⟨_, _, rfl, hleft, hkinds⟩ := List.map_eq_cons_iff.mp hkinds
      obtain ⟨_, _, back, rfl, hfront, hright, hback⟩ := exists_split_kinds hkinds
      obtain rfl := List.map_eq_nil_iff.mp hback
      exact .call (htitle.trans hkind) (hleft.trans hopening) (hargs.of_kinds hfront)
        (hright.trans hclosing)
  | .group hopening hexpr hclosing, _, hkinds => by
      obtain ⟨_, _, rfl, hleft, hkinds⟩ := List.map_eq_cons_iff.mp hkinds
      obtain ⟨_, _, back, rfl, hfront, hright, hback⟩ := exists_split_kinds hkinds
      obtain rfl := List.map_eq_nil_iff.mp hback
      exact .group (hleft.trans hopening) (hexpr.of_kinds hfront) (hright.trans hclosing)

theorem DerivesArgs.of_kinds {word : List Token} {args : List Tree} :
    DerivesArgs word args → ∀ {other : List Token},
      other.map Token.kind = word.map Token.kind → DerivesArgs other args
  | .single hexpr, _, hkinds => .single (hexpr.of_kinds hkinds)
  | .more hargs hcomma hexpr, _, hkinds => by
      obtain ⟨_, _, _, rfl, hfront, htoken, hback⟩ := exists_split_kinds hkinds
      exact (hargs.of_kinds hfront).more (htoken.trans hcomma) (hexpr.of_kinds hback)

end

end

section

variable {tokens others before placed after behind : List Token} {token other : Token}
  {outer within : List Bracket} {previous earlier : Option Token}

theorem kinds_eq (hsame : List.Forall₂ Token.SameText tokens others) :
    others.map Token.kind = tokens.map Token.kind := by
  induction hsame with
  | nil => rfl
  | cons hfirst _ ih => rw [List.map_cons, List.map_cons, hfirst.1, ih]

theorem Viable.of_sameText (hviable : Viable tokens)
    (hsame : List.Forall₂ Token.SameText tokens others) : Viable others := by
  obtain ⟨more, tree, hexpr⟩ := hviable
  refine ⟨more, tree, hexpr.of_kinds ?_⟩
  rw [List.map_append, List.map_append, kinds_eq hsame]

/-- Brackets of two lists of tokens that stand at the same place in them. -/
def SameBracket (tokens others : List Token) (bracket other : Bracket) : Prop :=
  other.behindName = bracket.behindName ∧ (bracket.opening, other.opening) ∈ tokens.zip others

/-- The same parentheses are open in tokens of the same kinds. -/
theorem openFrom_sameText {all rest : List Token}
    (hsame : List.Forall₂ Token.SameText before placed)
    (hmem : ∀ pair ∈ before.zip placed, pair ∈ all.zip rest)
    (hprevious : earlier.map Token.kind = previous.map Token.kind)
    (houter : List.Forall₂ (SameBracket all rest) outer within) :
    List.Forall₂ (SameBracket all rest) (openFrom previous outer before)
      (openFrom earlier within placed) := by
  induction hsame generalizing previous earlier outer within with
  | nil => exact houter
  | @cons token other before placed hfirst _ ih =>
      have hpair : (token, other) ∈ all.zip rest := hmem _ List.mem_cons_self
      have hrest : ∀ pair ∈ before.zip placed, pair ∈ all.zip rest :=
        fun pair hin => hmem pair (List.mem_cons_of_mem _ hin)
      have hkind : (some other).map Token.kind = (some token).map Token.kind :=
        congrArg some hfirst.1
      have hname : (earlier.any fun before => before.kind.isName) =
          previous.any fun before => before.kind.isName := by
        have hany := congrArg (Option.any Token.Kind.isName) hprevious
        simpa [Option.any_map] using hany
      by_cases hleft : token.kind = .symbol .leftParen
      · rw [openFrom_opening hleft, openFrom_opening (hfirst.1.trans hleft)]
        exact ih hrest hkind (.cons ⟨hname, hpair⟩ houter)
      · by_cases hright : token.kind = .symbol .rightParen
        · rw [openFrom_closing hright, openFrom_closing (hfirst.1.trans hright)]
          refine ih hrest hkind ?_
          cases houter with
          | nil => exact .nil
          | cons _ houter => exact houter
        · rw [openFrom_cons hleft hright,
            openFrom_cons (hfirst.1 ▸ hleft) (hfirst.1 ▸ hright)]
          exact ih hrest hkind houter

theorem openBrackets_sameText (hsame : List.Forall₂ Token.SameText before placed) :
    List.Forall₂ (SameBracket before placed) (openBrackets before) (openBrackets placed) :=
  openFrom_sameText hsame (fun _ hpair => hpair) rfl .nil

/-- Tokens of the same text at the same place are blamed for the same, and the error points to the
same place. -/
theorem blame_sameText (hsame : List.Forall₂ Token.SameText before placed)
    (htoken : Token.SameText token other) :
    (blame placed other).1 = (blame before token).1 ∧
      ((blame before token).2, (blame placed other).2) ∈
        (before ++ [token]).zip (placed ++ [other]) := by
  have hlast : placed.getLast?.map Token.kind = before.getLast?.map Token.kind := by
    rw [← List.getLast?_map, ← List.getLast?_map, kinds_eq hsame]
  have hdue : operandDue placed.getLast? = operandDue before.getLast? := by
    have hall := congrArg (Option.all Token.Kind.awaitsOperand) hlast
    simpa [operandDue, Option.all_map] using hall
  have hdescribe : other.describe = token.describe := by
    rw [Token.describe, Token.describe, htoken.1, htoken.2]
  have hzip : (before ++ [token]).zip (placed ++ [other]) =
      before.zip placed ++ [(token, other)] := by
    rw [List.zip_append hsame.length_eq]
    rfl
  have hself : (token, other) ∈ before.zip placed ++ [(token, other)] := by simp
  have hmisplaced : misplacedCause (placed.getLast?.map Token.kind) other =
      misplacedCause (before.getLast?.map Token.kind) token := by
    rw [misplacedCause, misplacedCause, htoken.1, hdescribe, hlast]
  rw [hzip, blame, blame, hdue, htoken.1, hmisplaced, hdescribe]
  split
  · split
    · exact ⟨rfl, hself⟩
    · exact ⟨rfl, hself⟩
  · have hopen := openBrackets_sameText hsame
    generalize openBrackets before = outer at hopen
    generalize openBrackets placed = within at hopen
    cases hopen with
    | nil => split <;> simp_all
    | cons hbracket _ =>
        have hopening := List.mem_append_left [(token, other)] hbracket.2
        split <;> simp_all

end

end Reckon
