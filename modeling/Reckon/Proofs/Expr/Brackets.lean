import Reckon.Proofs.Expr.Soundness

/-
Matching of parentheses.  A closing parenthesis belongs to the innermost one that is open; nothing
else counts but what stands directly before an opening one.  What the reader keeps on its stack is
this: the groups among its frames are the parentheses that are open in what it has read.
-/

namespace Reckon

open ReadState Reckon.Frame

/-- An operand is due behind a token of this kind: an opening parenthesis, a comma, or an operator
that stands before an operand. -/
def Token.Kind.awaitsOperand : Token.Kind → Bool
  | .symbol .leftParen | .symbol .comma => true
  | .symbol .plus | .symbol .minus | .symbol .star => true
  | .symbol .slash | .symbol .percent | .symbol .caret => true
  | _ => false

/-- An operand is due at the beginning and behind tokens of some kinds. -/
def operandDue (previous : Option Token) : Bool :=
  previous.all fun token => token.kind.awaitsOperand

def Token.Kind.isName : Token.Kind → Bool
  | .name _ => true
  | _ => false

/-- A parenthesis that is open, and whether it stands directly behind a name. -/
structure Bracket where
  opening : Token
  behindName : Bool
deriving DecidableEq

/-- The parentheses that are open behind these tokens, the innermost first, if the tokens stand
behind another one and other parentheses are open there. -/
def openFrom (previous : Option Token) (outer : List Bracket) : List Token → List Bracket
  | [] => outer
  | token :: rest =>
      match token.kind with
      | .symbol .leftParen =>
          openFrom (some token)
            (⟨token, previous.any fun before => before.kind.isName⟩ :: outer) rest
      | .symbol .rightParen => openFrom (some token) outer.tail rest
      | _ => openFrom (some token) outer rest

def openBrackets (tokens : List Token) : List Bracket := openFrom none [] tokens

section

variable {previous : Option Token} {outer : List Bracket} {first second word : List Token}
  {token : Token} {tree : Tree}

theorem openFrom_append (first second : List Token) :
    openFrom previous outer (first ++ second) =
      openFrom (first.getLast?.or previous) (openFrom previous outer first) second := by
  induction first generalizing previous outer with
  | nil => rfl
  | cons token rest ih =>
      have hlast : (token :: rest).getLast?.or previous = rest.getLast?.or (some token) := by
        rw [List.getLast?_cons]
        cases rest.getLast? <;> rfl
      rw [hlast, List.cons_append, openFrom, openFrom]
      split <;> exact ih

/-- A token that is no parenthesis opens and closes nothing. -/
theorem openFrom_cons (hleft : token.kind ≠ .symbol .leftParen)
    (hright : token.kind ≠ .symbol .rightParen) (rest : List Token) :
    openFrom previous outer (token :: rest) = openFrom (some token) outer rest := by
  rw [openFrom]
  split <;> simp_all

theorem openFrom_opening (hleft : token.kind = .symbol .leftParen) (rest : List Token) :
    openFrom previous outer (token :: rest) =
      openFrom (some token) (⟨token, previous.any fun before => before.kind.isName⟩ :: outer)
        rest := by
  rw [openFrom, hleft]

theorem openFrom_closing (hright : token.kind = .symbol .rightParen) (rest : List Token) :
    openFrom previous outer (token :: rest) = openFrom (some token) outer.tail rest := by
  rw [openFrom, hright]

/-- What is open was open before or has been opened by one of the tokens. -/
theorem mem_of_mem_openFrom {bracket : Bracket}
    (hbracket : bracket ∈ openFrom previous outer word) :
    bracket ∈ outer ∨ bracket.opening ∈ word := by
  induction word generalizing previous outer with
  | nil => exact .inl hbracket
  | cons token rest ih =>
      rw [openFrom] at hbracket
      split at hbracket
      · rcases ih hbracket with hmem | hmem
        · rcases List.mem_cons.mp hmem with rfl | hmem
          · exact .inr List.mem_cons_self
          · exact .inl hmem
        · exact .inr (List.mem_cons_of_mem _ hmem)
      · exact (ih hbracket).imp List.mem_of_mem_tail (List.mem_cons_of_mem _)
      · exact (ih hbracket).imp id (List.mem_cons_of_mem _)

/-- Words in which all parentheses are matched leave open what has been open. -/
def Balanced (word : List Token) : Prop :=
  ∀ previous outer, openFrom previous outer word = outer

theorem Balanced.nil : Balanced [] := fun _ _ => rfl

theorem Balanced.single (hleft : token.kind ≠ .symbol .leftParen)
    (hright : token.kind ≠ .symbol .rightParen) : Balanced [token] := by
  intro previous outer
  rw [openFrom_cons hleft hright]
  rfl

theorem Balanced.append (hfirst : Balanced first) (hsecond : Balanced second) :
    Balanced (first ++ second) := by
  intro previous outer
  rw [openFrom_append, hfirst, hsecond]

theorem Balanced.cons (hleft : token.kind ≠ .symbol .leftParen)
    (hright : token.kind ≠ .symbol .rightParen) (hword : Balanced word) :
    Balanced (token :: word) :=
  (Balanced.single hleft hright).append hword

theorem openBrackets_append (hword : Balanced word) (read : List Token) :
    openBrackets (read ++ word) = openBrackets read := by
  rw [openBrackets, openFrom_append, hword]
  rfl

/-- Behind a name an opening parenthesis stays open through a balanced word. -/
theorem openFrom_call {title opening : Token} {name : String} (htitle : title.kind = .name name)
    (hopening : opening.kind = .symbol .leftParen) (hword : Balanced word) :
    openFrom previous outer (title :: opening :: word) = ⟨opening, true⟩ :: outer := by
  rw [openFrom_cons (by simp [htitle]) (by simp [htitle]), openFrom_opening hopening, hword]
  simp [htitle, Token.Kind.isName]

theorem Balanced.enclosed {opening closing : Token} (hopening : opening.kind = .symbol .leftParen)
    (hword : Balanced word) (hclosing : closing.kind = .symbol .rightParen) :
    Balanced (opening :: word ++ [closing]) := by
  intro previous outer
  rw [List.cons_append, openFrom_opening hopening, openFrom_append, hword,
    openFrom_closing hclosing]
  rfl

end

namespace Operator

variable {symbol : Symbol} {operator : Operator}

/-- An operand is due behind an operator that stands between operands, and it is no parenthesis. -/
theorem awaitsOperand_of_binaryOf? (hoperator : binaryOf? symbol = some operator) :
    (Token.Kind.symbol symbol).awaitsOperand = true ∧ symbol ≠ .leftParen ∧
      symbol ≠ .rightParen := by
  cases symbol <;> simp_all [binaryOf?, Token.Kind.awaitsOperand]

/-- An operand is due behind a sign, and a sign is no parenthesis. -/
theorem awaitsOperand_of_sign (hoperator : (symbol, operator) ∈ signs) :
    (Token.Kind.symbol symbol).awaitsOperand = true ∧ symbol ≠ .leftParen ∧
      symbol ≠ .rightParen := by
  cases symbol <;> simp_all [signs, Token.Kind.awaitsOperand]

end Operator

/-- An operator between balanced words makes them one. -/
theorem Balanced.binary {first second : List Token} {mark : Token} {symbol : Symbol}
    {operator : Operator} (hfirst : Balanced first) (hmark : mark.kind = .symbol symbol)
    (hoperator : Operator.binaryOf? symbol = some operator) (hsecond : Balanced second) :
    Balanced (first ++ mark :: second) := by
  obtain ⟨-, hleft, hright⟩ := Operator.awaitsOperand_of_binaryOf? hoperator
  exact hfirst.append (hsecond.cons (by simp [hmark, hleft]) (by simp [hmark, hright]))

mutual

/-- The parentheses of a phrase match. -/
theorem Derives.balanced {phrase : Phrase} {word : List Token} {tree : Tree} :
    Derives phrase word tree → Balanced word
  | .term hterm => hterm.balanced
  | .sum hfirst hmark hoperator hsecond =>
      hfirst.balanced.binary hmark (Operator.binaryOf?_of_additive hoperator).1 hsecond.balanced
  | .signed hsigned => hsigned.balanced
  | .product hfirst hmark hoperator hsecond =>
      hfirst.balanced.binary hmark (Operator.binaryOf?_of_multiplicative hoperator).1
        hsecond.balanced
  | .sign hmark hoperator hoperand =>
      have hplain := (Operator.awaitsOperand_of_sign hoperator).2
      hoperand.balanced.cons (by simp [hmark, hplain.1]) (by simp [hmark, hplain.2])
  | .power hpower => hpower.balanced
  | .factorial hfactorial => hfactorial.balanced
  | .raise hbase hmark hexponent =>
      hbase.balanced.binary hmark (show Operator.binaryOf? .caret = some .pow from rfl)
        hexponent.balanced
  | .primary hprimary => hprimary.balanced
  | .bang hoperand hmark =>
      hoperand.balanced.append (.single (by simp [hmark]) (by simp [hmark]))
  | .number hkind => .single (by simp [hkind]) (by simp [hkind])
  | .name hkind => .single (by simp [hkind]) (by simp [hkind])
  | .emptyCall hkind hopening hclosing =>
      Balanced.cons (by simp [hkind]) (by simp [hkind]) (.enclosed hopening .nil hclosing)
  | .call hkind hopening hargs hclosing =>
      Balanced.cons (by simp [hkind]) (by simp [hkind])
        (.enclosed hopening hargs.balanced hclosing)
  | .group hopening hexpr hclosing => .enclosed hopening hexpr.balanced hclosing

theorem DerivesArgs.balanced {word : List Token} {args : List Tree} :
    DerivesArgs word args → Balanced word
  | .single hexpr => hexpr.balanced
  | .more hargs hcomma hexpr =>
      hargs.balanced.append (hexpr.balanced.cons (by simp [hcomma]) (by simp [hcomma]))

end

section

variable {read word : List Token} {frames : List Frame} {tree : Tree} {token last : Token}

theorem operandDue_concat (read : List Token) (last : Token) :
    operandDue (read ++ [last]).getLast? = last.kind.awaitsOperand := by
  rw [List.getLast?_concat]
  rfl

/-- Where no operand is due behind a word, none is due behind more that ends with it. -/
theorem operandDue_append (read : List Token) (hword : operandDue word.getLast? = false) :
    operandDue (read ++ word).getLast? = false := by
  rw [List.getLast?_append]
  cases hlast : word.getLast? with
  | none => rw [hlast] at hword; cases hword
  | some last => rwa [hlast] at hword

/-- No operand is due behind a phrase. -/
theorem Derives.operandDue {phrase : Phrase} {word : List Token} {tree : Tree} :
    Derives phrase word tree → operandDue word.getLast? = false
  | .term hterm => hterm.operandDue
  | .sum _ _ _ hsecond => by
      rw [List.append_cons]
      exact operandDue_append _ hsecond.operandDue
  | .signed hsigned => hsigned.operandDue
  | .product _ _ _ hsecond => by
      rw [List.append_cons]
      exact operandDue_append _ hsecond.operandDue
  | .sign _ _ hoperand => operandDue_append [_] hoperand.operandDue
  | .power hpower => hpower.operandDue
  | .factorial hfactorial => hfactorial.operandDue
  | .raise _ _ hexponent => by
      rw [List.append_cons]
      exact operandDue_append _ hexponent.operandDue
  | .primary hprimary => hprimary.operandDue
  | .bang _ hmark => by rw [operandDue_concat, hmark]; rfl
  | .number hkind => by rw [← List.nil_append [_], operandDue_concat, hkind]; rfl
  | .name hkind => by rw [← List.nil_append [_], operandDue_concat, hkind]; rfl
  | .emptyCall _ _ hclosing => by
      rw [← List.singleton_append, List.append_cons, operandDue_concat, hclosing]
      rfl
  | .call _ _ _ hclosing => by rw [operandDue_concat, hclosing]; rfl
  | .group _ _ hclosing => by rw [operandDue_concat, hclosing]; rfl

/-- No operand is due behind the arguments of a call. -/
theorem DerivesArgs.operandDue {args : List Tree} :
    DerivesArgs word args → operandDue word.getLast? = false
  | .single hexpr => hexpr.operandDue
  | .more _ _ hexpr => by
      rw [List.append_cons]
      exact operandDue_append _ hexpr.operandDue

namespace Frame

/-- The parentheses that are open in frames. -/
def brackets : List Frame → List Bracket
  | [] => []
  | .sign _ _ :: rest => brackets rest
  | .binary _ _ _ :: rest => brackets rest
  | .group opening :: rest => ⟨opening, false⟩ :: brackets rest
  | .call opening _ _ :: rest => ⟨opening, true⟩ :: brackets rest

/-- A collapse closes no parenthesis. -/
theorem brackets_collapse (binds : Operator → Bool) (frames : List Frame) (tree : Tree) :
    brackets (collapse binds frames tree).1 = brackets frames := by
  induction frames generalizing tree with
  | nil => rfl
  | cons frame rest ih =>
      cases frame with
      | sign operator hsign =>
          rw [collapse]
          split
          · exact ih _
          · rfl
      | binary operator hbinary left =>
          rw [collapse]
          split
          · exact ih _
          · rfl
      | group opening => rfl
      | call opening name args => rfl

/-- Once all operators are applied, a parenthesis waits or nothing does. -/
theorem collapseAll_cases (frames : List Frame) (tree : Tree) :
    ∃ operand, collapseAll frames tree = ([], operand) ∨
      (∃ opening rest, collapseAll frames tree = (.group opening :: rest, operand)) ∨
      ∃ opening name args rest,
        collapseAll frames tree = (.call opening name args :: rest, operand) := by
  have hwaiting := waiting?_collapseAll frames tree
  match hframes : collapseAll frames tree with
  | ([], operand) => exact ⟨operand, .inl rfl⟩
  | (.group opening :: rest, operand) => exact ⟨operand, .inr (.inl ⟨_, _, rfl⟩)⟩
  | (.call opening name args :: rest, operand) => exact ⟨operand, .inr (.inr ⟨_, _, _, _, rfl⟩)⟩
  | (.sign operator hsign :: rest, operand) => simp [hframes, waiting?] at hwaiting
  | (.binary operator hbinary left :: rest, operand) => simp [hframes, waiting?] at hwaiting

end Frame

namespace Opened

/-- An operand is due behind what has been read for frames. -/
theorem operandDue (hopened : Opened read frames) : operandDue read.getLast? = true := by
  cases hopened with
  | start => rfl
  | sign _ hmark hoperator _ =>
      rw [operandDue_concat, hmark]
      exact (Operator.awaitsOperand_of_sign hoperator).1
  | binary _ _ hmark hoperator _ _ =>
      rw [operandDue_concat, hmark]
      exact (Operator.awaitsOperand_of_binaryOf? hoperator).1
  | group _ hopening =>
      rw [operandDue_concat, hopening]
      rfl
  | call _ _ hopening =>
      rw [List.append_cons, operandDue_concat, hopening]
      rfl
  | next _ _ _ _ hcomma =>
      rw [operandDue_concat, hcomma]
      rfl

/-- What stands before a parenthesis where an operand is due is no name. -/
theorem not_behindName (hopened : Opened read frames) :
    (read.getLast?.any fun before => before.kind.isName) = false := by
  have hdue := hopened.operandDue
  cases hlast : read.getLast? with
  | none => rfl
  | some last =>
      rw [hlast] at hdue
      revert hdue
      simp only [Reckon.operandDue, Option.all_some, Option.any_some]
      cases last.kind <;> simp [Token.Kind.awaitsOperand, Token.Kind.isName]

/-- The parentheses that are open in what has been read are the groups among the frames. -/
theorem openBrackets_eq (hopened : Opened read frames) : openBrackets read = brackets frames := by
  induction hopened with
  | start => rfl
  | sign hopened hmark hoperator hsign ih =>
      obtain ⟨-, hleft, hright⟩ := Operator.awaitsOperand_of_sign hoperator
      rw [openBrackets_append (.single (by simp [hmark, hleft]) (by simp [hmark, hright])), ih]
      rfl
  | binary hopened hleft hmark hoperator _ _ ih =>
      have hword := hleft.balanced.binary hmark hoperator .nil
      rw [List.append_assoc, openBrackets_append hword, ih]
      rfl
  | group hopened hopening ih =>
      rw [openBrackets, openFrom_append, openFrom_opening hopening, Option.or_none,
        hopened.not_behindName, ← openBrackets, ih]
      rfl
  | call hopened hkind hopening ih =>
      rw [openBrackets, openFrom_append, openFrom_call hkind hopening .nil, ← openBrackets, ih]
      rfl
  | @next read word frames token opening comma name args hopened hkind hopening hargs hcomma ih =>
      have hcommaAlone : Balanced [comma] := .single (by simp [hcomma]) (by simp [hcomma])
      have hargs := hargs.balanced.append hcommaAlone
      rw [List.append_assoc, openBrackets, openFrom_append, List.cons_append, List.cons_append,
        openFrom_call hkind hopening hargs, ← openBrackets, ih]
      rfl

/-- A parenthesis directly behind a name begins the arguments of a call. -/
theorem exists_call {title opening : Token} (hopened : Opened (read ++ [title] ++ [opening]) frames)
    (htitle : title.kind.isName = true) (hopening : opening.kind = .symbol .leftParen) :
    ∃ name args rest, frames = .call opening name args :: rest := by
  generalize hread : read ++ [title] ++ [opening] = whole at hopened
  have hlast : ∀ {before last}, read ++ [title] ++ [opening] = before ++ [last] →
      before = read ++ [title] ∧ last = opening := by
    intro before last hsplit
    obtain ⟨hbefore, hlast⟩ := List.append_inj' hsplit rfl
    exact ⟨hbefore.symm, (List.singleton_inj.mp hlast).symm⟩
  cases hopened with
  | start => simp at hread
  | sign _ hmark hoperator _ =>
      obtain ⟨-, hleft, -⟩ := Operator.awaitsOperand_of_sign hoperator
      rw [(hlast hread).2, hopening] at hmark
      cases hmark
      exact absurd rfl hleft
  | binary _ _ hmark hoperator _ _ =>
      obtain ⟨-, hleft, -⟩ := Operator.awaitsOperand_of_binaryOf? hoperator
      rw [(hlast hread).2, hopening] at hmark
      cases hmark
      exact absurd rfl hleft
  | group hopened _ =>
      have hplain := hopened.not_behindName
      rw [(hlast hread).1, List.getLast?_concat, Option.any_some, htitle] at hplain
      cases hplain
  | @call before frames other bracket name _ _ _ =>
      rw [(hlast (hread.trans (List.append_cons before other [bracket]))).2]
      exact ⟨_, _, _, rfl⟩
  | next _ _ _ _ hcomma =>
      rw [(hlast hread).2, hopening] at hcomma
      cases hcomma

end Opened

end

end Reckon
