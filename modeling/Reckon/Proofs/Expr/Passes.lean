import Reckon.Expr.OfTokens
import Reckon.Proofs.Expr.Frame
import Reckon.Proofs.Expr.Grammar

/-
What one pass of the reader does, for every kind of token, where its stacks are those of some
frames.
-/

namespace Reckon

namespace ReadState

/-- An operand is due within these frames. -/
def awaiting (position : Nat) (frames : List Frame) : ReadState :=
  ⟨position, Frame.work frames, Frame.entries frames, .operand⟩

/-- An operand has just been read within these frames. -/
def holding (position : Nat) (frames : List Frame) (tree : Tree) : ReadState :=
  ⟨position, (Frame.work frames).add tree, Frame.entries frames, .operator⟩

variable {tokens : Array Token} {position : Nat} {frames rest : List Frame} {tree operand : Tree}
  {token next opening : Token}

theorem tokenAt?_of_getElem? (htoken : tokens[position]? = some token) :
    tokenAt? tokens position = some token := by
  simp [tokenAt?, htoken]

theorem isEof_eq_false (hkind : token.kind ≠ .eof) : token.isEof = false := by
  simp [Token.isEof, hkind]

theorem step_awaiting (htoken : tokens[position]? = some token) (hkind : token.kind ≠ .eof) :
    step tokens (awaiting position frames) =
      (takeOperand tokens (awaiting (position + 1) frames) token).map .inl := by
  simp [step, awaiting, tokenAt?_of_getElem? htoken, isEof_eq_false hkind]

theorem step_holding (htoken : tokens[position]? = some token) (hkind : token.kind ≠ .eof) :
    step tokens (holding position frames tree) =
      (takeOperator (holding (position + 1) frames tree) token).map .inl := by
  simp [step, holding, tokenAt?_of_getElem? htoken, isEof_eq_false hkind]

theorem step_number (htoken : tokens[position]? = some token) {value : Float}
    (hkind : token.kind = .number value) :
    step tokens (awaiting position frames) =
      .ok (.inl (holding (position + 1) frames (.literal value))) := by
  rw [step_awaiting htoken (by simp [hkind])]
  simp only [takeOperand, hkind]
  simp [pushOperand, awaiting, holding, Work.push_literal]
  rfl

theorem step_var (htoken : tokens[position]? = some token) {name : String}
    (hkind : token.kind = .name name) (hnext : tokens[position + 1]? = some next)
    (hparen : next.kind ≠ .symbol .leftParen) :
    step tokens (awaiting position frames) =
      .ok (.inl (holding (position + 1) frames (.var name))) := by
  rw [step_awaiting htoken (by simp [hkind])]
  simp only [takeOperand, hkind]
  simp [pushOperand, awaiting, holding, Work.push_var, tokenAt?_of_getElem? hnext, hparen]
  rfl

theorem step_call (htoken : tokens[position]? = some token) {name : String}
    (hkind : token.kind = .name name) (hnext : tokens[position + 1]? = some next)
    (hparen : next.kind = .symbol .leftParen) :
    step tokens (awaiting position frames) =
      .ok (.inl (awaiting (position + 2) (.call next name [] :: frames))) := by
  rw [step_awaiting htoken (by simp [hkind])]
  simp only [takeOperand, hkind]
  simp [pushEntry, awaiting, tokenAt?_of_getElem? hnext, hparen, Frame.work, Frame.entries,
    Tree.roots, Work.addArgs, Tree.listings]
  rfl

theorem step_group (htoken : tokens[position]? = some token)
    (hkind : token.kind = .symbol .leftParen) :
    step tokens (awaiting position frames) =
      .ok (.inl (awaiting (position + 1) (.group token :: frames))) := by
  rw [step_awaiting htoken (by simp [hkind])]
  simp only [takeOperand, hkind]
  rfl

theorem step_sign (htoken : tokens[position]? = some token) {mark : Symbol}
    {operator : Operator} (hkind : token.kind = .symbol mark)
    (hleading : Operator.leadingOf? mark = some operator)
    (hsign : operator = .neg ∨ operator = .pos) :
    step tokens (awaiting position frames) =
      .ok (.inl (awaiting (position + 1) (.sign operator hsign :: frames))) := by
  have hparen : mark ≠ .leftParen := by
    rintro rfl
    simp [Operator.leadingOf?] at hleading
  rw [step_awaiting htoken (by simp [hkind])]
  simp only [takeOperand, hkind, hleading]
  rfl

theorem tokenBefore?_zero : tokenBefore? tokens (awaiting 1 frames) = .ok none := rfl

theorem tokenBefore?_succ (htoken : tokens[position]? = some token) :
    tokenBefore? tokens (awaiting (position + 2) frames) = .ok (some token) := by
  simp [tokenBefore?, awaiting, htoken]

theorem step_emptyCall (hopening : tokens[position]? = some opening)
    (hparen : opening.kind = .symbol .leftParen) (htoken : tokens[position + 1]? = some token)
    (hkind : token.kind = .symbol .rightParen) {first : Token} {name : String} :
    step tokens (awaiting (position + 1) (.call first name [] :: frames)) =
      .ok (.inl (holding (position + 2) frames (.call name []))) := by
  have hwork : (Frame.work frames).addArgs [] = Frame.work frames := by
    simp [Work.addArgs, Tree.listings]
  have hpush := (Frame.work frames).push_call name []
  rw [hwork] at hpush
  rw [step_awaiting htoken (by simp [hkind])]
  simp only [takeOperand, hkind, Operator.leadingOf?, takeMisplaced, tokenBefore?_succ hopening,
    bind, Except.bind]
  simp [awaiting, Frame.entries, Frame.work, hwork, hparen, pushOperand, holding, ← hpush,
    Tree.roots, pure, Except.pure, Except.map]

/-- What is said of a token that begins no operand, by the kind of the token before it. -/
def misplacedCause (before : Option Token.Kind) (token : Token) : SyntaxError.Cause :=
  if (token.kind = .symbol .rightParen ∨ token.kind = .symbol .comma) ∧
      (before = some (.symbol .leftParen) ∨ before = some (.symbol .comma)) then .missingArgument
  else .unexpectedToken .operand token.describe

theorem rejectUnexpected_of_ne_eof {α : Type} (expected : Expectation)
    (hkind : token.kind ≠ .eof) :
    (rejectUnexpected expected token : Except ParseFailure α) =
      reject (.unexpectedToken expected token.describe) token := by
  simp [rejectUnexpected, isEof_eq_false hkind]

theorem takeMisplaced_eq_reject {state : ReadState} {before : Option Token} {mark : Symbol}
    (hbefore : tokenBefore? tokens state = .ok before) (hkind : token.kind = .symbol mark)
    (hcall : mark = .rightParen → before.map Token.kind = some (.symbol .leftParen) →
      ∀ opening name args rest, state.stack ≠ .group ⟨opening, some (name, args)⟩ :: rest) :
    takeMisplaced tokens state token =
      reject (misplacedCause (before.map Token.kind) token) token := by
  simp only [takeMisplaced, hbefore, bind, Except.bind,
    rejectUnexpected_of_ne_eof .operand (show token.kind ≠ .eof by simp [hkind]), misplacedCause]
  generalize before.map Token.kind = kind at hcall
  split
  · rename_i opening name args rest hmark hstack
    have hparen : kind ≠ some (.symbol .leftParen) := by
      intro hparen
      exact hcall (by simpa [hkind] using hmark) hparen _ _ _ _ hstack
    by_cases hcomma : kind = some (.symbol .comma) <;> simp_all
  · rename_i hmark _
    by_cases hslot : kind = some (.symbol .leftParen) ∨ kind = some (.symbol .comma) <;>
      simp [hmark, hslot]
  · rename_i hmark
    by_cases hslot : kind = some (.symbol .leftParen) ∨ kind = some (.symbol .comma) <;>
      simp [hmark, hslot]
  · rename_i hright hcomma
    simp_all

theorem step_misplaced (htoken : tokens[position]? = some token) {mark : Symbol}
    (hkind : token.kind = .symbol mark) (hleading : Operator.leadingOf? mark = none)
    (hparen : mark ≠ .leftParen) {before : Option Token}
    (hbefore : tokenBefore? tokens (awaiting (position + 1) frames) = .ok before)
    (hcall : mark = .rightParen → before.map Token.kind = some (.symbol .leftParen) →
      ∀ opening name args rest, frames ≠ .call opening name args :: rest) :
    step tokens (awaiting position frames) =
      reject (misplacedCause (before.map Token.kind) token) token := by
  rw [step_awaiting htoken (by simp [hkind])]
  simp only [takeOperand, hkind, hleading]
  rw [takeMisplaced_eq_reject hbefore hkind]
  · rfl
  · intro hmark hopening opening name args rest hstack
    match frames, hstack with
    | .call first title params :: more, _ => exact hcall hmark hopening first title params more rfl

/-- At the end of the input an operand cannot begin. -/
theorem step_awaiting_eof (htoken : tokens[position]? = some token) (hkind : token.kind = .eof) :
    step tokens (awaiting position frames) = reject (.unexpectedEnd .operand) token := by
  simp [step, awaiting, tokenAt?_of_getElem? htoken, Token.isEof, hkind, takeOperand,
    rejectUnexpected, reject, Except.map]

theorem step_bang (htoken : tokens[position]? = some token) (hkind : token.kind = .symbol .bang) :
    step tokens (holding position frames tree) =
      .ok (.inl (holding (position + 1) frames (.unary .fact tree))) := by
  rw [step_holding htoken (by simp [hkind])]
  simp only [takeOperator, hkind, Operator.trailingOf?, holding,
    Work.apply_unary (show Operator.fact.isUnary = true from rfl)]
  rfl

theorem takeOperator_binary {state : ReadState} {mark : Symbol} {operator : Operator}
    (hkind : token.kind = .symbol mark) (hoperator : Operator.binaryOf? mark = some operator) :
    state.takeOperator token = (do
      let (work, stack) ← state.work.applyBefore operator state.stack
      return { state with work, stack }.pushEntry (.operator operator)) := by
  cases mark <;> simp_all [takeOperator, Operator.binaryOf?, Operator.trailingOf?]

theorem step_binary (htoken : tokens[position]? = some token) {mark : Symbol}
    {operator : Operator} (hkind : token.kind = .symbol mark)
    (hoperator : Operator.binaryOf? mark = some operator)
    (hcollapse : Frame.collapse (Work.bindsBefore · operator) frames tree = (rest, operand)) :
    step tokens (holding position frames tree) =
      .ok (.inl (awaiting (position + 1)
        (.binary operator (Operator.isUnary_of_binaryOf? hoperator) operand :: rest))) := by
  rw [step_holding htoken (by simp [hkind]), takeOperator_binary hkind hoperator]
  simp only [holding, Work.applyBefore_eq_collapse, hcollapse]
  rfl

/-- Where a parenthesis closes, the frames in it have become one operand. -/
theorem step_closeGroup (htoken : tokens[position]? = some token)
    (hkind : token.kind = .symbol .rightParen)
    (hcollapse : Frame.collapseAll frames tree = (.group opening :: rest, operand)) :
    step tokens (holding position frames tree) =
      .ok (.inl (holding (position + 1) rest operand)) := by
  rw [step_holding htoken (by simp [hkind])]
  simp only [takeOperator, hkind, takeClosing, holding, Work.closeGroup_of_group hcollapse]
  rfl

theorem step_closeCall (htoken : tokens[position]? = some token)
    (hkind : token.kind = .symbol .rightParen) {name : String} {args : List Tree}
    (hcollapse : Frame.collapseAll frames tree = (.call opening name args :: rest, operand)) :
    step tokens (holding position frames tree) =
      .ok (.inl (holding (position + 1) rest (.call name (args ++ [operand])))) := by
  rw [step_holding htoken (by simp [hkind])]
  simp only [takeOperator, hkind, takeClosing, holding, Work.closeGroup_of_call hcollapse,
    bind, Except.bind]
  rw [← Work.push_call, ← Work.addArgs_concat, ← Work.roots_concat]
  rfl

theorem step_unmatched (htoken : tokens[position]? = some token)
    (hkind : token.kind = .symbol .rightParen)
    (hcollapse : Frame.collapseAll frames tree = ([], operand)) :
    step tokens (holding position frames tree) = reject .unmatchedParenthesis token := by
  rw [step_holding htoken (by simp [hkind])]
  simp only [takeOperator, hkind, takeClosing, holding, Work.closeGroup_of_nil hcollapse]
  rfl

theorem step_comma (htoken : tokens[position]? = some token)
    (hkind : token.kind = .symbol .comma) {name : String} {args : List Tree}
    (hcollapse : Frame.collapseAll frames tree = (.call opening name args :: rest, operand)) :
    step tokens (holding position frames tree) =
      .ok (.inl (awaiting (position + 1) (.call opening name (args ++ [operand]) :: rest))) := by
  rw [step_holding htoken (by simp [hkind])]
  simp only [takeOperator, hkind, takeComma, holding, Work.closeGroup_of_call hcollapse,
    bind, Except.bind, awaiting, Frame.work, Frame.entries]
  rw [← Work.addArgs_concat, ← Work.roots_concat]
  rfl

/-- A comma is misplaced outside the arguments of a call. -/
theorem step_comma_misplaced (htoken : tokens[position]? = some token)
    (hkind : token.kind = .symbol .comma)
    (hcollapse : ∀ opening name args rest operand,
      Frame.collapseAll frames tree ≠ (.call opening name args :: rest, operand)) :
    step tokens (holding position frames tree) =
      reject (.unexpectedToken .operatorOrClosing token.describe) token := by
  rw [step_holding htoken (by simp [hkind])]
  have hwaiting := Frame.waiting?_collapseAll frames tree
  simp only [takeOperator, hkind, takeComma, holding,
    rejectUnexpected_of_ne_eof .operatorOrClosing (show token.kind ≠ .eof by simp [hkind])]
  match hframes : Frame.collapseAll frames tree with
  | ([], operand) =>
      rw [Work.closeGroup_of_nil hframes]
      rfl
  | (.group opening :: rest, operand) =>
      rw [Work.closeGroup_of_group hframes]
      rfl
  | (.call opening name args :: rest, operand) =>
      exact absurd hframes (hcollapse opening name args rest operand)
  | (.sign operator hsign :: rest, operand) => simp [hframes, Frame.waiting?] at hwaiting
  | (.binary operator hbinary left :: rest, operand) =>
      simp [hframes, Frame.waiting?] at hwaiting

/-- Behind an operand no other can begin. -/
theorem step_holding_misplaced (htoken : tokens[position]? = some token)
    (hkind : token.kind = .symbol .leftParen ∨ (∃ value, token.kind = .number value) ∨
      ∃ name, token.kind = .name name) :
    step tokens (holding position frames tree) =
      reject (.unexpectedToken .operator token.describe) token := by
  have heof : token.kind ≠ .eof := by
    rcases hkind with hkind | ⟨value, hkind⟩ | ⟨name, hkind⟩ <;> simp [hkind]
  rw [step_holding htoken heof]
  rcases hkind with hkind | ⟨value, hkind⟩ | ⟨name, hkind⟩ <;>
    simp [takeOperator, hkind, rejectUnexpected_of_ne_eof .operator heof, Operator.trailingOf?,
      Operator.binaryOf?, reject, Except.map]

theorem step_holding_eof (htoken : tokens[position]? = some token) (hkind : token.kind = .eof) :
    step tokens (holding position frames tree) =
      (((Frame.work frames).add tree).finish (Frame.entries frames)).map fun work =>
        .inr work.nodes := by
  simp [step, holding, tokenAt?_of_getElem? htoken, Token.isEof, hkind]

theorem step_finish (htoken : tokens[position]? = some token) (hkind : token.kind = .eof)
    (hcollapse : Frame.collapseAll frames tree = ([], operand)) :
    step tokens (holding position frames tree) =
      .ok (.inr (operand.listing 0).toArray) := by
  rw [step_holding_eof htoken hkind, Work.finish_of_nil hcollapse]
  simp [Except.map, Work.add, Work.start]

end ReadState

end Reckon
