import Reckon.Expr.Pending
import Reckon.Token.Scan

/-
Reading expressions by operator precedence.  The reader expects an operand and an operator in
turn.  A name directly before an opening parenthesis is a call.  From the loosest to the tightest:

    + -    * / %    - + in front    ^ (to the right)    ! behind

A list of tokens should end in the end of the input.  If it does not, its last token is read
again and again, which ends in an error or never.
-/

namespace Reckon

inductive Expecting
  | operand
  | operator
deriving DecidableEq, Repr

/-- The position of the next token, and what waits. -/
structure ReadState where
  position : Nat
  work : Work
  stack : List Entry
  expecting : Expecting
deriving DecidableEq

namespace ReadState

def start : ReadState := ⟨0, Work.start, [], .operand⟩

/-- The token at a position, the last one behind the end. -/
def tokenAt? (tokens : Array Token) (position : Nat) : Option Token :=
  match tokens[position]? with
  | some token => some token
  | none => tokens.back?

def reject {α : Type} (cause : SyntaxError.Cause) (token : Token) : Except ParseFailure α :=
  .error (.rejected ⟨cause, token.span, none⟩)

def rejectUnexpected {α : Type} (expected : Expectation) (token : Token) :
    Except ParseFailure α :=
  if token.isEof then reject (.unexpectedEnd expected) token
  else reject (.unexpectedToken expected token.describe) token

/-- The token two places back, which stands before the one just taken. -/
def tokenBefore? (tokens : Array Token) (state : ReadState) :
    Except ParseFailure (Option Token) :=
  if state.position < 2 then .ok none
  else match tokens[state.position - 2]? with
    | some token => .ok (some token)
    | none => .error .noTokenBefore

def pushOperand (state : ReadState) (node : Node Nat) : ReadState :=
  { state with work := state.work.push node, expecting := .operator }

def pushEntry (state : ReadState) (entry : Entry) : ReadState :=
  { state with stack := entry :: state.stack, expecting := .operand }

/-- A token that begins no operand: the end of a call without arguments, or an error. -/
def takeMisplaced (tokens : Array Token) (state : ReadState) (token : Token) :
    Except ParseFailure ReadState := do
  let before := (← tokenBefore? tokens state).map Token.kind
  let afterOpening := before = some (.symbol .leftParen)
  let emptySlot := afterOpening ∨ before = some (.symbol .comma)
  match token.kind, state.stack with
  | .symbol .rightParen, .group ⟨_, some (name, _)⟩ :: rest =>
      if afterOpening then return { state with stack := rest }.pushOperand (.call name [])
      else if emptySlot then reject .missingArgument token
      else rejectUnexpected .operand token
  | .symbol .rightParen, _ =>
      if emptySlot then reject .missingArgument token else rejectUnexpected .operand token
  | .symbol .comma, _ =>
      if emptySlot then reject .missingArgument token else rejectUnexpected .operand token
  | _, _ => rejectUnexpected .operand token

/-- Takes a token where an operand is due. -/
def takeOperand (tokens : Array Token) (state : ReadState) (token : Token) :
    Except ParseFailure ReadState :=
  match token.kind with
  | .number value => .ok (state.pushOperand (.literal value))
  | .name name =>
      match tokenAt? tokens state.position with
      | some opening =>
          if opening.kind = .symbol .leftParen then
            .ok ({ state with position := state.position + 1 }.pushEntry
              (.group ⟨opening, some (name, [])⟩))
          else .ok (state.pushOperand (.var name))
      | none => .ok (state.pushOperand (.var name))
  | .symbol .leftParen => .ok (state.pushEntry (.group ⟨token, none⟩))
  | .symbol mark =>
      match Operator.leadingOf? mark with
      | some operator => .ok (state.pushEntry (.operator operator))
      | none => takeMisplaced tokens state token
  | .eof => rejectUnexpected .operand token

/-- Closes the innermost group.  A call takes its last argument and becomes an operand. -/
def takeClosing (state : ReadState) (token : Token) : Except ParseFailure ReadState := do
  match ← state.work.closeGroup state.stack with
  | (none, _, _) => reject .unmatchedParenthesis token
  | (some ⟨_, none⟩, work, stack) => return { state with work, stack }
  | (some ⟨_, some (name, args)⟩, work, stack) =>
      let (operand, work) ← work.pop
      return { state with work := work.push (.call name (args ++ [operand])), stack }

/-- Ends an argument.  Only a call has any. -/
def takeComma (state : ReadState) (token : Token) : Except ParseFailure ReadState := do
  match ← state.work.closeGroup state.stack with
  | (some ⟨opening, some (name, args)⟩, work, stack) =>
      let (operand, work) ← work.pop
      return { state with work, stack }.pushEntry
        (.group ⟨opening, some (name, args ++ [operand])⟩)
  | _ => rejectUnexpected .operatorOrClosing token

/-- Takes a token other than the end of the input where an operator is due. -/
def takeOperator (state : ReadState) (token : Token) : Except ParseFailure ReadState :=
  match token.kind with
  | .symbol .rightParen => state.takeClosing token
  | .symbol .comma => state.takeComma token
  | .symbol mark =>
      match Operator.trailingOf? mark, Operator.binaryOf? mark with
      | some operator, _ => do
          let work ← state.work.apply operator
          return { state with work }
      | none, some operator => do
          let (work, stack) ← state.work.applyBefore operator state.stack
          return { state with work, stack }.pushEntry (.operator operator)
      | none, none => rejectUnexpected .operator token
  | _ => rejectUnexpected .operator token

/-- One pass: the state after the next token, or the nodes if that is the end of the input. -/
def step (tokens : Array Token) (state : ReadState) :
    Except ParseFailure (ReadState ⊕ Array (Node Nat)) :=
  match tokenAt? tokens state.position with
  | none => .error .noTokens
  | some token =>
      let after : ReadState :=
        if token.isEof then state else { state with position := state.position + 1 }
      match state.expecting with
      | .operand => (after.takeOperand tokens token).map .inl
      | .operator =>
          if token.isEof then (state.work.finish state.stack).map fun work => .inr work.nodes
          else (after.takeOperator token).map .inl

/-- At most this many passes; nothing if they do not come to an end. -/
def run (tokens : Array Token) : Nat → ReadState → Option (Except ParseFailure (Array (Node Nat)))
  | 0, _ => none
  | passes + 1, state =>
      match step tokens state with
      | .error failure => some (.error failure)
      | .ok (.inr nodes) => some (.ok nodes)
      | .ok (.inl next) => run tokens passes next

/-- A result that is there after some passes stays the same with more. -/
theorem run_add {tokens : Array Token} {passes : Nat} {state : ReadState}
    {result : Except ParseFailure (Array (Node Nat))}
    (hresult : run tokens passes state = some result) (more : Nat) :
    run tokens (passes + more) state = some result := by
  induction passes generalizing state with
  | zero => simp [run] at hresult
  | succ passes ih =>
      rw [Nat.add_right_comm]
      simp only [run] at hresult ⊢
      split at hresult
      · exact hresult
      · exact hresult
      · exact ih hresult

end ReadState

def ParseFailure.within (source : Option String) : ParseFailure → ParseFailure
  | .rejected error =>
      .rejected (match source with
        | some text => error.within text
        | none => error)
  | failure => failure

/-- Reading a token twice as often as there are tokens is enough: behind the end of the list the
last token is read again at most once for every open parenthesis, unless it is read for ever. -/
def passLimit (tokens : Array Token) : Nat := 2 * tokens.size + 3

/-- The expression that the tokens spell.  The source serves as its text and to show the lines
of errors. -/
def parseTokens (tokens : List Token) (source : Option String) : Except ParseFailure Expr :=
  let tokens := tokens.toArray
  match ReadState.run tokens (passLimit tokens) ReadState.start with
  | none => .error .endless
  | some (.error failure) => .error (failure.within source)
  | some (.ok nodes) =>
      (Expr.ofNodes (nodes.toList.map (Node.map Int.ofNat)) source).mapError .malformed

def parse (source : String) : Except ParseFailure Expr := do
  let tokens ← (tokenize source).mapError .rejected
  parseTokens tokens (some source)

end Reckon
