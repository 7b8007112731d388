import Reckon.Expr.Basic
import Reckon.SyntaxError

/-
What is known while an expression is read: the nodes so far, the positions of the operands that
no operator has taken yet, and the operators and open parentheses that wait for what follows.
-/

namespace Reckon

/-- An open parenthesis, and the call it belongs to if it follows a name. -/
structure Group where
  opening : Token
  call : Option (String × List Nat)
deriving DecidableEq

inductive Entry
  | operator (operator : Operator)
  | group (group : Group)
deriving DecidableEq

/-- How reading an expression fails.  Only a rejected text is the fault of its writer; reading
what `tokenize` yields never fails otherwise. -/
inductive ParseFailure
  | rejected (error : SyntaxError)
  | noTokens
  | noOperand
  | noTokenBefore
  | malformed (error : ArenaError)
  | endless
deriving DecidableEq

/-- The nodes in their order and the positions of the open operands, the latest first. -/
structure Work where
  nodes : Array (Node Nat)
  operands : List Nat
deriving DecidableEq

namespace Work

def start : Work := ⟨#[], []⟩

/-- Adds a node as the latest operand. -/
def push (work : Work) (node : Node Nat) : Work :=
  ⟨work.nodes.push node, work.nodes.size :: work.operands⟩

def pop (work : Work) : Except ParseFailure (Nat × Work) :=
  match work.operands with
  | operand :: rest => .ok (operand, { work with operands := rest })
  | [] => .error .noOperand

/-- Replaces the operands of an operator by the operator's node. -/
def apply (work : Work) (operator : Operator) : Except ParseFailure Work :=
  if operator.isUnary then do
    let (operand, work) ← work.pop
    return work.push (.unary operator operand)
  else do
    let (right, work) ← work.pop
    let (left, work) ← work.pop
    return work.push (.binary operator left right)

/-- Applies the waiting operators down to the innermost open parenthesis and takes that off
too. -/
def closeGroup (work : Work) : List Entry → Except ParseFailure (Option Group × Work × List Entry)
  | [] => .ok (none, work, [])
  | .group group :: rest => .ok (some group, work, rest)
  | .operator operator :: rest => do
      let work ← work.apply operator
      work.closeGroup rest

/-- Whether an operator that waits is applied before a new one to its right. -/
def bindsBefore (waiting new : Operator) : Bool :=
  decide (new.precedence < waiting.precedence) ||
    (waiting.precedence == new.precedence && !new.isRightAssociative)

/-- Applies the waiting operators that bind before a new one. -/
def applyBefore (work : Work) (new : Operator) :
    List Entry → Except ParseFailure (Work × List Entry)
  | .operator waiting :: rest =>
      if bindsBefore waiting new then do
        let work ← work.apply waiting
        work.applyBefore new rest
      else .ok (work, .operator waiting :: rest)
  | stack => .ok (work, stack)

/-- Applies all that wait; a parenthesis among them has not been closed. -/
def finish (work : Work) : List Entry → Except ParseFailure Work
  | [] => .ok work
  | .group group :: _ => .error (.rejected ⟨.unclosedParenthesis, group.opening.span, none⟩)
  | .operator operator :: rest => do
      let work ← work.apply operator
      work.finish rest

end Work

end Reckon
