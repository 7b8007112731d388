import Reckon.Expr.Basic

/-
Expressions written in reverse Polish notation: the nodes in their order, with a blank between
them.  `u-` and `u+` stand for the operators in front of an operand, and `max/3` for a call with
three arguments.
-/

namespace Reckon

/-- A bare node is not written. -/
def Node.rpnWord? {ρ : Type} : Node ρ → Option String
  | .literal value => some (writeShortest value)
  | .var name => some name
  | .unary operator _ => some (if operator = .fact then "!" else "u" ++ operator.symbol)
  | .binary operator _ _ => some operator.symbol
  | .call name args => some (name ++ "/" ++ toString args.length)
  | .bare => none

namespace Expr

def rpn (expr : Expr) : String := " ".intercalate (expr.nodes.filterMap Node.rpnWord?)

/-- The source where there is one. -/
def text (expr : Expr) : String := expr.source.getD expr.rpn

def quotedText (expr : Expr) : String := "Expression(" ++ quoted expr.text ++ ")"

end Expr

end Reckon
