import Reckon.Expr.OfTokens
import Reckon.Scope.Basic

/-
The value of an expression in a scope.  The nodes are evaluated from the first to the last, and
each finds the values of its operands already there.
-/

namespace Reckon

variable {V : Type}

/-- A fault with the position of the node it arose at. -/
structure Stop where
  position : Nat
  fault : Fault
deriving DecidableEq, Repr

def slot (values : Array V) (position : Nat) : Except Fault V :=
  match values[position]? with
  | some value => .ok value
  | none => .error (.emptySlot position)

variable [Elementwise V]

def Node.evaluate (scope : Scope V) (values : Array V) : Node Nat → Except Fault V
  | .literal value => .ok (Elementwise.const value)
  | .var name =>
      match scope.value? name with
      | some value => .ok value
      | none => .error (.unknownVariable name)
  | .unary operator operand =>
      match (operator.unary? : Option (V → V)) with
      | some f => do
          let x ← slot values operand
          return f x
      | none => .error (.misusedOperator operator)
  | .binary operator left right =>
      match (operator.binary? : Option (V → V → V)) with
      | some f => do
          let x ← slot values left
          let y ← slot values right
          return f x y
      | none => .error (.misusedOperator operator)
  | .call name args => do
      let values ← args.mapM (slot values)
      scope.call name values
  | .bare => .error .bareNode

/-- The values of the nodes so far, followed by those of the given nodes. -/
def evaluateNodes (scope : Scope V) (values : Array V) :
    List (Node Nat) → Except Stop (Array V)
  | [] => .ok values
  | node :: rest =>
      match node.evaluate scope values with
      | .error fault => .error ⟨values.size, fault⟩
      | .ok value => evaluateNodes scope (values.push value) rest

theorem evaluateNodes_size {scope : Scope V} {values results : Array V}
    {nodes : List (Node Nat)} (hresults : evaluateNodes scope values nodes = .ok results) :
    results.size = values.size + nodes.length := by
  induction nodes generalizing values with
  | nil =>
      cases hresults
      rfl
  | cons head tail ih =>
      simp only [evaluateNodes] at hresults
      split at hresults
      · cases hresults
      · rw [ih hresults, Array.size_push, List.length_cons]
        omega

namespace Expr

/-- The values of all nodes. -/
def run (expr : Expr) (scope : Scope V) : Except Stop (Array V) :=
  evaluateNodes scope #[] expr.nodes

/-- The value of the last node. -/
def evaluate (expr : Expr) (scope : Scope V) : Except Fault V :=
  match expr.run scope with
  | .error stop => .error stop.fault
  | .ok values => slot values (expr.size - 1)

end Expr

/-- Why a text has no value. -/
inductive EvaluationError
  | unreadable (failure : ParseFailure)
  | fault (fault : Fault)
deriving DecidableEq

/-- The value of the expression that a text spells. -/
def evaluateText (source : String) (scope : Scope V) : Except EvaluationError V :=
  match parse source with
  | .error failure => .error (.unreadable failure)
  | .ok expr => (expr.evaluate scope).mapError .fault

end Reckon
