import Reckon.Operator

/-
Expressions as a list of nodes in the order of their evaluation.  Operators and calls refer to
their operands by position, always to earlier nodes, and the last node is the result.
-/

namespace Reckon

/-- A node whose operands are referred to by `ρ`.  A bare node has no meaning of its own. -/
inductive Node (ρ : Type)
  | literal (value : Float)
  | var (name : String)
  | unary (operator : Operator) (operand : ρ)
  | binary (operator : Operator) (left right : ρ)
  | call (name : String) (args : List ρ)
  | bare
deriving DecidableEq

namespace Node

variable {ρ σ : Type}

def operands : Node ρ → List ρ
  | .unary _ operand => [operand]
  | .binary _ left right => [left, right]
  | .call _ args => args
  | _ => []

def map (f : ρ → σ) : Node ρ → Node σ
  | .literal value => .literal value
  | .var name => .var name
  | .unary operator operand => .unary operator (f operand)
  | .binary operator left right => .binary operator (f left) (f right)
  | .call name args => .call name (args.map f)
  | .bare => .bare

def label : Node ρ → String
  | .literal _ => "Literal"
  | .var _ => "Variable"
  | .unary _ _ => "UnaryOp"
  | .binary _ _ _ => "BinaryOp"
  | .call _ _ => "FunctionCall"
  | .bare => "Node"

def variableName? : Node ρ → Option String
  | .var name => some name
  | _ => none

def functionName? : Node ρ → Option String
  | .call name _ => some name
  | _ => none

/-- Equality of nodes.  Literals are compared as numbers, so that the two zeros are equal and
what is not a number equals nothing. -/
def sameAs [DecidableEq ρ] : Node ρ → Node ρ → Bool
  | .literal x, .literal y => x == y
  | first, second => decide (first = second)

@[simp] theorem operands_map (f : ρ → σ) (node : Node ρ) :
    (node.map f).operands = node.operands.map f := by
  cases node <;> rfl

theorem map_map {τ : Type} (f : ρ → σ) (g : σ → τ) (node : Node ρ) :
    (node.map f).map g = node.map (g ∘ f) := by
  cases node <;> simp [map]

@[simp] theorem map_id (node : Node ρ) : node.map id = node := by
  cases node <;> simp [map]

end Node

/-- In a list of nodes that begins at this position, every operand stands before its node. -/
def OperandsBefore : Nat → List (Node Nat) → Prop
  | _, [] => True
  | position, node :: rest =>
      (∀ operand ∈ node.operands, operand < position) ∧ OperandsBefore (position + 1) rest

theorem operandsBefore_append {position : Nat} {first second : List (Node Nat)} :
    OperandsBefore position (first ++ second) ↔
      OperandsBefore position first ∧ OperandsBefore (position + first.length) second := by
  induction first generalizing position with
  | nil => simp [OperandsBefore]
  | cons head tail ih =>
      simp only [List.cons_append, OperandsBefore, ih, List.length_cons, and_assoc]
      rw [Nat.add_right_comm, Nat.add_assoc]

/-- A well-formed list of nodes, with the text it was read from if there is one. -/
structure Expr where
  nodes : List (Node Nat)
  source : Option String
  nodes_ne_nil : nodes ≠ []
  operandsBefore : OperandsBefore 0 nodes
deriving DecidableEq

/-- Why a list of nodes is no expression. -/
inductive ArenaError
  | empty
  | misplaced (position : Nat) (label : String) (operand : Int)
deriving DecidableEq, Repr

def ArenaError.message : ArenaError → String
  | .empty => "an expression needs at least one node"
  | .misplaced position label operand =>
      "node " ++ toString position ++ " (" ++ label ++ ") refers to position " ++
        toString operand ++ ", which is not an earlier node"

/-- Whether an operand of the node at a position refers to an earlier node. -/
def refersBack (position : Nat) (operand : Int) : Bool :=
  decide (0 ≤ operand ∧ operand < position)

/-- The first reference, in a list of nodes that begins at this position, that is not one to an
earlier node. -/
def firstMisplaced? : Nat → List (Node Int) → Option ArenaError
  | _, [] => none
  | position, node :: rest =>
      match node.operands.find? fun operand => !refersBack position operand with
      | some operand => some (.misplaced position node.label operand)
      | none => firstMisplaced? (position + 1) rest

theorem operandsBefore_of_firstMisplaced? {position : Nat} {nodes : List (Node Int)}
    (hnodes : firstMisplaced? position nodes = none) :
    OperandsBefore position (nodes.map (Node.map Int.toNat)) := by
  induction nodes generalizing position with
  | nil => trivial
  | cons head tail ih =>
      simp only [firstMisplaced?] at hnodes
      split at hnodes
      · cases hnodes
      · rename_i hhead
        refine ⟨?_, ih hnodes⟩
        intro operand hoperand
        simp only [Node.operands_map, List.mem_map] at hoperand
        obtain ⟨reference, hmem, rfl⟩ := hoperand
        have hreference := List.find?_eq_none.mp hhead reference hmem
        simp only [refersBack, Bool.not_eq_true', decide_eq_false_iff_not, Decidable.not_not]
          at hreference
        omega

namespace Expr

/-- Nodes whose references may be any integers, as an expression if they are well formed. -/
def ofNodes (nodes : List (Node Int)) (source : Option String) : Except ArenaError Expr :=
  if hnil : nodes = [] then .error .empty
  else
    match hnodes : firstMisplaced? 0 nodes with
    | some error => .error error
    | none =>
        .ok ⟨nodes.map (Node.map Int.toNat), source, by simpa using hnil,
          operandsBefore_of_firstMisplaced? hnodes⟩

def size (expr : Expr) : Nat := expr.nodes.length

/-- The node at a position; negative positions count from the end. -/
def node? (expr : Expr) (position : Int) : Option (Node Nat) :=
  if 0 ≤ position then expr.nodes[position.toNat]?
  else if 0 ≤ position + expr.size then expr.nodes[(position + expr.size).toNat]?
  else none

/-- What is said of a position without a node.  Positions have at most 64 bits. -/
def noNodeMessage (position : Int) : String :=
  if -9223372036854775808 ≤ position ∧ position < 9223372036854775808 then
    "tuple index out of range"
  else "cannot fit 'int' into an index-sized integer"

/-- Names of the variables, in the order of their first use. -/
def variableNames (expr : Expr) : List String :=
  (expr.nodes.filterMap Node.variableName?).eraseDups

/-- Names of the functions called, in the order of their first use. -/
def functionNames (expr : Expr) : List String :=
  (expr.nodes.filterMap Node.functionName?).eraseDups

/-- Equality of the nodes; the sources are not compared. -/
def sameAs (first second : Expr) : Bool :=
  first.size == second.size &&
    (first.nodes.zip second.nodes).all fun pair => pair.1.sameAs pair.2

theorem size_pos (expr : Expr) : 0 < expr.size := List.length_pos_iff.mpr expr.nodes_ne_nil

section names

variable {expr : Expr} {node : Node Nat} {name : String}

theorem mem_variableNames (hnode : node ∈ expr.nodes) (hname : name ∈ node.variableName?) :
    name ∈ expr.variableNames := by
  rw [variableNames, List.mem_eraseDups, List.mem_filterMap]
  exact ⟨node, hnode, hname⟩

theorem mem_functionNames (hnode : node ∈ expr.nodes) (hname : name ∈ node.functionName?) :
    name ∈ expr.functionNames := by
  rw [functionNames, List.mem_eraseDups, List.mem_filterMap]
  exact ⟨node, hnode, hname⟩

theorem exists_var_of_mem_variableNames (hname : name ∈ expr.variableNames) :
    .var name ∈ expr.nodes := by
  rw [variableNames, List.mem_eraseDups, List.mem_filterMap] at hname
  obtain ⟨node, hnode, hvariable⟩ := hname
  cases node with
  | var other =>
      cases hvariable
      exact hnode
  | literal _ | unary _ _ | binary _ _ _ | call _ _ | bare => cases hvariable

theorem exists_call_of_mem_functionNames (hname : name ∈ expr.functionNames) :
    ∃ args, .call name args ∈ expr.nodes := by
  rw [functionNames, List.mem_eraseDups, List.mem_filterMap] at hname
  obtain ⟨node, hnode, hfunction⟩ := hname
  cases node with
  | call other args =>
      cases hfunction
      exact ⟨args, hnode⟩
  | literal _ | var _ | unary _ _ | binary _ _ _ | bare => cases hfunction

end names

end Expr

end Reckon
