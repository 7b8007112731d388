import Reckon.Expr.Eval
import Reckon.Proofs.Expr.Parse

/-
The value of an expression by recursion on its references, beside the evaluation from the first
node to the last.  The two differ in what they evaluate: a node that nothing refers to has no part
in the recursion, and one that is referred to twice is evaluated twice.
-/

namespace Reckon

theorem exists_of_bind_eq_ok {ε α β : Type} {first : Except ε α} {rest : α → Except ε β}
    {value : β} (hvalue : (first >>= rest) = .ok value) :
    ∃ found, first = .ok found ∧ rest found = .ok value := by
  cases first with
  | error _ => cases hvalue
  | ok found => exact ⟨found, rfl, hvalue⟩

theorem exists_of_mapM_eq_ok {ε α β : Type} {f : α → Except ε β} {args : List α}
    {results : List β} (hresults : args.mapM f = .ok results) {arg : α} (harg : arg ∈ args) :
    ∃ value, f arg = .ok value := by
  induction args generalizing results with
  | nil => cases harg
  | cons first rest ih =>
      rw [List.mapM_cons] at hresults
      obtain ⟨value, hfirst, hrest⟩ := exists_of_bind_eq_ok hresults
      obtain ⟨values, hmore, _⟩ := exists_of_bind_eq_ok hrest
      rcases List.mem_cons.mp harg with rfl | harg
      · exact ⟨value, hfirst⟩
      · exact ih hmore harg

theorem slot_eq_ok {V : Type} {values : Array V} {position : Nat}
    (hposition : position < values.size) : slot values position = .ok values[position] := by
  simp [slot, hposition]

variable {V : Type} [Elementwise V] {expr : Expr} {scope : Scope V} {position operand : Nat}
  {node : Node Nat}

namespace Expr

theorem operand_lt (hnode : expr.nodes[position]? = some node)
    (hoperand : operand ∈ node.operands) : operand < position := by
  obtain ⟨hposition, hget⟩ := List.getElem?_eq_some_iff.mp hnode
  have hsplit : expr.nodes =
      expr.nodes.take position ++ node :: expr.nodes.drop (position + 1) := by
    rw [← hget]
    simp
  have hlength : (expr.nodes.take position).length = position := by
    rw [List.length_take]
    omega
  have hbefore := expr.operandsBefore
  rw [hsplit, operandsBefore_append, OperandsBefore, Nat.zero_add, hlength] at hbefore
  exact hbefore.2.1 operand hoperand

/-- The value of the tree that the references from a position on unfold to. -/
def valueAt (expr : Expr) (scope : Scope V) (position : Nat) : Except Stop V :=
  match _ : expr.nodes[position]? with
  | none => .error ⟨position, .emptySlot position⟩
  | some (.literal value) => .ok (Elementwise.const value)
  | some (.var name) =>
      match scope.value? name with
      | some value => .ok value
      | none => .error ⟨position, .unknownVariable name⟩
  | some (.unary operator operand) =>
      match (operator.unary? : Option (V → V)) with
      | some f => do
          let x ← expr.valueAt scope operand
          return f x
      | none => .error ⟨position, .misusedOperator operator⟩
  | some (.binary operator left right) =>
      match (operator.binary? : Option (V → V → V)) with
      | some f => do
          let x ← expr.valueAt scope left
          let y ← expr.valueAt scope right
          return f x y
      | none => .error ⟨position, .misusedOperator operator⟩
  | some (.call name args) => do
      let values ← args.mapM fun arg => expr.valueAt scope arg
      (scope.call name values).mapError (⟨position, ·⟩)
  | some .bare => .error ⟨position, .bareNode⟩
termination_by position
decreasing_by
  all_goals
    refine operand_lt ‹_› ?_
    simp_all [Node.operands]

/-- A position can be reached by going from nodes to their operands. -/
def Reaches (expr : Expr) : Nat → Nat → Prop :=
  Relation.ReflTransGen fun position operand =>
    ∃ node, expr.nodes[position]? = some node ∧ operand ∈ node.operands

theorem valueAt_var {name : String} (hnode : expr.nodes[position]? = some (.var name)) :
    expr.valueAt scope position =
      match scope.value? name with
      | some value => .ok value
      | none => .error ⟨position, .unknownVariable name⟩ := by
  rw [valueAt]
  split <;> simp_all

theorem valueAt_unary {operator : Operator}
    (hnode : expr.nodes[position]? = some (.unary operator operand)) :
    expr.valueAt scope position =
      match (operator.unary? : Option (V → V)) with
      | some f => do
          let x ← expr.valueAt scope operand
          return f x
      | none => .error ⟨position, .misusedOperator operator⟩ := by
  rw [valueAt]
  split <;> simp_all

theorem valueAt_binary {operator : Operator} {left right : Nat}
    (hnode : expr.nodes[position]? = some (.binary operator left right)) :
    expr.valueAt scope position =
      match (operator.binary? : Option (V → V → V)) with
      | some f => do
          let x ← expr.valueAt scope left
          let y ← expr.valueAt scope right
          return f x y
      | none => .error ⟨position, .misusedOperator operator⟩ := by
  rw [valueAt]
  split <;> simp_all

theorem valueAt_call {name : String} {args : List Nat}
    (hnode : expr.nodes[position]? = some (.call name args)) :
    expr.valueAt scope position = (do
      let values ← args.mapM fun arg => expr.valueAt scope arg
      (scope.call name values).mapError (⟨position, ·⟩)) := by
  rw [valueAt]
  split <;> simp_all

/-- Every value there is so far is that of the recursion. -/
def Filled (expr : Expr) (scope : Scope V) (values : Array V) : Prop :=
  ∀ position value, values[position]? = some value → expr.valueAt scope position = .ok value

variable {values : Array V}

theorem Filled.exists_value (hfilled : expr.Filled scope values)
    (hoperand : operand < values.size) :
    ∃ value, slot values operand = .ok value ∧ expr.valueAt scope operand = .ok value := by
  have hget : values[operand]? = some values[operand] := by simp [hoperand]
  exact ⟨values[operand], slot_eq_ok hoperand, hfilled operand _ hget⟩

theorem Filled.exists_values (hfilled : expr.Filled scope values) {args : List Nat}
    (hargs : ∀ arg ∈ args, arg < values.size) :
    ∃ results, args.mapM (slot values) = .ok results ∧
      (args.mapM fun arg => expr.valueAt scope arg) = .ok results := by
  induction args with
  | nil => exact ⟨[], rfl, rfl⟩
  | cons arg rest ih =>
      obtain ⟨value, hslot, hvalue⟩ := hfilled.exists_value (hargs arg List.mem_cons_self)
      obtain ⟨results, hslots, hresults⟩ := ih fun other hother =>
        hargs other (List.mem_cons_of_mem arg hother)
      refine ⟨value :: results, ?_, ?_⟩
      · rw [List.mapM_cons, hslot, hslots]
        rfl
      · rw [List.mapM_cons, hvalue, hresults]
        rfl

/-- Behind the values so far the next node has the value that the recursion gives it. -/
theorem Filled.valueAt_eq (hfilled : expr.Filled scope values)
    (hnode : expr.nodes[values.size]? = some node) :
    expr.valueAt scope values.size =
      (node.evaluate scope values).mapError (⟨values.size, ·⟩) := by
  have hoperands : ∀ operand ∈ node.operands, operand < values.size := fun operand =>
    operand_lt hnode
  cases node with
  | literal value =>
      rw [valueAt]
      split <;> simp_all [Node.evaluate, Except.mapError]
  | var name =>
      rw [valueAt_var hnode, Node.evaluate]
      cases scope.value? name <;> rfl
  | unary operator operand =>
      obtain ⟨value, hslot, hvalue⟩ := hfilled.exists_value
        (hoperands operand List.mem_cons_self)
      rw [valueAt_unary hnode, Node.evaluate, hslot, hvalue]
      cases (operator.unary? : Option (V → V)) <;> rfl
  | binary operator left right =>
      obtain ⟨x, hslotLeft, hx⟩ := hfilled.exists_value (hoperands left List.mem_cons_self)
      obtain ⟨y, hslotRight, hy⟩ := hfilled.exists_value
        (hoperands right (List.mem_cons_of_mem left List.mem_cons_self))
      rw [valueAt_binary hnode, Node.evaluate, hslotLeft, hslotRight, hx, hy]
      cases (operator.binary? : Option (V → V → V)) <;> rfl
  | call name args =>
      have hargs : ∀ arg ∈ args, arg < values.size := hoperands
      obtain ⟨results, hslots, hresults⟩ := hfilled.exists_values hargs
      rw [valueAt_call hnode, Node.evaluate, hslots, hresults]
      rfl
  | bare =>
      rw [valueAt]
      split <;> simp_all [Node.evaluate, Except.mapError]

/-- An evaluation that stops does so at a node whose recursion fails in the same way, and at none
of the nodes before it does the recursion fail. -/
structure FirstStop (expr : Expr) (scope : Scope V) (stop : Stop) : Prop where
  position_lt : stop.position < expr.size
  valueAt_eq : expr.valueAt scope stop.position = .error stop
  before : ∀ position, position < stop.position →
    ∃ value, expr.valueAt scope position = .ok value

theorem Filled.push (hfilled : expr.Filled scope values) {value : V}
    (hvalue : expr.valueAt scope values.size = .ok value) :
    expr.Filled scope (values.push value) := by
  intro position found hfound
  rw [Array.getElem?_push] at hfound
  split at hfound
  · rename_i hposition
    cases hfound
    rwa [hposition]
  · exact hfilled position found hfound

/-- What an evaluation of the remaining nodes leads to, given the values of those before. -/
theorem Filled.evaluateNodes {before after : List (Node Nat)}
    (hnodes : expr.nodes = before ++ after) (hsize : values.size = before.length)
    (hfilled : expr.Filled scope values) :
    match evaluateNodes scope values after with
    | .ok results => expr.Filled scope results ∧ results.size = expr.size
    | .error stop => expr.FirstStop scope stop := by
  induction after generalizing before values with
  | nil => exact ⟨hfilled, by simp [hsize, size, hnodes]⟩
  | cons node rest ih =>
      have hnode : expr.nodes[values.size]? = some node := by simp [hnodes, hsize]
      have hvalue := hfilled.valueAt_eq hnode
      rw [Reckon.evaluateNodes]
      cases hevaluate : node.evaluate scope values with
      | error fault =>
          refine ⟨?_, ?_, ?_⟩
          · simp [hsize, size, hnodes]
          · rw [hvalue, hevaluate]
            rfl
          · intro position hposition
            obtain ⟨value, _, hok⟩ := hfilled.exists_value hposition
            exact ⟨value, hok⟩
      | ok value =>
          rw [hevaluate] at hvalue
          have hsplit : expr.nodes = (before ++ [node]) ++ rest := by simp [hnodes]
          exact ih hsplit (by simp [hsize]) (hfilled.push hvalue)

theorem filled_empty (expr : Expr) (scope : Scope V) : expr.Filled scope #[] := by
  intro position value hvalue
  simp at hvalue

theorem run_cases (expr : Expr) (scope : Scope V) :
    match expr.run scope with
    | .ok results => expr.Filled scope results ∧ results.size = expr.size
    | .error stop => expr.FirstStop scope stop := by
  have hnodes : expr.nodes = [] ++ expr.nodes := rfl
  exact (filled_empty expr scope).evaluateNodes hnodes rfl

/-- Where the recursion succeeds at a node, it succeeds at the operands too. -/
theorem exists_valueAt_operand {value : V} (hvalue : expr.valueAt scope position = .ok value)
    (hnode : expr.nodes[position]? = some node) (hoperand : operand ∈ node.operands) :
    ∃ value, expr.valueAt scope operand = .ok value := by
  cases node with
  | literal _ => cases hoperand
  | var _ => cases hoperand
  | bare => cases hoperand
  | unary operator inner =>
      rw [Node.operands, List.mem_singleton] at hoperand
      subst hoperand
      rw [valueAt_unary hnode] at hvalue
      split at hvalue
      · obtain ⟨found, hfound, _⟩ := exists_of_bind_eq_ok hvalue
        exact ⟨found, hfound⟩
      · cases hvalue
  | binary operator left right =>
      rw [valueAt_binary hnode] at hvalue
      split at hvalue
      · obtain ⟨x, hx, hrest⟩ := exists_of_bind_eq_ok hvalue
        obtain ⟨y, hy, _⟩ := exists_of_bind_eq_ok hrest
        simp only [Node.operands, List.mem_cons, List.not_mem_nil, or_false] at hoperand
        rcases hoperand with rfl | rfl
        · exact ⟨x, hx⟩
        · exact ⟨y, hy⟩
      · cases hvalue
  | call name args =>
      rw [valueAt_call hnode] at hvalue
      obtain ⟨results, hresults, _⟩ := exists_of_bind_eq_ok hvalue
      exact exists_of_mapM_eq_ok hresults hoperand

theorem exists_valueAt_of_reaches {value : V} (hvalue : expr.valueAt scope position = .ok value)
    (hreaches : expr.Reaches position operand) :
    ∃ value, expr.valueAt scope operand = .ok value := by
  induction hreaches with
  | refl => exact ⟨value, hvalue⟩
  | tail _ hstep ih =>
      obtain ⟨found, hfound⟩ := ih
      obtain ⟨node, hnode, hoperand⟩ := hstep
      exact exists_valueAt_operand hfound hnode hoperand

end Expr

end Reckon
