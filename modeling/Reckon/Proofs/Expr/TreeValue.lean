import Reckon.Proofs.Expr.Agreement

/-
The value of a tree by recursion on it, beside the evaluation of its nodes from the first to the
last.  Both evaluate the operands of a node from left to right and then the node, so that they end
in the same value or the same fault.
-/

namespace Reckon

variable {V : Type} [Elementwise V]

namespace Tree

mutual

/-- The value of the tree in a scope, operands first. -/
def value (scope : Scope V) : Tree → Except Fault V
  | .literal x => .ok (Elementwise.const x)
  | .var name =>
      match scope.value? name with
      | some value => .ok value
      | none => .error (.unknownVariable name)
  | .unary operator operand => do
      let x ← operand.value scope
      match (operator.unary? : Option (V → V)) with
      | some f => return f x
      | none => .error (.misusedOperator operator)
  | .binary operator left right => do
      let x ← left.value scope
      let y ← right.value scope
      match (operator.binary? : Option (V → V → V)) with
      | some f => return f x y
      | none => .error (.misusedOperator operator)
  | .call name args => do
      let xs ← values scope args
      scope.call name xs

def values (scope : Scope V) : List Tree → Except Fault (List V)
  | [] => .ok []
  | tree :: rest => do
      let x ← tree.value scope
      let xs ← values scope rest
      return x :: xs

end

theorem values_append (scope : Scope V) (first second : List Tree) :
    values scope (first ++ second) = (do
      let xs ← values scope first
      let ys ← values scope second
      return xs ++ ys) := by
  induction first with
  | nil =>
      rw [values]
      exact (bind_pure _).symm
  | cons tree rest ih =>
      rw [List.cons_append, values, values, ih]
      simp only [bind_assoc, pure_bind, List.cons_append]

theorem values_ne_nil {scope : Scope V} {arg : Tree} {rest : List Tree} {xs : List V}
    (hvalues : values scope (arg :: rest) = .ok xs) : xs ≠ [] := by
  obtain ⟨x, -, hmore⟩ := exists_of_bind_eq_ok hvalues
  obtain ⟨ys, -, hcons⟩ := exists_of_bind_eq_ok hmore
  cases hcons
  exact List.cons_ne_nil x ys

end Tree

/-- The values of the nodes so far, followed by those of the given nodes, or the fault without its
position. -/
def nodeValues (scope : Scope V) (slots : Array V) (nodes : List (Node Nat)) :
    Except Fault (Array V) :=
  (evaluateNodes scope slots nodes).mapError Stop.fault

theorem nodeValues_append (scope : Scope V) (slots : Array V) (before after : List (Node Nat)) :
    nodeValues scope slots (before ++ after) =
      (nodeValues scope slots before >>= fun results => nodeValues scope results after) := by
  rw [nodeValues, nodeValues, evaluateNodes_append]
  cases evaluateNodes scope slots before <;> rfl

theorem nodeValues_singleton (scope : Scope V) (slots : Array V) (node : Node Nat) :
    nodeValues scope slots [node] = (node.evaluate scope slots).map slots.push := by
  rw [nodeValues, evaluateNodes]
  cases node.evaluate scope slots <;> rfl

omit [Elementwise V] in
/-- So many more slots have been added. -/
def Grows (slots : Array V) (count : Nat) (results : Array V) : Prop :=
  ∃ more : Array V, more.size = count ∧ results = slots ++ more

namespace Grows

variable {slots between results : Array V} {first second count position : Nat} {x : V}

omit [Elementwise V]

theorem refl (slots : Array V) : Grows slots 0 slots := ⟨#[], rfl, by simp⟩

theorem size_eq (hgrows : Grows slots count results) : results.size = slots.size + count := by
  obtain ⟨more, rfl, rfl⟩ := hgrows
  exact Array.size_append

theorem trans (hfirst : Grows slots first between) (hsecond : Grows between second results) :
    Grows slots (first + second) results := by
  obtain ⟨more, rfl, rfl⟩ := hfirst
  obtain ⟨further, rfl, rfl⟩ := hsecond
  exact ⟨more ++ further, Array.size_append, Array.append_assoc⟩

theorem push (hgrows : Grows slots count results) (x : V) :
    Grows slots (count + 1) (results.push x) := by
  obtain ⟨more, rfl, rfl⟩ := hgrows
  exact ⟨more.push x, Array.size_push x, Array.append_push.symm⟩

/-- What stands in a slot stays there. -/
theorem slot_eq (hgrows : Grows slots count results) (hslot : slot slots position = .ok x) :
    slot results position = .ok x := by
  obtain ⟨more, -, rfl⟩ := hgrows
  rw [slot] at hslot ⊢
  split at hslot
  · rename_i value hvalue
    obtain ⟨hposition, -⟩ := Array.getElem?_eq_some_iff.mp hvalue
    rw [Array.getElem?_append_left hposition, hvalue]
    exact hslot
  · cases hslot

end Grows

namespace Tree

variable {scope : Scope V} {slots results : Array V} {tree : Tree} {args : List Tree}
  {count : Nat} {node : Node Nat} {x : V}

omit [Elementwise V] in
/-- The nodes of the tree have been evaluated, its own to this value. -/
def Evaluated (slots : Array V) (tree : Tree) (x : V) (results : Array V) : Prop :=
  Grows slots tree.size results ∧ slot results (tree.root slots.size) = .ok x

omit [Elementwise V] in
/-- The nodes of the trees have been evaluated one tree after the other. -/
def AllEvaluated (slots : Array V) (args : List Tree) (xs : List V) (results : Array V) : Prop :=
  Grows slots (sizes args) results ∧ (roots args slots.size).mapM (slot results) = .ok xs

/-- A node behind its operands is evaluated last. -/
theorem evaluated_node (hgrows : Grows slots count results) (hsize : tree.size = count + 1)
    {own : Except Fault V} (hnode : node.evaluate scope results = own) :
    Agree (Evaluated slots tree) own (nodeValues scope results [node]) := by
  rw [nodeValues_singleton, hnode]
  cases own with
  | error fault => exact rfl
  | ok x =>
      have hroot : tree.root slots.size = results.size := by
        rw [root, hgrows.size_eq, hsize]
        rfl
      refine ⟨hsize ▸ hgrows.push x, ?_⟩
      simp [slot, hroot]

theorem allEvaluated_values
    (hargs : ∀ arg ∈ args, ∀ slots : Array V,
      Agree (Evaluated slots arg) (arg.value scope)
        (nodeValues scope slots (arg.listing slots.size))) (slots : Array V) :
    Agree (AllEvaluated slots args) (values scope args)
      (nodeValues scope slots (listings args slots.size)) := by
  induction args generalizing slots with
  | nil => exact ⟨.refl slots, rfl⟩
  | cons arg rest ih =>
      rw [values, listings, nodeValues_append]
      apply (hargs arg List.mem_cons_self slots).bind
      rintro x between - - ⟨hgrows, hslot⟩
      rw [← hgrows.size_eq, ← bind_pure (nodeValues scope between _)]
      apply (ih (fun other hother => hargs other (List.mem_cons_of_mem arg hother)) between).bind
      rintro xs results - - ⟨hmore, hslots⟩
      refine ⟨hgrows.trans hmore, ?_⟩
      rw [roots, List.mapM_cons, hmore.slot_eq hslot, ← hgrows.size_eq, hslots]
      rfl

/-- The nodes of a tree are evaluated to its value. -/
theorem evaluated_value (scope : Scope V) (tree : Tree) (slots : Array V) :
    Agree (Evaluated slots tree) (tree.value scope)
      (nodeValues scope slots (tree.listing slots.size)) := by
  induction tree generalizing slots with
  | literal x =>
      rw [value, listing]
      exact evaluated_node (.refl slots) rfl rfl
  | var name =>
      rw [value, listing]
      exact evaluated_node (.refl slots) rfl rfl
  | unary operator operand ih =>
      rw [value, listing, nodeValues_append]
      apply (ih slots).bind
      rintro x results - - ⟨hgrows, hslot⟩
      apply evaluated_node hgrows rfl
      rw [Node.evaluate, hslot]
      cases (operator.unary? : Option (V → V)) <;> rfl
  | binary operator left right ihLeft ihRight =>
      rw [value, listing, List.append_assoc, nodeValues_append]
      apply (ihLeft slots).bind
      rintro x between - - ⟨hgrows, hleft⟩
      rw [← hgrows.size_eq, nodeValues_append]
      apply (ihRight between).bind
      rintro y results - - ⟨hmore, hright⟩
      apply evaluated_node (hgrows.trans hmore) rfl
      rw [Node.evaluate, hmore.slot_eq hleft, hright]
      cases (operator.binary? : Option (V → V → V)) <;> rfl
  | call name args ih =>
      rw [value, listing, nodeValues_append]
      apply (allEvaluated_values ih slots).bind
      rintro xs results - - ⟨hgrows, hslots⟩
      apply evaluated_node hgrows rfl
      rw [Node.evaluate, hslots]
      rfl

/-- The expression of a tree has the value of the tree. -/
theorem evaluate_toExpr (scope : Scope V) (tree : Tree) (source : Option String) :
    (tree.toExpr source).evaluate scope = tree.value scope := by
  have hvalue := evaluated_value scope tree #[]
  change Agree _ _ (((tree.toExpr source).run scope).mapError Stop.fault) at hvalue
  rw [Expr.evaluate]
  cases htree : tree.value scope with
  | error fault =>
      rw [htree] at hvalue
      cases hrun : (tree.toExpr source).run scope with
      | error stop =>
          rw [hrun] at hvalue
          exact congrArg Except.error (Eq.symm hvalue)
      | ok results =>
          rw [hrun] at hvalue
          exact hvalue.elim
  | ok x =>
      rw [htree] at hvalue
      cases hrun : (tree.toExpr source).run scope with
      | error stop =>
          rw [hrun] at hvalue
          exact hvalue.elim
      | ok results =>
          rw [hrun] at hvalue
          have hlast : (tree.toExpr source).size - 1 = tree.root 0 := by
            simp [toExpr, Expr.size, root]
          rw [hlast]
          exact hvalue.2

end Tree

end Reckon
