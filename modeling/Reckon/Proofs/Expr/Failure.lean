import Reckon.Proofs.Expr.Refinement

/-
How the evaluation of what was parsed can fail.  Its nodes mean something and find the values of
their operands, so that only names and calls are left to fail.
-/

namespace Reckon

variable {V : Type} {values : Array V}

theorem exists_mapM_slot {args : List Nat} (hargs : ∀ arg ∈ args, arg < values.size) :
    ∃ results, args.mapM (slot values) = .ok results ∧ results.length = args.length := by
  induction args with
  | nil => exact ⟨[], rfl, rfl⟩
  | cons arg rest ih =>
      obtain ⟨results, hresults, hlength⟩ := ih fun other hother =>
        hargs other (List.mem_cons_of_mem arg hother)
      have harg : arg < values.size := hargs arg List.mem_cons_self
      refine ⟨values[arg] :: results, ?_, congrArg Nat.succ hlength⟩
      rw [List.mapM_cons, slot_eq_ok harg, hresults]
      rfl

variable [Elementwise V] {scope : Scope V}

/-- Calls in the scope fail with a diagnostic or not at all. -/
def Scope.Explains (scope : Scope V) : Prop :=
  ∀ name args fault, scope.call name args = .error fault → fault.diagnostic?.isSome = true

theorem Node.exists_evaluate_unary {operator : Operator} {operand : Nat}
    (hunary : operator.isUnary = true) (hoperand : operand < values.size) :
    ∃ value, (Node.unary operator operand).evaluate scope values = .ok value := by
  have hsome : (operator.unary? : Option (V → V)).isSome = true := by
    rw [Operator.unary?_isSome]
    exact hunary
  obtain ⟨f, hf⟩ := Option.isSome_iff_exists.mp hsome
  rw [evaluate, hf, slot_eq_ok hoperand]
  exact ⟨_, rfl⟩

theorem Node.exists_evaluate_binary {operator : Operator} {left right : Nat}
    (hbinary : operator.isUnary = false) (hleft : left < values.size)
    (hright : right < values.size) :
    ∃ value, (Node.binary operator left right).evaluate scope values = .ok value := by
  have hsome : (operator.binary? : Option (V → V → V)).isSome = true := by
    rw [Operator.binary?_isSome, hbinary]
    rfl
  obtain ⟨f, hf⟩ := Option.isSome_iff_exists.mp hsome
  rw [evaluate, hf, slot_eq_ok hleft, slot_eq_ok hright]
  exact ⟨_, rfl⟩

/-- A node that means something fails with a diagnostic, if its operands are there and calls fail
with one. -/
theorem Node.isSome_diagnostic? (hscope : scope.Explains) {node : Node Nat} (hfits : node.Fits)
    (hoperands : ∀ operand ∈ node.operands, operand < values.size) {fault : Fault}
    (hfault : node.evaluate scope values = .error fault) : fault.diagnostic?.isSome = true := by
  cases node with
  | literal value => cases hfault
  | var name =>
      rw [evaluate] at hfault
      split at hfault <;> cases hfault
      rfl
  | unary operator operand =>
      have hoperand : operand < values.size := hoperands operand (by simp [operands])
      obtain ⟨value, hvalue⟩ := exists_evaluate_unary hfits hoperand
      rw [hvalue] at hfault
      cases hfault
  | binary operator left right =>
      have hleft : left < values.size := hoperands left (by simp [operands])
      have hright : right < values.size := hoperands right (by simp [operands])
      obtain ⟨value, hvalue⟩ := exists_evaluate_binary hfits hleft hright
      rw [hvalue] at hfault
      cases hfault
  | call name args =>
      have hargs : ∀ arg ∈ args, arg < values.size := hoperands
      obtain ⟨results, hresults, _⟩ := exists_mapM_slot hargs
      rw [evaluate, hresults] at hfault
      exact hscope name results fault hfault
  | bare => exact hfits.elim

theorem isSome_diagnostic?_of_evaluateNodes (hscope : scope.Explains) {nodes : List (Node Nat)}
    (hfits : ∀ node ∈ nodes, node.Fits) (hoperands : OperandsBefore values.size nodes)
    {stop : Stop} (hstop : evaluateNodes scope values nodes = .error stop) :
    stop.fault.diagnostic?.isSome = true := by
  induction nodes generalizing values with
  | nil => cases hstop
  | cons node rest ih =>
      obtain ⟨hnode, hrest⟩ := hoperands
      rw [evaluateNodes] at hstop
      split at hstop
      · rename_i fault hfault
        cases hstop
        exact Node.isSome_diagnostic? hscope (hfits node List.mem_cons_self) hnode hfault
      · rename_i value _
        rw [← Array.size_push value] at hrest
        exact ih (fun other hother => hfits other (List.mem_cons_of_mem node hother)) hrest hstop

namespace Expr

variable {expr : Expr}

theorem fits_of_parse {source : String} (hparse : parse source = .ok expr) :
    ∀ node ∈ expr.nodes, node.Fits := by
  obtain ⟨body, eof, tree, _, htree, rfl⟩ := exists_derives_of_parse hparse
  exact htree.fits 0

/-- The last node has a value when all nodes have one, so that only the run can fail. -/
theorem evaluate_eq_error_iff (expr : Expr) (scope : Scope V) (fault : Fault) :
    expr.evaluate scope = .error fault ↔ ∃ position, expr.run scope = .error ⟨position, fault⟩ := by
  cases hrun : expr.run scope with
  | error stop =>
      simp only [evaluate, hrun, Except.error.injEq]
      constructor
      · rintro rfl
        exact ⟨stop.position, rfl⟩
      · rintro ⟨position, rfl⟩
        rfl
  | ok values =>
      obtain ⟨value, hvalue, _⟩ := exists_valueAt_of_run hrun
      simp [evaluate, hrun, hvalue]

/-- What was parsed has a value or fails with a diagnostic. -/
theorem isSome_diagnostic?_of_evaluate (hfits : ∀ node ∈ expr.nodes, node.Fits)
    (hscope : scope.Explains) {fault : Fault} (hfault : expr.evaluate scope = .error fault) :
    fault.diagnostic?.isSome = true := by
  obtain ⟨position, hrun⟩ := (evaluate_eq_error_iff expr scope fault).mp hfault
  have hoperands : OperandsBefore (#[] : Array V).size expr.nodes := expr.operandsBefore
  exact isSome_diagnostic?_of_evaluateNodes hscope hfits hoperands hrun

end Expr

end Reckon
