import Reckon.Proofs.Expr.Agreement
import Reckon.Proofs.Expr.Failure
import Reckon.Proofs.Scope.Builtin

/-
Where an unknown variable comes from: the first variable of the expression that means nothing, or
a function that was called and says so itself.
-/

namespace Reckon

section

variable {ε α β : Type} {fault : ε}

theorem eq_error_or_of_bind_eq_error {first : Except ε α} {rest : α → Except ε β}
    (hfault : (first >>= rest) = .error fault) :
    first = .error fault ∨ ∃ x, first = .ok x ∧ rest x = .error fault := by
  cases first with
  | error other =>
      cases hfault
      exact .inl rfl
  | ok x => exact .inr ⟨x, rfl, hfault⟩

theorem exists_of_mapM_eq_error {f : α → Except ε β} {args : List α}
    (hfault : args.mapM f = .error fault) : ∃ arg ∈ args, f arg = .error fault := by
  induction args with
  | nil => cases hfault
  | cons first rest ih =>
      rw [List.mapM_cons] at hfault
      rcases eq_error_or_of_bind_eq_error hfault with hfirst | ⟨value, _, hmore⟩
      · exact ⟨first, List.mem_cons_self, hfirst⟩
      · rcases eq_error_or_of_bind_eq_error hmore with hrest | ⟨values, _, hpure⟩
        · obtain ⟨arg, harg, hother⟩ := ih hrest
          exact ⟨arg, List.mem_cons_of_mem first harg, hother⟩
        · cases hpure

end

theorem slot_ne_unknownVariable {V : Type} (values : Array V) (position : Nat) (name : String) :
    slot values position ≠ .error (.unknownVariable name) := by
  rw [slot]
  cases values[position]? <;> simp

theorem Arity.mismatch_ne_unknownVariable (arity : Arity) (count : Nat) (title : Option String)
    (name : String) : arity.mismatch count title ≠ .unknownVariable name := by
  rw [mismatch]
  split <;> simp

variable {V : Type} [Elementwise V] {scope outer : Scope V} {values : Array V}
  {name function : String}

namespace Scope

/-- The function of this name, applied to arguments that it accepts, fails in this way. -/
def Raises (scope : Scope V) (function : String) (fault : Fault) : Prop :=
  ∃ found args, scope.function? function = some found ∧ found.arity.Accepts args.length ∧
    found.implementation args = .error fault

/-- A call does not look at variables, so that only the function can miss one. -/
theorem raises_of_call {args : List V}
    (hcall : scope.call function args = .error (.unknownVariable name)) :
    scope.Raises function (.unknownVariable name) := by
  rw [call_eq_callFound, callFound] at hcall
  cases hfound : scope.function? function with
  | none =>
      rw [hfound] at hcall
      cases hcall
  | some found =>
      rw [hfound] at hcall
      change found.call args = _ at hcall
      by_cases haccepts : found.arity.Accepts args.length
      · rw [Function.call_of_accepts haccepts] at hcall
        exact ⟨found, args, hfound, haccepts, hcall⟩
      · rw [Function.call_of_not_accepts haccepts] at hcall
        exact absurd (Except.error.inj hcall)
          (Arity.mismatch_ne_unknownVariable _ _ _ _)

end Scope

theorem Node.unknownVariable_cases {node : Node Nat}
    (hfault : node.evaluate scope values = .error (.unknownVariable name)) :
    node = .var name ∧ scope.value? name = none ∨
      ∃ function ∈ node.functionName?, scope.Raises function (.unknownVariable name) := by
  cases node with
  | literal value => cases hfault
  | var other =>
      rw [evaluate] at hfault
      cases hvalue : scope.value? other with
      | some value =>
          rw [hvalue] at hfault
          cases hfault
      | none =>
          rw [hvalue] at hfault
          cases hfault
          exact .inl ⟨rfl, hvalue⟩
  | unary operator operand =>
      rw [evaluate] at hfault
      split at hfault
      · rcases eq_error_or_of_bind_eq_error hfault with hslot | ⟨x, _, hvalue⟩
        · exact absurd hslot (slot_ne_unknownVariable _ _ _)
        · cases hvalue
      · cases hfault
  | binary operator left right =>
      rw [evaluate] at hfault
      split at hfault
      · rcases eq_error_or_of_bind_eq_error hfault with hslot | ⟨x, _, hrest⟩
        · exact absurd hslot (slot_ne_unknownVariable _ _ _)
        · rcases eq_error_or_of_bind_eq_error hrest with hslot | ⟨y, _, hvalue⟩
          · exact absurd hslot (slot_ne_unknownVariable _ _ _)
          · cases hvalue
      · cases hfault
  | call function args =>
      rw [evaluate] at hfault
      rcases eq_error_or_of_bind_eq_error hfault with hargs | ⟨arguments, _, hcall⟩
      · obtain ⟨arg, _, hslot⟩ := exists_of_mapM_eq_error hargs
        exact absurd hslot (slot_ne_unknownVariable _ _ _)
      · exact .inr ⟨function, rfl, Scope.raises_of_call hcall⟩
  | bare => cases hfault

/-- An evaluation that fails stops at a node behind others that have values. -/
theorem exists_of_evaluateNodes_eq_error {nodes : List (Node Nat)} {stop : Stop}
    (hstop : evaluateNodes scope values nodes = .error stop) :
    ∃ before node after results, nodes = before ++ node :: after ∧
      stop.position = values.size + before.length ∧
      evaluateNodes scope values before = .ok results ∧
      node.evaluate scope results = .error stop.fault := by
  induction nodes generalizing values with
  | nil => cases hstop
  | cons node rest ih =>
      rw [evaluateNodes] at hstop
      cases hvalue : node.evaluate scope values with
      | error fault =>
          rw [hvalue] at hstop
          cases hstop
          exact ⟨[], node, rest, values, rfl, rfl, rfl, hvalue⟩
      | ok value =>
          rw [hvalue] at hstop
          obtain ⟨before, failing, after, results, rfl, hposition, hresults, hfault⟩ := ih hstop
          refine ⟨node :: before, failing, after, results, rfl, ?_, ?_, hfault⟩
          · rw [hposition, Array.size_push, List.length_cons]
            omega
          · rw [evaluateNodes, hvalue]
            exact hresults

namespace Expr

variable {expr : Expr} {names : List String} {before after : List (Node Nat)}

/-- An unknown variable is one of the expression, or a function that it calls misses one. -/
theorem unknownVariable_cases
    (hfault : expr.evaluate scope = .error (.unknownVariable name)) :
    name ∈ expr.variableNames ∧ scope.value? name = none ∨
      ∃ function ∈ expr.functionNames, scope.Raises function (.unknownVariable name) := by
  obtain ⟨position, hrun⟩ := (evaluate_eq_error_iff expr scope _).mp hfault
  obtain ⟨before, node, after, results, hnodes, -, -, hnode⟩ :=
    exists_of_evaluateNodes_eq_error hrun
  have hmem : node ∈ expr.nodes := by
    rw [hnodes]
    exact List.mem_append_right before List.mem_cons_self
  rcases Node.unknownVariable_cases hnode with ⟨rfl, hvalue⟩ | ⟨function, hfunction, hraises⟩
  · exact .inl ⟨mem_variableNames hmem rfl, hvalue⟩
  · exact .inr ⟨function, mem_functionNames hmem hfunction, hraises⟩

/-- The first variable of the expression, in the order of the nodes, that is neither one of these
names nor known to the scope stands behind these nodes. -/
structure FirstUnbound (expr : Expr) (scope : Scope V) (names : List String)
    (before : List (Node Nat)) (name : String) : Prop where
  split : ∃ after, expr.nodes = before ++ .var name :: after
  not_mem : name ∉ names
  unknown : scope.value? name = none
  bound : ∀ other, .var other ∈ before → other ∈ names ∨ (scope.value? other).isSome = true

/-- With values for the names in front of the scope, the evaluation comes to the first variable
that is not bound and fails there, or it fails before at a node that is no variable. -/
theorem FirstUnbound.run_eq (hfirst : expr.FirstUnbound scope names before name)
    (hnames : ∀ other ∈ names, (outer.value? other).isSome = true)
    (hothers : ∀ other, other ∉ names → outer.value? other = scope.value? other) :
    expr.run outer = .error ⟨before.length, .unknownVariable name⟩ ∨
      ∃ position node fault, position < before.length ∧ expr.nodes[position]? = some node ∧
        node.variableName? = none ∧ expr.run outer = .error ⟨position, fault⟩ := by
  obtain ⟨⟨after, hnodes⟩, hname, hunknown, hbound⟩ := hfirst
  have hvalues : ∀ other, .var other ∈ before → ∃ value, outer.value? other = some value := by
    intro other hother
    rw [← Option.isSome_iff_exists]
    by_cases hmem : other ∈ names
    · exact hnames other hmem
    · rw [hothers other hmem]
      exact (hbound other hother).resolve_left hmem
  rw [run, hnodes, evaluateNodes_append]
  cases hbefore : evaluateNodes outer #[] before with
  | ok results =>
      have hsize := evaluateNodes_size hbefore
      have hmissing : outer.value? name = none := (hothers name hname).trans hunknown
      left
      change evaluateNodes outer results (.var name :: after) = _
      rw [evaluateNodes, Node.evaluate, hmissing]
      simp [hsize]
  | error stop =>
      obtain ⟨front, node, more, results, hsplit, hposition, -, hfault⟩ :=
        exists_of_evaluateNodes_eq_error hbefore
      simp only [Array.size_empty, Nat.zero_add] at hposition
      refine .inr ⟨stop.position, node, stop.fault, ?_, ?_, ?_, rfl⟩
      · rw [hposition, hsplit, List.length_append, List.length_cons]
        omega
      · rw [hposition, hsplit]
        simp
      · cases node with
        | var other =>
            -- A variable in front of the first that is not bound has a value.
            obtain ⟨value, hvalue⟩ := hvalues other (by simp [hsplit])
            rw [Node.evaluate, hvalue] at hfault
            cases hfault
        | literal _ | unary _ _ | binary _ _ _ | call _ _ | bare => rfl

end Expr

end Reckon
