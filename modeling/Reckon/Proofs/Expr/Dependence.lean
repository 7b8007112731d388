import Reckon.Proofs.Scope.Alike

/-
What the value of an expression depends on.  The names of its variables and functions are enough:
scopes that agree on them give it the same value or the same fault.  They are all needed: where it
has a value, it has none without any one of them.
-/

namespace Reckon

variable {V : Type} [Elementwise V] {first second : Scope V} {values results : Array V}

namespace Bindings

variable {α : Type} {hidden : String → Bool} {name : String}

/-- The bindings of the names that are not hidden. -/
def hide (bindings : Bindings α) (hidden : String → Bool) : Bindings α :=
  ⟨bindings.entries.filter fun entry => !hidden entry.1⟩

theorem get?_hide_of_hidden (bindings : Bindings α) (hhidden : hidden name = true) :
    (bindings.hide hidden).get? name = none := by
  obtain ⟨entries⟩ := bindings
  induction entries with
  | nil => rfl
  | cons head tail ih =>
      obtain ⟨other, value⟩ := head
      rw [hide, get?] at ih ⊢
      by_cases hother : hidden other = true
      · simpa [hother] using ih
      · have hne : other ≠ name := by
          rintro rfl
          exact hother hhidden
        simpa [hother, lookup, hne] using ih

theorem get?_hide_of_shown (bindings : Bindings α) (hshown : hidden name = false) :
    (bindings.hide hidden).get? name = bindings.get? name := by
  obtain ⟨entries⟩ := bindings
  induction entries with
  | nil => rfl
  | cons head tail ih =>
      obtain ⟨other, value⟩ := head
      rw [hide, get?] at ih ⊢
      by_cases hne : other = name
      · subst hne
        simp [hshown, lookup, get?]
      · by_cases hother : hidden other = true
        · simpa [hother, lookup, hne, get?] using ih
        · simpa [hother, lookup, hne, get?] using ih

end Bindings

namespace Scope

/-- The scopes give the names that occur in the expression the same meaning. -/
structure AgreeOn (expr : Expr) (first second : Scope V) : Prop where
  value : ∀ name ∈ expr.variableNames, first.value? name = second.value? name
  call : ∀ name ∈ expr.functionNames, ∀ args, first.call name args = second.call name args

/-- The second scope lacks this variable and means what the first one means otherwise, as far as
the expression asks. -/
structure LosesVariable (expr : Expr) (name : String) (first second : Scope V) : Prop where
  missing : second.value? name = none
  value : ∀ other ∈ expr.variableNames, other ≠ name → first.value? other = second.value? other
  call : ∀ other ∈ expr.functionNames, ∀ args, first.call other args = second.call other args

/-- The second scope lacks this function and means what the first one means otherwise, as far as
the expression asks. -/
structure LosesFunction (expr : Expr) (name : String) (first second : Scope V) : Prop where
  missing : second.function? name = none
  value : ∀ other ∈ expr.variableNames, first.value? other = second.value? other
  call : ∀ other ∈ expr.functionNames, other ≠ name → ∀ args,
    first.call other args = second.call other args

/-- The scope without the hidden variables and functions.  The catalog becomes a table, because
nothing can be taken out of it. -/
def hide (noVar noFun : String → Bool) : Scope V → Scope V
  | .builtins =>
      .table ⟨Catalog.constants.hide noVar,
        (Catalog.functions.map (Builtin.function V)).hide noFun⟩
  | .table entries =>
      .table ⟨entries.constants.hide noVar, entries.functions.hide noFun⟩
  | .free values => .free (values.filter fun entry => !noVar entry.1)
  | .chain outer inner => .chain (outer.hide noVar noFun) (inner.hide noVar noFun)

def withoutVariable (scope : Scope V) (name : String) : Scope V :=
  scope.hide (· == name) fun _ => false

def withoutFunction (scope : Scope V) (name : String) : Scope V :=
  scope.hide (fun _ => false) (· == name)

variable {noVar noFun : String → Bool} {name : String}

theorem value?_hide_of_hidden (scope : Scope V) (hhidden : noVar name = true) :
    (scope.hide noVar noFun).value? name = none := by
  induction scope with
  | builtins => rw [hide, value?, Bindings.get?_hide_of_hidden _ hhidden, Option.map_none]
  | table entries => rw [hide, value?, Bindings.get?_hide_of_hidden _ hhidden, Option.map_none]
  | free values => exact Bindings.get?_hide_of_hidden ⟨values⟩ hhidden
  | chain outer inner ihOuter ihInner => rw [hide, value?_chain, ihOuter, ihInner, Option.or_none]

theorem value?_hide_of_shown (scope : Scope V) (hshown : noVar name = false) :
    (scope.hide noVar noFun).value? name = scope.value? name := by
  induction scope with
  | builtins =>
      change ((Catalog.constants.hide noVar).get? name).map _ = (Catalog.constant? name).map _
      rw [Bindings.get?_hide_of_shown _ hshown, Catalog.constant?_eq_get?]
  | table entries => rw [hide, value?, Bindings.get?_hide_of_shown _ hshown, value?]
  | free values => exact Bindings.get?_hide_of_shown ⟨values⟩ hshown
  | chain outer inner ihOuter ihInner => rw [hide, value?_chain, ihOuter, ihInner, value?_chain]

theorem function?_hide_of_hidden (scope : Scope V) (hhidden : noFun name = true) :
    (scope.hide noVar noFun).function? name = none := by
  induction scope with
  | builtins => exact Bindings.get?_hide_of_hidden _ hhidden
  | table entries => exact Bindings.get?_hide_of_hidden _ hhidden
  | free values => rfl
  | chain outer inner ihOuter ihInner =>
      rw [hide, function?_chain, ihOuter, ihInner, Option.or_none]

theorem function?_hide_of_shown (scope : Scope V) (hshown : noFun name = false) :
    (scope.hide noVar noFun).function? name = scope.function? name := by
  induction scope with
  | builtins =>
      change ((Catalog.functions.map _).hide noFun).get? name =
        (Catalog.functions.get? name).map _
      rw [Bindings.get?_hide_of_shown _ hshown, Bindings.get?_map]
  | table entries => exact Bindings.get?_hide_of_shown _ hshown
  | free values => rfl
  | chain outer inner ihOuter ihInner =>
      rw [hide, function?_chain, ihOuter, ihInner, function?_chain]

theorem call_hide_of_shown (scope : Scope V) (hshown : noFun name = false) (args : List V) :
    (scope.hide noVar noFun).call name args = scope.call name args := by
  rw [call_eq_callFound, callFound, function?_hide_of_shown scope hshown, call_eq_callFound,
    callFound]

theorem losesVariable_withoutVariable (scope : Scope V) (expr : Expr) (name : String) :
    LosesVariable expr name scope (scope.withoutVariable name) where
  missing := scope.value?_hide_of_hidden (beq_self_eq_true name)
  value other _ hother := by
    rw [withoutVariable, value?_hide_of_shown]
    exact beq_false_of_ne hother
  call _ _ args := (scope.call_hide_of_shown rfl args).symm

theorem losesFunction_withoutFunction (scope : Scope V) (expr : Expr) (name : String) :
    LosesFunction expr name scope (scope.withoutFunction name) where
  missing := scope.function?_hide_of_hidden (beq_self_eq_true name)
  value _ _ := (scope.value?_hide_of_shown rfl).symm
  call other _ hother args := by
    rw [withoutFunction, call_hide_of_shown]
    exact beq_false_of_ne hother

/-- A layer that knows none of the names of an expression does not matter to it. -/
theorem agreeOn_chain {expr : Expr} {layer : Scope V} (scope : Scope V)
    (hvalue : ∀ name ∈ expr.variableNames, layer.value? name = none)
    (hfunction : ∀ name ∈ expr.functionNames, layer.function? name = none) :
    AgreeOn expr (.chain layer scope) scope where
  value name hname := by rw [value?_chain, hvalue name hname, Option.none_or]
  call name hname args := by rw [Scope.call, hfunction name hname]

end Scope

/-- Of nodes that all have a value in one scope, some fail in another, all of them in the same way,
and the others do not tell the scopes apart.  Then the first that fails ends the evaluation in the
other scope. -/
theorem exists_stop_of_fails (fails : Node Nat → Prop) {fault : Fault} {nodes : List (Node Nat)}
    (hsame : ∀ node ∈ nodes, ¬fails node → ∀ values : Array V,
      node.evaluate first values = node.evaluate second values)
    (hfails : ∀ node ∈ nodes, fails node → ∀ (values : Array V) (value : V),
      node.evaluate first values = .ok value → node.evaluate second values = .error fault)
    (hexists : ∃ node ∈ nodes, fails node)
    (hresults : evaluateNodes first values nodes = .ok results) :
    ∃ position, evaluateNodes second values nodes = .error ⟨position, fault⟩ := by
  -- Up to that node both evaluations have the same values.
  induction nodes generalizing values with
  | nil =>
      obtain ⟨_, hmem, _⟩ := hexists
      cases hmem
  | cons node rest ih =>
      rw [evaluateNodes] at hresults ⊢
      cases hvalue : node.evaluate first values with
      | error other =>
          rw [hvalue] at hresults
          cases hresults
      | ok value =>
          rw [hvalue] at hresults
          by_cases hnode : fails node
          · rw [hfails node List.mem_cons_self hnode values value hvalue]
            exact ⟨_, rfl⟩
          · rw [← hsame node List.mem_cons_self hnode values, hvalue]
            apply ih
            · exact fun other hother => hsame other (List.mem_cons_of_mem node hother)
            · exact fun other hother => hfails other (List.mem_cons_of_mem node hother)
            · obtain ⟨other, hother, hfailing⟩ := hexists
              rcases List.mem_cons.mp hother with rfl | hother
              · exact absurd hfailing hnode
              · exact ⟨other, hother, hfailing⟩
            · exact hresults

namespace Expr

variable {expr : Expr} {name : String} {value : V} {node : Node Nat}

theorem exists_results_of_evaluate (hvalue : expr.evaluate first = .ok value) :
    ∃ results, evaluateNodes first #[] expr.nodes = .ok results := by
  rw [evaluate] at hvalue
  cases hrun : expr.run first with
  | error stop =>
      rw [hrun] at hvalue
      cases hvalue
  | ok results => exact ⟨results, hrun⟩

theorem evaluate_of_stop {position : Nat} {fault : Fault}
    (hstop : evaluateNodes second #[] expr.nodes = .error ⟨position, fault⟩) :
    expr.evaluate second = .error fault := by
  have hrun : expr.run second = .error ⟨position, fault⟩ := hstop
  rw [evaluate, hrun]

/-- An expression that has a value fails without one of its variables. -/
theorem evaluate_of_losesVariable (hvalue : expr.evaluate first = .ok value)
    (hname : name ∈ expr.variableNames) (hloses : Scope.LosesVariable expr name first second) :
    expr.evaluate second = .error (.unknownVariable name) := by
  obtain ⟨results, hresults⟩ := exists_results_of_evaluate hvalue
  have hstop : ∃ position, evaluateNodes second #[] expr.nodes =
      .error ⟨position, .unknownVariable name⟩ := by
    refine exists_stop_of_fails (fun node => node = .var name) ?_ ?_
      ⟨_, exists_var_of_mem_variableNames hname, rfl⟩ hresults
    · intro node hnode hother values
      apply Node.evaluate_congr
      · intro title htitle
        apply hloses.value title (mem_variableNames hnode htitle)
        rintro rfl
        cases node with
        | var _ =>
            cases htitle
            exact hother rfl
        | literal _ | unary _ _ | binary _ _ _ | call _ _ | bare => cases htitle
      · exact fun title htitle => hloses.call title (mem_functionNames hnode htitle)
    · rintro node - rfl values found -
      rw [Node.evaluate, hloses.missing]
  obtain ⟨position, hposition⟩ := hstop
  exact evaluate_of_stop hposition

/-- An expression that has a value fails without one of its functions. -/
theorem evaluate_of_losesFunction (hvalue : expr.evaluate first = .ok value)
    (hname : name ∈ expr.functionNames) (hloses : Scope.LosesFunction expr name first second) :
    expr.evaluate second = .error (.unknownFunction name) := by
  obtain ⟨results, hresults⟩ := exists_results_of_evaluate hvalue
  obtain ⟨args, hcall⟩ := exists_call_of_mem_functionNames hname
  have hstop : ∃ position, evaluateNodes second #[] expr.nodes =
      .error ⟨position, .unknownFunction name⟩ := by
    refine exists_stop_of_fails (fun node => name ∈ node.functionName?) ?_ ?_
      ⟨_, hcall, rfl⟩ hresults
    · intro node hnode hother values
      apply Node.evaluate_congr
      · exact fun title htitle => hloses.value title (mem_variableNames hnode htitle)
      · intro title htitle
        apply hloses.call title (mem_functionNames hnode htitle)
        rintro rfl
        exact hother htitle
    · intro node _ hfunction values found hfound
      cases node with
      | call title operands =>
          cases hfunction
          -- Where the call had a value, its arguments had values too.
          rw [Node.evaluate] at hfound ⊢
          cases hargs : operands.mapM (slot values) with
          | error fault =>
              rw [hargs] at hfound
              cases hfound
          | ok arguments =>
              change second.call name arguments = _
              rw [Scope.call_eq_callFound, Scope.callFound, hloses.missing]
      | literal _ | var _ | unary _ _ | binary _ _ _ | bare => cases hfunction
  obtain ⟨position, hposition⟩ := hstop
  exact evaluate_of_stop hposition

/-- The value of an expression depends on the names of its variables and functions, and on all of
them.  Scopes that agree on these give it the same value or the same fault.  Where it has a value,
it fails in a scope that lacks one of its variables and agrees on the rest, as the same scope
without that variable does, and likewise in one that lacks one of its functions.  A layer in front
that knows none of the names changes nothing. -/
theorem evaluate_depends_on_names (expr : Expr) (scope : Scope V) :
    (∀ other : Scope V, Scope.AgreeOn expr scope other →
      expr.evaluate scope = expr.evaluate other) ∧
    (∀ value, expr.evaluate scope = .ok value → ∀ name ∈ expr.variableNames,
      (∀ other : Scope V, Scope.LosesVariable expr name scope other →
        expr.evaluate other = .error (.unknownVariable name)) ∧
      Scope.LosesVariable expr name scope (scope.withoutVariable name) ∧
      expr.evaluate (scope.withoutVariable name) = .error (.unknownVariable name)) ∧
    (∀ value, expr.evaluate scope = .ok value → ∀ name ∈ expr.functionNames,
      (∀ other : Scope V, Scope.LosesFunction expr name scope other →
        expr.evaluate other = .error (.unknownFunction name)) ∧
      Scope.LosesFunction expr name scope (scope.withoutFunction name) ∧
      expr.evaluate (scope.withoutFunction name) = .error (.unknownFunction name)) ∧
    ∀ layer : Scope V, (∀ name ∈ expr.variableNames, layer.value? name = none) →
      (∀ name ∈ expr.functionNames, layer.function? name = none) →
      expr.evaluate (.chain layer scope) = expr.evaluate scope := by
  refine ⟨fun other hagree => evaluate_congr hagree.value hagree.call, ?_, ?_, ?_⟩
  · intro value hvalue name hname
    have hwithout := scope.losesVariable_withoutVariable expr name
    exact ⟨fun other => evaluate_of_losesVariable hvalue hname, hwithout,
      evaluate_of_losesVariable hvalue hname hwithout⟩
  · intro value hvalue name hname
    have hwithout := scope.losesFunction_withoutFunction expr name
    exact ⟨fun other => evaluate_of_losesFunction hvalue hname, hwithout,
      evaluate_of_losesFunction hvalue hname hwithout⟩
  · intro layer hlayer hfunctions
    have hagree := Scope.agreeOn_chain scope hlayer hfunctions
    exact evaluate_congr hagree.value hagree.call

end Expr

end Reckon
