import Reckon.Proofs.Scope.Builtin

/-
Scopes that give all names the same meaning.  An expression has the same value in them, because
its value depends on nothing but the variables and the functions that it names.  The catalog as a
case distinction and the catalog as a table are such scopes, below any layers.
-/

namespace Reckon

variable {V : Type} [Elementwise V] {first second : Scope V} {values : Array V}

theorem Node.evaluate_congr {node : Node Nat}
    (hvalue : ∀ name ∈ node.variableName?, first.value? name = second.value? name)
    (hcall : ∀ name ∈ node.functionName?, ∀ args, first.call name args = second.call name args) :
    node.evaluate first values = node.evaluate second values := by
  cases node with
  | var name => rw [evaluate, evaluate, hvalue name rfl]
  | call name args =>
      have hsame : first.call name = second.call name := funext (hcall name rfl)
      rw [evaluate, evaluate, hsame]
  | literal value => rfl
  | unary operator operand => rfl
  | binary operator left right => rfl
  | bare => rfl

theorem evaluateNodes_congr {nodes : List (Node Nat)}
    (hvalue : ∀ node ∈ nodes, ∀ name ∈ node.variableName?,
      first.value? name = second.value? name)
    (hcall : ∀ node ∈ nodes, ∀ name ∈ node.functionName?, ∀ args,
      first.call name args = second.call name args) :
    evaluateNodes first values nodes = evaluateNodes second values nodes := by
  induction nodes generalizing values with
  | nil => rfl
  | cons node rest ih =>
      have hnode : node.evaluate first values = node.evaluate second values :=
        Node.evaluate_congr (hvalue node List.mem_cons_self) (hcall node List.mem_cons_self)
      rw [evaluateNodes, evaluateNodes, hnode]
      cases node.evaluate second values with
      | error fault => rfl
      | ok value =>
          exact ih (fun other hother => hvalue other (List.mem_cons_of_mem node hother))
            fun other hother => hcall other (List.mem_cons_of_mem node hother)

/-- The value of an expression depends on the names that occur in it alone. -/
theorem Expr.evaluate_congr {expr : Expr}
    (hvalue : ∀ name ∈ expr.variableNames, first.value? name = second.value? name)
    (hcall : ∀ name ∈ expr.functionNames, ∀ args,
      first.call name args = second.call name args) :
    expr.evaluate first = expr.evaluate second := by
  have hrun : expr.run first = expr.run second := by
    apply evaluateNodes_congr
    · exact fun node hnode name hname => hvalue name (mem_variableNames hnode hname)
    · exact fun node hnode name hname => hcall name (mem_functionNames hnode hname)
  rw [evaluate, evaluate, hrun]

namespace Scope

/-- The scopes give every name the same meaning. -/
structure Alike (first second : Scope V) : Prop where
  value : ∀ name, first.value? name = second.value? name
  function : ∀ name, first.function? name = second.function? name

namespace Alike

variable {outer other inner : Scope V}

theorem call (halike : first.Alike second) (name : String) (args : List V) :
    first.call name args = second.call name args := by
  rw [call_eq_callFound, call_eq_callFound, callFound, callFound, halike.function name]

theorem evaluate (halike : first.Alike second) (expr : Expr) :
    expr.evaluate first = expr.evaluate second :=
  Expr.evaluate_congr (fun name _ => halike.value name) fun name _ => halike.call name

theorem chain (houter : outer.Alike other) (hinner : first.Alike second) :
    (Scope.chain outer first).Alike (.chain other second) where
  value name := by rw [value?_chain, value?_chain, houter.value, hinner.value]
  function name := by rw [function?_chain, function?_chain, houter.function, hinner.function]

/-- Layers in front of scopes that are alike cover the same names of them. -/
theorem foldr_chain (halike : first.Alike second) (layers : List (Scope V)) :
    (layers.foldr .chain first).Alike (layers.foldr .chain second) := by
  induction layers with
  | nil => exact halike
  | cons layer rest ih => exact chain ⟨fun _ => rfl, fun _ => rfl⟩ ih

end Alike

end Scope

namespace Catalog

theorem constant?_eq_get? (name : String) : constant? name = constants.get? name := by
  unfold constant?
  split <;> simp_all [constants, Bindings.get?, Bindings.lookup, eq_comm]

/-- A built-in function never finds a name unknown. -/
theorem call_ne_unknownFunction {name other : String} {args : List V} {builtin : Builtin}
    (hfound : functions.get? name = some builtin) :
    (call name args : Except Fault V) ≠ .error (.unknownFunction other) := by
  have hfunction : (Scope.builtins : Scope V).function? name = some (builtin.function V) := by
    rw [Scope.function?, hfound]
    rfl
  rw [call_eq_callFound, Scope.callFound, hfunction]
  dsimp only
  by_cases hcount : (builtin.function V).arity.Accepts args.length
  · obtain ⟨value, hvalue⟩ := builtin.meaning.exists_apply hcount
    rw [Function.call_of_accepts hcount]
    intro hfault
    change builtin.meaning.apply args = _ at hfault
    rw [hvalue] at hfault
    cases hfault
  · rw [Function.call_of_not_accepts hcount]
    intro hfault
    exact Arity.mismatch_ne_unknownFunction _ _ _ _ (Except.error.inj hfault)

end Catalog

namespace Store

variable [Callable.Carrier V]

/-- What a table means that has just been added with the built-in constants and functions. -/
def freshScope (store : Store) : Scope V :=
  (store.add catalogTable).2.scope (store.add catalogTable).1

/-- The fixed catalog finds the function that a table with the catalog holds, carried out. -/
theorem function?_builtins (store : Store) (name : String) :
    (Scope.builtins : Scope V).function? name =
      (catalogTable.functions.get? name).map (Function.map (store.implement store.depth)) := by
  rw [catalogTable, Table.ofCatalog, Bindings.get?_map, Option.map_map, Scope.function?]
  congr 1
  funext builtin
  rw [Function.comp, Function.map, implement_builtin]
  rfl

theorem builtins_alike_freshScope (store : Store) :
    (Scope.builtins : Scope V).Alike store.freshScope := by
  have htable : (store.add catalogTable).2.table store.tables.size = catalogTable := by
    simp [add, table]
  constructor
  · intro name
    change _ = (((store.add catalogTable).2.table store.tables.size).constants.get? name).map _
    rw [htable, Scope.value?, Catalog.constant?_eq_get?]
    rfl
  · intro name
    change _ = (((store.add catalogTable).2.table store.tables.size).functions.map _).get? name
    rw [htable, Bindings.get?_map, function?_builtins (store.add catalogTable).2]

/-- The fixed catalog and a new table with the catalog are not to be told apart: below any layers
every expression has the same value or the same fault in both, they call the same functions, and
the fixed catalog finds those names unknown that stand for no function. -/
theorem catalogs_indistinguishable (store : Store) (layers : List (Scope V)) (expr : Expr) :
    expr.evaluate (layers.foldr .chain .builtins) =
      expr.evaluate (layers.foldr .chain store.freshScope) ∧
    (∀ name, (Scope.builtins : Scope V).value? name = store.freshScope.value? name ∧
      (Scope.builtins : Scope V).function? name = store.freshScope.function? name) ∧
    (∀ name args, (Scope.builtins : Scope V).call name args = store.freshScope.call name args) ∧
    ∀ name args other,
      (Scope.builtins : Scope V).call name args = .error (.unknownFunction other) ↔
        (Scope.builtins : Scope V).function? name = none ∧ other = name := by
  have halike : (Scope.builtins : Scope V).Alike store.freshScope :=
    store.builtins_alike_freshScope
  refine ⟨(halike.foldr_chain layers).evaluate expr,
    fun name => ⟨halike.value name, halike.function name⟩, halike.call, ?_⟩
  intro name args other
  constructor
  · intro hfault
    cases hfound : Catalog.functions.get? name with
    | some builtin => exact absurd hfault (Catalog.call_ne_unknownFunction hfound)
    | none =>
        have hnone : (Scope.builtins : Scope V).function? name = none := by
          rw [Scope.function?, hfound]
          rfl
        rw [Scope.call_eq_callFound, Scope.callFound, hnone] at hfault
        cases hfault
        exact ⟨hnone, rfl⟩
  · rintro ⟨hnone, rfl⟩
    rw [Scope.call_eq_callFound, Scope.callFound, hnone]

end Store

end Reckon
