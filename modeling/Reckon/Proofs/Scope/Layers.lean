import Reckon.Proofs.Scope.Alike

/-
Chains as lists of layers.  However a chain is bracketed, a name means what the first layer that
defines it says, variables and functions each for themselves, and a call goes to the function that
is found under its name.
-/

namespace Reckon

variable {V α : Type}

namespace Catalog

theorem name_of_get? {name : String} {builtin : Builtin}
    (hget : functions.get? name = some builtin) : builtin.name = name := by
  rw [functions, Bindings.get?] at hget
  generalize entries = builtins at hget
  induction builtins with
  | nil => cases hget
  | cons first rest ih =>
      rw [List.map_cons, Bindings.lookup] at hget
      split at hget
      · rename_i hname
        cases hget
        exact hname
      · exact ih hget

end Catalog

namespace Table

/-- The tables there are: empty ones and ones with the catalog, in which names were defined and
removed. -/
inductive Built : Table α → Prop
  | empty : Built empty
  | ofCatalog (implement : Builtin → α) : Built (ofCatalog implement)
  | withConstant {table : Table α} (htable : Built table) (name : String) (value : Float) :
      Built (table.withConstant name value)
  | withFunction {table : Table α} (htable : Built table) (function : Function α) :
      Built (table.withFunction function)
  | without {table : Table α} (htable : Built table) (name : String) : Built (table.without name)

/-- Functions stand under their own names. -/
theorem Built.name_eq {table : Table α} (htable : table.Built) {name : String}
    {function : Function α} (hget : table.functions.get? name = some function) :
    function.name = name := by
  induction htable with
  | empty => cases hget
  | ofCatalog implement =>
      rw [Table.ofCatalog, Bindings.get?_map] at hget
      obtain ⟨builtin, hfound, rfl⟩ := Option.map_eq_some_iff.mp hget
      exact Catalog.name_of_get? hfound
  | withConstant _ _ _ ih => exact ih hget
  | withFunction _ added ih =>
      by_cases hname : name = added.name
      · rw [hname, Table.withFunction, Bindings.get?_put_self] at hget
        cases hget
        exact hname.symm
      · rw [Table.withFunction, Bindings.get?_put_of_ne hname] at hget
        exact ih hget
  | without _ removed ih =>
      by_cases hname : name = removed
      · rw [hname, Table.without, Bindings.get?_erase_self] at hget
        cases hget
      · rw [Table.without, Bindings.get?_erase_of_ne hname] at hget
        exact ih hget

end Table

namespace Scope

/-- The layers of a chain, the outermost first. -/
def layers : Scope V → List (Scope V)
  | .chain outer inner => outer.layers ++ inner.layers
  | scope => [scope]

/-- All tables of the scope have been made. -/
def Built : Scope V → Prop
  | .table entries => entries.Built
  | .chain outer inner => outer.Built ∧ inner.Built
  | _ => True

/-- What the first layer that knows anything knows. -/
def FirstKnows (knows : Scope V → α → Prop) (layers : List (Scope V)) (meaning : α) : Prop :=
  ∃ before layer after, layers = before ++ layer :: after ∧ knows layer meaning ∧
    ∀ other ∈ before, ∀ found, ¬knows other found

theorem findSome?_eq_some_iff_firstKnows {find : Scope V → Option α}
    {knows : Scope V → α → Prop} {layers : List (Scope V)}
    (hknows : ∀ layer ∈ layers, ∀ found, find layer = some found ↔ knows layer found)
    (meaning : α) : layers.findSome? find = some meaning ↔ FirstKnows knows layers meaning := by
  rw [List.findSome?_eq_some_iff]
  constructor
  · rintro ⟨before, layer, after, rfl, hfind, hbefore⟩
    refine ⟨before, layer, after, rfl, (hknows layer (by simp) meaning).mp hfind, ?_⟩
    intro other hother found hfound
    rw [← hknows other (by simp [hother]), hbefore other hother] at hfound
    cases hfound
  · rintro ⟨before, layer, after, rfl, hlayer, hbefore⟩
    refine ⟨before, layer, after, rfl, (hknows layer (by simp) meaning).mpr hlayer, ?_⟩
    intro other hother
    cases hfind : find other with
    | none => rfl
    | some found =>
        exact absurd ((hknows other (by simp [hother]) found).mp hfind) (hbefore other hother found)

theorem findSome?_eq_none_iff_not_knows {find : Scope V → Option α}
    {knows : Scope V → α → Prop} {layers : List (Scope V)}
    (hknows : ∀ layer ∈ layers, ∀ found, find layer = some found ↔ knows layer found) :
    layers.findSome? find = none ↔ ∀ layer ∈ layers, ∀ found, ¬knows layer found := by
  rw [List.findSome?_eq_none_iff]
  constructor
  · intro hnone layer hlayer found hfound
    rw [← hknows layer hlayer, hnone layer hlayer] at hfound
    cases hfound
  · intro hnone layer hlayer
    cases hfind : find layer with
    | none => rfl
    | some found =>
        exact absurd ((hknows layer hlayer found).mp hfind) (hnone layer hlayer found)

theorem layers_chained (outer : Scope V) (more : List (Scope V)) :
    (chained outer more).layers = (outer :: more).flatMap layers := by
  induction more generalizing outer with
  | nil => simp [chained]
  | cons inner rest ih => rw [chained, layers, ih, ← List.flatMap_cons]

/-- A layer is no chain itself. -/
theorem ne_chain_of_mem_layers {scope layer : Scope V} (hlayer : layer ∈ scope.layers)
    (outer inner : Scope V) : layer ≠ .chain outer inner := by
  induction scope with
  | chain first second ihFirst ihSecond =>
      rcases List.mem_append.mp hlayer with hlayer | hlayer
      · exact ihFirst hlayer
      · exact ihSecond hlayer
  | builtins | table entries | free values =>
      rw [List.mem_singleton.mp hlayer]
      simp

variable [Elementwise V] {scope layer : Scope V} {name : String}

/-- A single layer defines a variable, with any number as its value. -/
inductive Defines : Scope V → String → V → Prop
  | builtin {name : String} {x : Float} (hget : Catalog.constants.get? name = some x) :
      Defines .builtins name (Elementwise.const x)
  | entry {entries : Table (Implementation V)} {name : String} {x : Float}
      (hget : entries.constants.get? name = some x) :
      Defines (.table entries) name (Elementwise.const x)
  | free {values : List (String × V)} {name : String} {value : V}
      (hlookup : Bindings.lookup name values = some value) : Defines (.free values) name value

/-- A single layer provides a function. -/
inductive Provides : Scope V → String → Function (Implementation V) → Prop
  | builtin {name : String} {builtin : Builtin}
      (hget : Catalog.functions.get? name = some builtin) :
      Provides .builtins name (builtin.function V)
  | entry {entries : Table (Implementation V)} {name : String}
      {function : Function (Implementation V)}
      (hget : entries.functions.get? name = some function) :
      Provides (.table entries) name function

theorem value?_eq_findSome? (scope : Scope V) (name : String) :
    scope.value? name = scope.layers.findSome? fun layer => layer.value? name := by
  induction scope with
  | chain outer inner ihOuter ihInner =>
      rw [value?_chain, layers, List.findSome?_append, ihOuter, ihInner]
  | builtins | table entries | free values => simp [layers]

theorem function?_eq_findSome? (scope : Scope V) (name : String) :
    scope.function? name = scope.layers.findSome? fun layer => layer.function? name := by
  induction scope with
  | chain outer inner ihOuter ihInner =>
      rw [function?_chain, layers, List.findSome?_append, ihOuter, ihInner]
  | builtins | table entries | free values => simp [layers]

theorem value?_eq_some_iff_defines (hlayer : layer ∈ scope.layers) (value : V) :
    layer.value? name = some value ↔ layer.Defines name value := by
  cases layer with
  | chain outer inner => exact absurd rfl (ne_chain_of_mem_layers hlayer outer inner)
  | builtins =>
      rw [value?, Catalog.constant?_eq_get?, Option.map_eq_some_iff]
      constructor
      · rintro ⟨x, hget, rfl⟩
        exact .builtin hget
      · intro hdefines
        cases hdefines with
        | builtin hget => exact ⟨_, hget, rfl⟩
  | table entries =>
      rw [value?, Option.map_eq_some_iff]
      constructor
      · rintro ⟨x, hget, rfl⟩
        exact .entry hget
      · intro hdefines
        cases hdefines with
        | entry hget => exact ⟨_, hget, rfl⟩
  | free values =>
      constructor
      · exact .free
      · intro hdefines
        cases hdefines with
        | free hlookup => exact hlookup

theorem function?_eq_some_iff_provides (hlayer : layer ∈ scope.layers)
    (function : Function (Implementation V)) :
    layer.function? name = some function ↔ layer.Provides name function := by
  cases layer with
  | chain outer inner => exact absurd rfl (ne_chain_of_mem_layers hlayer outer inner)
  | builtins =>
      rw [function?, Option.map_eq_some_iff]
      constructor
      · rintro ⟨builtin, hget, rfl⟩
        exact .builtin hget
      · intro hprovides
        cases hprovides with
        | builtin hget => exact ⟨_, hget, rfl⟩
  | table entries =>
      constructor
      · exact .entry
      · intro hprovides
        cases hprovides with
        | entry hget => exact hget
  | free values =>
      constructor
      · intro hfunction
        cases hfunction
      · intro hprovides
        cases hprovides

/-- What is found in a scope whose tables have been made stands under its own name. -/
theorem Built.name_of_function? (hscope : scope.Built) {function : Function (Implementation V)}
    (hfound : scope.function? name = some function) : function.name = name := by
  induction scope with
  | builtins =>
      obtain ⟨builtin, hget, rfl⟩ := Option.map_eq_some_iff.mp hfound
      exact Catalog.name_of_get? hget
  | table entries => exact Table.Built.name_eq hscope hfound
  | free values => cases hfound
  | chain outer inner ihOuter ihInner =>
      rw [function?_chain, Option.or_eq_some_iff] at hfound
      rcases hfound with hfound | ⟨_, hfound⟩
      · exact ihOuter hscope.1 hfound
      · exact ihInner hscope.2 hfound

/-- Only the order of the layers counts, not how they are bracketed. -/
theorem alike_of_layers_eq {other : Scope V} (hlayers : other.layers = scope.layers) :
    other.Alike scope where
  value name := by rw [value?_eq_findSome?, hlayers, ← value?_eq_findSome?]
  function name := by rw [function?_eq_findSome?, hlayers, ← function?_eq_findSome?]

/-- A name means in a chain what the first layer that defines it says; variables and functions do
not hide each other.  A call checks the number of arguments of the function that is found and
applies it; the name is unknown in a call only if none is found, unless the function itself says
so.  All chains of the same layers in the same order are alike, the flat one included. -/
theorem lookup_first_layer (scope : Scope V) (hscope : scope.Built) :
    (∀ name value, scope.value? name = some value ↔
      FirstKnows (fun layer => layer.Defines name) scope.layers value) ∧
    (∀ name, scope.value? name = none ↔
      ∀ layer ∈ scope.layers, ∀ value, ¬layer.Defines name value) ∧
    (∀ name function, scope.function? name = some function ↔
      FirstKnows (fun layer => layer.Provides name) scope.layers function) ∧
    (∀ name, scope.function? name = none ↔
      ∀ layer ∈ scope.layers, ∀ function, ¬layer.Provides name function) ∧
    (∀ name function args, scope.function? name = some function →
      function.name = name ∧
      (function.arity.Accepts args.length →
        scope.call name args = function.implementation args) ∧
      (¬function.arity.Accepts args.length →
        scope.call name args = .error (function.arity.mismatch args.length (some name)))) ∧
    (∀ name args, scope.call name args = .error (.unknownFunction name) ↔
      scope.function? name = none ∨ ∃ function, scope.function? name = some function ∧
        function.arity.Accepts args.length ∧
        function.implementation args = .error (.unknownFunction name)) ∧
    (∀ outer more, (chained outer more : Scope V).layers = (outer :: more).flatMap layers) ∧
    ∀ other : Scope V, other.layers = scope.layers →
      (∀ name, other.value? name = scope.value? name ∧
        other.function? name = scope.function? name) ∧
      (∀ name args, other.call name args = scope.call name args) ∧
      ∀ expr : Expr, expr.evaluate other = expr.evaluate scope := by
  have hfound : ∀ name function args, scope.function? name = some function →
      scope.call name args = function.call args := by
    intro name function args hfunction
    rw [call_eq_callFound, callFound, hfunction]
  refine ⟨?_, ?_, ?_, ?_, ?_, ?_, layers_chained, ?_⟩
  · intro name value
    rw [value?_eq_findSome?]
    exact findSome?_eq_some_iff_firstKnows (fun _ => value?_eq_some_iff_defines) value
  · intro name
    rw [value?_eq_findSome?]
    exact findSome?_eq_none_iff_not_knows fun _ => value?_eq_some_iff_defines
  · intro name function
    rw [function?_eq_findSome?]
    exact findSome?_eq_some_iff_firstKnows (fun _ => function?_eq_some_iff_provides) function
  · intro name
    rw [function?_eq_findSome?]
    exact findSome?_eq_none_iff_not_knows fun _ => function?_eq_some_iff_provides
  · intro name function args hfunction
    have hname := hscope.name_of_function? hfunction
    rw [hfound name function args hfunction, ← hname]
    exact ⟨rfl, Function.call_of_accepts, Function.call_of_not_accepts⟩
  · intro name args
    cases hfunction : scope.function? name with
    | none => simp [call_eq_callFound, callFound, hfunction]
    | some function =>
        rw [hfound name function args hfunction]
        by_cases hcount : function.arity.Accepts args.length
        · simp [Function.call_of_accepts hcount, hcount]
        · simp [Function.call_of_not_accepts hcount, hcount, Arity.mismatch_ne_unknownFunction]
  · intro other hlayers
    have halike := alike_of_layers_eq hlayers
    exact ⟨fun name => ⟨halike.value name, halike.function name⟩, halike.call, halike.evaluate⟩

/-- A free variable in front of a table that changes a constant of the catalog and has a function
of the variable's name. -/
def shadowing : Scope Float :=
  .chain (.chain (.free [("x", 0.0)])
    (.table ((Table.empty.withConstant "pi" 3.0).withFunction
      ⟨"x", Arity.exact 2, fun _ => .ok 1.0, ""⟩))) .builtins

theorem lookup_shadowing :
    shadowing.value? "x" = some 0.0 ∧ shadowing.value? "pi" = some 3.0 ∧
      shadowing.value? "y" = none ∧
      shadowing.call "x" [0.0] = .error (.wrongCount 2 (some "x") (some 1)) := by
  have hbuilt : shadowing.Built :=
    ⟨⟨trivial, .withFunction (.withConstant .empty _ _) _⟩, trivial⟩
  obtain ⟨hvalue, hnone, _, _, hcall, _⟩ := lookup_first_layer shadowing hbuilt
  refine ⟨?_, ?_, ?_, ?_⟩
  · rw [hvalue]
    exact ⟨[], _, _, rfl, .free rfl, by simp⟩
  · rw [hvalue]
    refine ⟨[.free [("x", 0.0)]], _, [.builtins], rfl, .entry rfl, ?_⟩
    intro other hother found hfound
    rw [List.mem_singleton.mp hother] at hfound
    cases hfound with
    | free hlookup => cases hlookup
  · rw [hnone]
    intro layer hlayer value hdefines
    simp only [shadowing, layers, List.cons_append, List.nil_append, List.mem_cons,
      List.not_mem_nil, or_false] at hlayer
    rcases hlayer with rfl | rfl | rfl
    · cases hdefines with
      | free hlookup => cases hlookup
    · cases hdefines with
      | entry hget => cases hget
    · cases hdefines with
      | builtin hget => cases hget
  · exact (hcall "x" _ [0.0] rfl).2.2 (by decide)

/-- Calls a function `f` that the context need not have. -/
def callOfF : Expr :=
  ⟨[.var "x", .call "f" [0]], none, by simp, by simp [OperandsBefore, Node.operands]⟩

/-- A table whose function `f` has a body that calls `f`, but where only the catalog is known. -/
def selfNaming : Store :=
  ⟨#[Table.empty.withFunction ⟨"f", Arity.exact 1, .body ⟨callOfF, .builtins, ["x"]⟩, ""⟩]⟩

/-- A call may say that a name is unknown although it is found, because the function says so. -/
theorem unknownFunction_of_body :
    (selfNaming.scope (.table 0) : Scope Float).Built ∧
      ¬((selfNaming.scope (.table 0) : Scope Float).call "f" [1.0] =
          .error (.unknownFunction "f") ↔
        (selfNaming.scope (.table 0) : Scope Float).function? "f" = none) := by
  have hscope : (selfNaming.scope (.table 0) : Scope Float) =
      .table (Table.empty.withFunction ⟨"f", Arity.exact 1,
        selfNaming.implement selfNaming.depth (.body ⟨callOfF, .builtins, ["x"]⟩), ""⟩) := rfl
  have hfault : (selfNaming.scope (.table 0) : Scope Float).call "f" [1.0] =
      .error (.unknownFunction "f") := rfl
  refine ⟨?_, ?_⟩
  · rw [hscope]
    exact .withFunction .empty _
  · intro hiff
    cases hiff.mp hfault

end Scope

end Reckon
