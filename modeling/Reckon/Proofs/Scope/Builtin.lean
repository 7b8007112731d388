import Reckon.Proofs.Expr.Agreement
import Reckon.Scope.Store

/-
Contexts that hold nothing but constants and built-in functions.  Their functions work place by
place, so that they agree on all kinds of values, and they fail with a diagnostic or not at all.
-/

namespace Reckon

variable {V W : Type} [Elementwise V] [Elementwise W] {related : V → W → Prop} {args : List V}
  {others : List W}

namespace Meaning

theorem foldl_related (hcompatible : Elementwise.Compatible related) (f : Float → Float → Float)
    {x : V} {y : W} (hstart : related x y) (hargs : List.Forall₂ related args others) :
    related (args.foldl (Elementwise.map₂ f) x) (others.foldl (Elementwise.map₂ f) y) := by
  induction hargs generalizing x y with
  | nil => exact hstart
  | cons hhead _ ih => exact ih (hcompatible.map₂ f _ _ _ _ hstart hhead)

/-- A built-in function does the same on all kinds of values. -/
theorem apply_agree (hcompatible : Elementwise.Compatible related) (meaning : Meaning)
    (hargs : List.Forall₂ related args others) :
    Agree related (meaning.apply args) (meaning.apply others) := by
  cases meaning with
  | unary f =>
      match hargs with
      | .nil => exact rfl
      | .cons hhead .nil => exact hcompatible.map f _ _ hhead
      | .cons _ (.cons _ _) => exact rfl
  | binary f =>
      match hargs with
      | .nil => exact rfl
      | .cons _ .nil => exact rfl
      | .cons hfirst (.cons hsecond .nil) => exact hcompatible.map₂ f _ _ _ _ hfirst hsecond
      | .cons _ (.cons _ (.cons _ _)) => exact rfl
  | fold f =>
      match hargs with
      | .nil => exact rfl
      | .cons hhead hrest => exact foldl_related hcompatible f hhead hrest

/-- With as many arguments as it takes a built-in function does not fail. -/
theorem exists_apply (meaning : Meaning) (hargs : meaning.arity.Accepts args.length) :
    ∃ value, meaning.apply args = .ok value := by
  cases meaning with
  | unary f =>
      obtain ⟨x, rfl⟩ := List.length_eq_one_iff.mp hargs
      exact ⟨_, rfl⟩
  | binary f =>
      obtain ⟨x, y, rfl⟩ := List.length_eq_two.mp hargs
      exact ⟨_, rfl⟩
  | fold f =>
      cases args with
      | nil => simp [arity, Arity.atLeast, Arity.Accepts] at hargs
      | cons x rest => exact ⟨_, rfl⟩

end Meaning

theorem rel_or {α β : Type} {related : α → β → Prop} {first second : Option α}
    {other further : Option β} (hfirst : Option.Rel related first other)
    (hsecond : Option.Rel related second further) :
    Option.Rel related (first.or second) (other.or further) := by
  cases hfirst with
  | none => exact hsecond
  | some hvalue => exact .some hvalue

theorem Arity.check_error {arity : Arity} {count : Nat} {name : Option String} {fault : Fault}
    (hfault : arity.check count name = .error fault) : fault.diagnostic?.isSome = true := by
  obtain ⟨minimum, variadic⟩ := arity
  cases variadic
  · simp only [check, checkCount, Bool.false_eq_true, ↓reduceIte] at hfault
    split at hfault
    · cases hfault
    · cases hfault
      rfl
  · simp only [check, checkMinimum, ↓reduceIte] at hfault
    split at hfault
    · cases hfault
      rfl
    · cases hfault

namespace Catalog

theorem oneArg_eq_call (name doc : String) (f : Float → Float) (args : List V) :
    oneArg name args f = (Builtin.function V ⟨name, .unary f, doc⟩).call args := by
  match args with
  | [] => rfl
  | [_] => rfl
  | _ :: _ :: _ => rfl

theorem twoArgs_eq_call (name doc : String) (f : Float → Float → Float) (args : List V) :
    twoArgs name args f = (Builtin.function V ⟨name, .binary f, doc⟩).call args := by
  match args with
  | [] => rfl
  | [_] => rfl
  | [_, _] => rfl
  | _ :: _ :: _ :: _ => rfl

theorem oneOrMoreArgs_eq_call (name doc : String) (f : Float → Float → Float) (args : List V) :
    oneOrMoreArgs name args f = (Builtin.function V ⟨name, .fold f, doc⟩).call args := by
  cases args <;> rfl

/-- The fixed catalog calls the function that stands in the table under this name. -/
theorem call_eq_callFound (name : String) (args : List V) :
    call name args = Scope.callFound .builtins name args := by
  unfold call
  split
  case h_24 =>
    have hnone : functions.get? name = none := by
      simp_all [functions, entries, Bindings.get?, Bindings.lookup, eq_comm]
    simp [Scope.callFound, Scope.function?, hnone]
  all_goals
    first
    | exact oneArg_eq_call _ _ _ args
    | exact twoArgs_eq_call _ _ _ args
    | exact oneOrMoreArgs_eq_call _ _ _ args

end Catalog

/-- Every scope calls the function that it knows under the name. -/
theorem Scope.call_eq_callFound (scope : Scope V) (name : String) (args : List V) :
    scope.call name args = scope.callFound name args := by
  induction scope with
  | builtins => exact Catalog.call_eq_callFound name args
  | table entries => rfl
  | free values => rfl
  | chain outer inner ihOuter ihInner =>
      simp only [call, ihOuter, ihInner, callFound, function?_chain]
      cases outer.function? name <;> rfl

/-- A function that checks the number of its arguments and does what a built-in one does. -/
def Function.ofMeaning (V : Type) [Elementwise V] (name : String) (arity : Arity)
    (meaning : Meaning) (doc : String) : Function (Implementation V) :=
  ⟨name, arity, meaning.apply, doc⟩

namespace Function

variable {name doc : String} {arity : Arity} {meaning : Meaning}

theorem call_agree (hcompatible : Elementwise.Compatible related)
    (hargs : List.Forall₂ related args others) :
    Agree related ((ofMeaning V name arity meaning doc).call args)
      ((ofMeaning W name arity meaning doc).call others) := by
  rw [call, call, hargs.length_eq]
  change Agree related (arity.check others.length (some name) >>= fun _ => meaning.apply args)
    (arity.check others.length (some name) >>= fun _ => meaning.apply others)
  cases arity.check others.length (some name) with
  | error fault => exact rfl
  | ok _ => exact meaning.apply_agree hcompatible hargs

theorem call_error (haccepts : ∀ count, arity.Accepts count → meaning.arity.Accepts count)
    {fault : Fault} (hfault : (ofMeaning V name arity meaning doc).call args = .error fault) :
    fault.diagnostic?.isSome = true := by
  change (arity.check args.length (some name) >>= fun _ => meaning.apply args) = _ at hfault
  cases hcheck : arity.check args.length (some name) with
  | error other =>
      rw [hcheck] at hfault
      cases hfault
      exact Arity.check_error hcheck
  | ok _ =>
      have hcount := haccepts _ ((arity.check_eq_ok_iff _ _).mp hcheck)
      obtain ⟨value, hvalue⟩ := meaning.exists_apply hcount
      rw [hcheck] at hfault
      change meaning.apply args = .error fault at hfault
      rw [hvalue] at hfault
      cases hfault

end Function

/-- The function does what a built-in one does, and takes no other numbers of arguments. -/
def Function.IsBuiltin (function : Function Recipe) : Prop :=
  ∃ meaning, function.implementation = .builtin meaning ∧
    ∀ count, function.arity.Accepts count → meaning.arity.Accepts count

namespace Store

/-- A table that starts with the catalog holds built-in functions. -/
theorem isBuiltin_of_catalogTable {name : String} {function : Function Recipe}
    (hfunction : catalogTable.functions.get? name = some function) : function.IsBuiltin := by
  rw [catalogTable, Table.ofCatalog, Bindings.get?_map] at hfunction
  obtain ⟨builtin, _, rfl⟩ := Option.map_eq_some_iff.mp hfunction
  exact ⟨builtin.meaning, rfl, fun _ => id⟩

/-- The context consists of the catalog and of tables whose functions are built-in ones. -/
def HoldsBuiltins (store : Store) : Ref → Prop
  | .builtins => True
  | .table handle => ∀ name function,
      (store.table handle).functions.get? name = some function → function.IsBuiltin
  | .chain outer inner => store.HoldsBuiltins outer ∧ store.HoldsBuiltins inner

theorem depth_pos (store : Store) : 0 < store.depth := by
  rw [depth, ← Array.foldl_toList]
  generalize store.tables.toList = tables
  have hfold : ∀ count, count ≤
      tables.foldl (fun count table => count + table.functions.size) count := by
    induction tables with
    | nil =>
        intro count
        exact Nat.le_refl count
    | cons table rest ih =>
        intro count
        exact Nat.le_trans (Nat.le_add_right _ _) (ih _)
  exact hfold 1

variable [Callable.Carrier V] [Callable.Carrier W]

theorem implement_builtin (store : Store) (meaning : Meaning) :
    (store.implement store.depth (.builtin meaning) : Implementation V) = meaning.apply := by
  obtain ⟨depth, hdepth⟩ := Nat.exists_eq_succ_of_ne_zero store.depth_pos.ne'
  rw [hdepth]
  rfl

/-- On all kinds of values a context of built-in functions knows the same ones. -/
theorem function?_cases {store : Store} {context : Ref} (hcontext : store.HoldsBuiltins context)
    (name : String) :
    (∀ (V : Type) [Elementwise V] [Callable.Carrier V],
      (store.scope context : Scope V).function? name = none) ∨
    ∃ title arity meaning doc,
      (∀ count, arity.Accepts count → (meaning : Meaning).arity.Accepts count) ∧
      ∀ (V : Type) [Elementwise V] [Callable.Carrier V],
        (store.scope context : Scope V).function? name =
          some (.ofMeaning V title arity meaning doc) := by
  induction context with
  | builtins =>
      cases hget : Catalog.functions.get? name with
      | none => exact .inl fun V _ _ => by simp [scope, scopeWith, Scope.function?, hget]
      | some builtin =>
          refine .inr ⟨builtin.name, builtin.meaning.arity, builtin.meaning, builtin.doc,
            fun _ => id, fun V _ _ => ?_⟩
          simp [scope, scopeWith, Scope.function?, hget]
          rfl
  | table handle =>
      cases hget : (store.table handle).functions.get? name with
      | none => exact .inl fun V _ _ => by simp [scope, scopeWith, Scope.function?, Table.map, hget]
      | some function =>
          obtain ⟨meaning, himplementation, haccepts⟩ := hcontext name function hget
          refine .inr ⟨function.name, function.arity, meaning, function.doc, haccepts,
            fun V _ _ => ?_⟩
          simp [scope, scopeWith, Scope.function?, Table.map, hget, Function.map,
            himplementation, implement_builtin, Function.ofMeaning]
  | chain outer inner ihOuter ihInner =>
      obtain ⟨houter, hinner⟩ := hcontext
      have hchain : ∀ (V : Type) [Elementwise V] [Callable.Carrier V],
          (store.scope (.chain outer inner) : Scope V).function? name =
            ((store.scope outer : Scope V).function? name).or
              ((store.scope inner : Scope V).function? name) :=
        fun V _ _ => Scope.function?_chain _ _ name
      rcases ihOuter houter with hnone | ⟨title, arity, meaning, doc, haccepts, hsome⟩
      · rcases ihInner hinner with hnoneInner | ⟨title, arity, meaning, doc, haccepts, hsome⟩
        · exact .inl fun V _ _ => by rw [hchain, hnone, hnoneInner, Option.or_none]
        · exact .inr ⟨title, arity, meaning, doc, haccepts, fun V _ _ => by
            rw [hchain, hnone, hsome, Option.none_or]⟩
      · exact .inr ⟨title, arity, meaning, doc, haccepts, fun V _ _ => by
          rw [hchain, hsome, Option.some_or]⟩

theorem value?_related {store : Store} (hcompatible : Elementwise.Compatible related)
    (context : Ref) (name : String) :
    Option.Rel related ((store.scope context : Scope V).value? name)
      ((store.scope context : Scope W).value? name) := by
  induction context with
  | builtins =>
      simp only [scope, scopeWith, Scope.value?]
      cases Catalog.constant? name with
      | none => exact .none
      | some value => exact .some (hcompatible.const value)
  | table handle =>
      simp only [scope, scopeWith, Scope.value?, Table.map]
      cases (store.table handle).constants.get? name with
      | none => exact .none
      | some value => exact .some (hcompatible.const value)
  | chain outer inner ihOuter ihInner =>
      change Option.Rel related
        ((Scope.chain (store.scope outer) (store.scope inner) : Scope V).value? name)
        ((Scope.chain (store.scope outer) (store.scope inner) : Scope W).value? name)
      rw [Scope.value?_chain, Scope.value?_chain]
      exact rel_or ihOuter ihInner

/-- What a context of built-in functions means on one kind of values agrees with what it means on
another. -/
theorem scope_related {store : Store} {context : Ref} (hcontext : store.HoldsBuiltins context)
    (hcompatible : Elementwise.Compatible related) :
    (store.scope context : Scope V).Related related (store.scope context : Scope W) where
  value := value?_related hcompatible context
  function name := by
    rcases function?_cases hcontext name with hnone | ⟨_, _, _, _, _, hsome⟩
    · rw [hnone, hnone]
      rfl
    · rw [hsome, hsome]
      rfl
  call name args others hargs := by
    rw [Scope.call_eq_callFound, Scope.call_eq_callFound, Scope.callFound, Scope.callFound]
    rcases function?_cases hcontext name with hnone | ⟨_, _, _, _, _, hsome⟩
    · rw [hnone, hnone]
      exact rfl
    · rw [hsome, hsome]
      exact Function.call_agree hcompatible hargs

/-- A call in such a context that fails has a diagnostic. -/
theorem isSome_diagnostic?_of_call {store : Store} {context : Ref}
    (hcontext : store.HoldsBuiltins context) {name : String} {args : List V} {fault : Fault}
    (hfault : (store.scope context : Scope V).call name args = .error fault) :
    fault.diagnostic?.isSome = true := by
  rw [Scope.call_eq_callFound, Scope.callFound] at hfault
  rcases function?_cases hcontext name with hnone | ⟨_, _, _, _, haccepts, hsome⟩
  · rw [hnone] at hfault
    cases hfault
    rfl
  · rw [hsome] at hfault
    exact Function.call_error haccepts hfault

end Store

end Reckon
