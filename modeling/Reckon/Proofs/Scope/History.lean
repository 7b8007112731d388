import Reckon.Proofs.Scope.Layers
import Reckon.Proofs.Scope.Store

/-
Contexts after any calls on them.  A name means in a context what the last call said that defined
it, if no later one removed it, and else what the catalog says, if the context began with it.
Calls that are refused change nothing, calls on one context change no other, and chains show what
their contexts hold now.
-/

namespace Reckon

/-- The contexts of a chain that are no chains themselves, the outermost first. -/
def Ref.leaves : Ref → List Ref
  | .chain outer inner => outer.leaves ++ inner.leaves
  | context => [context]

namespace Store

/-- A call: a context is made, with the catalog or empty, or one is changed.  A function of one or
of two arguments is one that takes exactly as many. -/
inductive Action
  | create (catalog : Bool)
  | change (handle : Nat) (request : Change)

/-- The table that a context begins with. -/
def startTable (catalog : Bool) : Table Recipe := if catalog then catalogTable else Table.empty

/-- The store after a call.  A change that is refused leaves it as it is. -/
def act (store : Store) : Action → Store
  | .create catalog => (store.add (startTable catalog)).2
  | .change handle request =>
      match store.change handle request with
      | .ok after => after
      | .error _ => store

def perform (store : Store) (actions : List Action) : Store := actions.foldl act store

/-- The changes of one context among the calls. -/
def callsOn (handle : Nat) : List Action → List Change
  | [] => []
  | .create _ :: rest => callsOn handle rest
  | .change other request :: rest =>
      if other = handle then request :: callsOn handle rest else callsOn handle rest

/-- The function that a context holds under a name, before anything carries it out. -/
def stored? (store : Store) : Ref → String → Option (Function Recipe)
  | .builtins, name => catalogTable.functions.get? name
  | .table handle, name => (store.table handle).functions.get? name
  | .chain outer inner, name => (store.stored? outer name).or (store.stored? inner name)

namespace Change

/-- The change succeeds and defines the constant of this name. -/
inductive DefinesConstant (name : String) : Change → Float → Prop
  | constant {value : Datum} {x : Float} (hvalue : value.toFloat = .ok x) :
      DefinesConstant name (.constant name value) x

/-- The change succeeds and defines the function of this name, under its own name and with the
declared number of arguments. -/
inductive DefinesFunction (name : String) : Change → Function Recipe → Prop
  | function (minimum : Nat) (variadic : Bool) (recipe : Recipe) (doc : String) :
      DefinesFunction name (.function name minimum variadic recipe doc)
        ⟨name, ⟨minimum, variadic⟩, recipe, doc⟩

/-- The change is refused. -/
inductive Refused : Change → ChangeError → Prop
  | conversion {name : String} {value : Datum} {error : Datum.ConversionError}
      (hvalue : value.toFloat = .error error) : Refused (.constant name value) (.conversion error)
  | negativeArity {name : String} {minimum : Int} {variadic : Bool} {recipe : Recipe}
      {doc : String} (hminimum : minimum < 0) :
      Refused (.function name minimum variadic recipe doc) (.negativeArity minimum)

end Change

section

variable {α : Type} (defines : Change → α → Prop) (name : String)

/-- No change removes the name or defines it again. -/
def Untouched (calls : List Change) : Prop :=
  ∀ call ∈ calls, call ≠ .without name ∧ ∀ meaning, ¬defines call meaning

/-- What the last change says that defines the name, if none behind it removes it. -/
def LastDefined (calls : List Change) (meaning : α) : Prop :=
  ∃ before call after, calls = before ++ call :: after ∧ defines call meaning ∧
    Untouched defines name after

end

/-- What a context means that was made with the catalog or empty and then changed by these calls;
constants and functions do not affect each other. -/
structure ResolvesBy (store : Store) (context : Ref) (catalog : Bool) (calls : List Change) :
    Prop where
  value : ∀ name x, (store.scope context : Scope Float).value? name = some x ↔
    LastDefined (Change.DefinesConstant name) name calls x ∨
      catalog = true ∧ Untouched (Change.DefinesConstant name) name calls ∧
        (store.scope .builtins : Scope Float).value? name = some x
  function : ∀ name function, store.stored? context name = some function ↔
    LastDefined (Change.DefinesFunction name) name calls function ∨
      catalog = true ∧ Untouched (Change.DefinesFunction name) name calls ∧
        store.stored? .builtins name = some function
  name_eq : ∀ name function, store.stored? context name = some function → function.name = name

end Store

theorem Store.changed_eq_error_iff_refused (table : Table Recipe) (call : Change)
    (error : ChangeError) : changed table call = .error error ↔ call.Refused error := by
  constructor
  · intro hchanged
    cases call with
    | constant name value =>
        simp only [changed] at hchanged
        split at hchanged
        · cases hchanged
        · rename_i hvalue
          cases hchanged
          exact .conversion hvalue
    | function name minimum variadic recipe doc =>
        simp only [changed, Arity.ofInt] at hchanged
        by_cases hminimum : minimum < 0
        · rw [if_pos hminimum] at hchanged
          cases hchanged
          exact .negativeArity hminimum
        · rw [if_neg hminimum] at hchanged
          cases hchanged
    | without name => cases hchanged
  · intro hrefused
    cases hrefused with
    | conversion hvalue => simp only [changed, hvalue]
    | negativeArity hminimum => simp only [changed, Arity.ofInt, if_pos hminimum]

namespace Table

open Store

/-- The table after a change, the same one if the change is refused. -/
def after (table : Table Recipe) (call : Change) : Table Recipe :=
  match changed table call with
  | .ok result => result
  | .error _ => table

variable {name : String} {call : Change}

theorem after_of_refused {error : ChangeError} (hrefused : call.Refused error)
    (table : Table Recipe) : table.after call = table := by
  rw [after, (changed_eq_error_iff_refused table call error).mpr hrefused]

theorem after_of_definesConstant {x : Float} (hdefines : call.DefinesConstant name x)
    (table : Table Recipe) : table.after call = table.withConstant name x := by
  cases hdefines with
  | constant hvalue => simp only [after, changed, hvalue]

theorem after_of_definesFunction {function : Function Recipe}
    (hdefines : call.DefinesFunction name function) (table : Table Recipe) :
    function.name = name ∧ table.after call = table.withFunction function := by
  cases hdefines with
  | function minimum variadic recipe doc =>
      have hminimum : ¬(minimum : Int) < 0 := Int.not_lt.mpr (Int.natCast_nonneg minimum)
      refine ⟨rfl, ?_⟩
      simp only [after, changed, Arity.ofInt, if_neg hminimum, Int.toNat_natCast]

end Table

/-- A change is refused, or it defines a constant or a function, or it removes a name. -/
theorem Store.Change.cases (call : Change) :
    (∃ error, call.Refused error) ∨ (∃ name x, call.DefinesConstant name x) ∨
      (∃ name function, call.DefinesFunction name function) ∨ ∃ name, call = .without name := by
  cases call with
  | constant name value =>
      cases hvalue : value.toFloat with
      | error error => exact .inl ⟨_, .conversion hvalue⟩
      | ok x => exact .inr (.inl ⟨name, x, .constant hvalue⟩)
  | function name minimum variadic recipe doc =>
      by_cases hminimum : minimum < 0
      · exact .inl ⟨_, .negativeArity hminimum⟩
      · obtain ⟨count, rfl⟩ := Int.eq_ofNat_of_zero_le (Int.not_lt.mp hminimum)
        exact .inr (.inr (.inl ⟨name, _, .function count variadic recipe doc⟩))
  | without name => exact .inr (.inr (.inr ⟨name, rfl⟩))

namespace Store

variable {store : Store} {handle : Nat} {context : Ref} {name : String}

section

variable {α : Type} {defines : Change → α → Prop} {lookup : Table Recipe → Option α}
  {call : Change} {rest : List Change} {meaning : α}

theorem untouched_cons :
    Untouched defines name (call :: rest) ↔
      (call ≠ .without name ∧ ∀ meaning, ¬defines call meaning) ∧ Untouched defines name rest :=
  List.forall_mem_cons

theorem lastDefined_cons :
    LastDefined defines name (call :: rest) meaning ↔
      LastDefined defines name rest meaning ∨
        defines call meaning ∧ Untouched defines name rest := by
  constructor
  · rintro ⟨before, last, after, hcalls, hlast, hafter⟩
    cases before with
    | nil =>
        cases hcalls
        exact .inr ⟨hlast, hafter⟩
    | cons head tail =>
        cases hcalls
        exact .inl ⟨tail, last, after, rfl, hlast, hafter⟩
  · rintro (⟨before, last, after, rfl, hlast, hafter⟩ | ⟨hcall, hrest⟩)
    · exact ⟨call :: before, last, after, rfl, hlast, hafter⟩
    · exact ⟨[], call, rest, rfl, hcall, hrest⟩

/-- What one change does to what is found under a name. -/
structure Follows (lookup : Table Recipe → Option α) (defines : Change → α → Prop)
    (name : String) : Prop where
  defined : ∀ (table : Table Recipe) call meaning, defines call meaning →
    lookup (table.after call) = some meaning
  dropped : ∀ table : Table Recipe, lookup (table.after (.without name)) = none
  kept : ∀ (table : Table Recipe) call, call ≠ .without name → (∀ meaning, ¬defines call meaning) →
    lookup (table.after call) = lookup table

/-- What is found under a name after any changes. -/
theorem Follows.foldl (hfollows : Follows lookup defines name) (table : Table Recipe)
    (calls : List Change) (meaning : α) :
    lookup (calls.foldl Table.after table) = some meaning ↔
      LastDefined defines name calls meaning ∨
        Untouched defines name calls ∧ lookup table = some meaning := by
  -- What the first change has left is known to the last only if no later one touches the name.
  induction calls generalizing table with
  | nil => simp [LastDefined, Untouched]
  | cons call rest ih =>
      rw [List.foldl_cons, ih, lastDefined_cons, untouched_cons]
      by_cases hdefines : ∃ found, defines call found
      · obtain ⟨found, hfound⟩ := hdefines
        have hmeaning : lookup (table.after call) = some meaning ↔ defines call meaning := by
          constructor
          · intro hlookup
            rw [hfollows.defined table call found hfound] at hlookup
            exact Option.some.inj hlookup ▸ hfound
          · exact hfollows.defined table call meaning
        have htouched : ¬∀ other, ¬defines call other := fun hnone => hnone found hfound
        rw [hmeaning]
        tauto
      · have hnone : ∀ other, ¬defines call other := not_exists.mp hdefines
        by_cases hdrop : call = .without name
        · subst hdrop
          simp [hfollows.dropped, hnone]
        · simp [hfollows.kept table call hdrop hnone, hdrop, hnone]

end

theorem follows_constant (name : String) :
    Follows (fun table => table.constants.get? name) (Change.DefinesConstant name) name where
  defined table call x hdefines := by
    rw [Table.after_of_definesConstant hdefines]
    exact Bindings.get?_put_self _ _ _
  dropped table := Bindings.get?_erase_self _ _
  kept table call hdrop hdefines := by
    rcases call.cases with ⟨error, hrefused⟩ | ⟨other, x, hother⟩ | ⟨other, function, hother⟩ |
      ⟨other, rfl⟩
    · rw [Table.after_of_refused hrefused]
    · have hname : name ≠ other := by
        rintro rfl
        exact hdefines x hother
      rw [Table.after_of_definesConstant hother]
      exact Bindings.get?_put_of_ne hname _ _
    · rw [(Table.after_of_definesFunction hother table).2]
      rfl
    · have hname : name ≠ other := by
        rintro rfl
        exact hdrop rfl
      exact Bindings.get?_erase_of_ne hname _

theorem follows_function (name : String) :
    Follows (fun table => table.functions.get? name) (Change.DefinesFunction name) name where
  defined table call function hdefines := by
    obtain ⟨hname, hafter⟩ := Table.after_of_definesFunction hdefines table
    rw [hafter, ← hname]
    exact Bindings.get?_put_self _ _ _
  dropped table := Bindings.get?_erase_self _ _
  kept table call hdrop hdefines := by
    rcases call.cases with ⟨error, hrefused⟩ | ⟨other, x, hother⟩ | ⟨other, function, hother⟩ |
      ⟨other, rfl⟩
    · rw [Table.after_of_refused hrefused]
    · rw [Table.after_of_definesConstant hother]
      rfl
    · obtain ⟨rfl, hafter⟩ := Table.after_of_definesFunction hother table
      have hname : name ≠ function.name := by
        rintro rfl
        exact hdefines function hother
      rw [hafter]
      exact Bindings.get?_put_of_ne hname _ _
    · have hname : name ≠ other := by
        rintro rfl
        exact hdrop rfl
      exact Bindings.get?_erase_of_ne hname _

theorem change_eq_error_iff_refused (store : Store) (handle : Nat) (request : Change)
    (error : ChangeError) : store.change handle request = .error error ↔ request.Refused error := by
  rw [← changed_eq_error_iff_refused (store.table handle), change]
  cases changed (store.table handle) request <;> simp

theorem act_of_refused {request : Change} {error : ChangeError} (hrefused : request.Refused error)
    (store : Store) (handle : Nat) : store.act (.change handle request) = store := by
  rw [act, (store.change_eq_error_iff_refused handle request error).mpr hrefused]

theorem size_act_create (store : Store) (catalog : Bool) :
    (store.act (.create catalog)).tables.size = store.tables.size + 1 := by
  rw [act, add, Array.size_push]

theorem size_act_change (store : Store) (handle : Nat) (request : Change) :
    (store.act (.change handle request)).tables.size = store.tables.size := by
  rw [act]
  split
  · rename_i after hchange
    exact size_change hchange
  · rfl

theorem size_le_size_act (store : Store) (action : Action) :
    store.tables.size ≤ (store.act action).tables.size := by
  cases action with
  | create catalog =>
      rw [size_act_create]
      exact Nat.le_succ _
  | change handle request => exact Nat.le_of_eq (store.size_act_change handle request).symm

theorem table_act_change (hhandle : handle < store.tables.size) (request : Change) :
    (store.act (.change handle request)).table handle = (store.table handle).after request := by
  rw [act, change, Table.after]
  cases hchanged : changed (store.table handle) request with
  | error error => rfl
  | ok result => simp [Store.table, hhandle]

theorem table_act_change_of_ne {other : Nat} (hother : other ≠ handle) (request : Change) :
    (store.act (.change handle request)).table other = store.table other := by
  rw [act]
  split
  · rename_i after hchange
    exact table_change_of_ne hother hchange
  · rfl

/-- A table is what the changes of its own context have made of it. -/
theorem table_perform (hhandle : handle < store.tables.size) (actions : List Action) :
    (store.perform actions).table handle =
      (callsOn handle actions).foldl Table.after (store.table handle) := by
  -- No call removes a table, so that the rest of the calls finds it in its place.
  induction actions generalizing store with
  | nil => rfl
  | cons action rest ih =>
      have hafter : handle < (store.act action).tables.size :=
        Nat.lt_of_lt_of_le hhandle (store.size_le_size_act action)
      change ((store.act action).perform rest).table handle = _
      rw [ih hafter]
      cases action with
      | create catalog => rw [act, table_add_of_lt hhandle, callsOn]
      | change other request =>
          rw [callsOn]
          split
          · rename_i hsame
            subst hsame
            rw [table_act_change hhandle, List.foldl_cons]
          · rename_i hother
            rw [table_act_change_of_ne (Ne.symm hother)]

theorem table_created (store : Store) (catalog : Bool) (actions : List Action) :
    (store.perform (.create catalog :: actions)).table store.tables.size =
      (callsOn store.tables.size actions).foldl Table.after (startTable catalog) := by
  have hsize : store.tables.size < (store.act (.create catalog)).tables.size := by
    rw [size_act_create]
    exact Nat.lt_succ_self _
  change ((store.act (.create catalog)).perform actions).table store.tables.size = _
  rw [table_perform hsize, act, table_add_size]

theorem value?_table (store : Store) (handle : Nat) (name : String) :
    (store.scope (.table handle) : Scope Float).value? name =
      (store.table handle).constants.get? name := by
  simp [scope, scopeWith, Scope.value?, Elementwise.const, Table.map]

theorem constant_startTable (store : Store) (catalog : Bool) (name : String) (x : Float) :
    (startTable catalog).constants.get? name = some x ↔
      catalog = true ∧ (store.scope .builtins : Scope Float).value? name = some x := by
  cases catalog with
  | false => simp [startTable, Table.empty]
  | true =>
      simp [startTable, catalogTable, Table.ofCatalog, scope, scopeWith, Scope.value?,
        Catalog.constant?_eq_get?, Elementwise.const]

theorem function_startTable (store : Store) (catalog : Bool) (name : String)
    (function : Function Recipe) :
    (startTable catalog).functions.get? name = some function ↔
      catalog = true ∧ store.stored? .builtins name = some function := by
  cases catalog <;> simp [startTable, Table.empty, stored?]

/-- A context made with the catalog or empty resolves by the changes that were made to it. -/
theorem resolvesBy_perform (store : Store) (catalog : Bool) (actions : List Action) :
    (store.perform (.create catalog :: actions)).ResolvesBy (.table store.tables.size) catalog
      (callsOn store.tables.size actions) := by
  have htable := store.table_created catalog actions
  generalize store.perform (.create catalog :: actions) = after at htable ⊢
  generalize callsOn store.tables.size actions = calls at htable ⊢
  have hfunction : ∀ name function, after.stored? (.table store.tables.size) name = some function ↔
      LastDefined (Change.DefinesFunction name) name calls function ∨
        catalog = true ∧ Untouched (Change.DefinesFunction name) name calls ∧
          after.stored? .builtins name = some function := by
    intro name function
    change (after.table store.tables.size).functions.get? name = some function ↔ _
    rw [htable, (follows_function name).foldl, function_startTable after, and_left_comm]
  refine ⟨?_, hfunction, ?_⟩
  · intro name x
    rw [value?_table, htable, (follows_constant name).foldl, constant_startTable after,
      and_left_comm]
  · intro name function hstored
    rcases (hfunction name function).mp hstored with ⟨_, _, _, _, hdefines, _⟩ | ⟨_, _, hcatalog⟩
    · cases hdefines
      rfl
    · exact (Table.Built.ofCatalog _).name_eq hcatalog

/-- Every table that has been added since was made by one of the calls. -/
theorem exists_create {actions : List Action} (hlow : store.tables.size ≤ handle)
    (hhigh : handle < (store.perform actions).tables.size) :
    ∃ before catalog after, actions = before ++ .create catalog :: after ∧
      (store.perform before).tables.size = handle := by
  induction actions generalizing store with
  | nil => exact absurd hhigh (Nat.not_lt.mpr hlow)
  | cons action rest ih =>
      by_cases hafter : (store.act action).tables.size ≤ handle
      · obtain ⟨before, catalog, after, rfl, hsize⟩ := ih hafter hhigh
        exact ⟨action :: before, catalog, after, rfl, hsize⟩
      · cases action with
        | create catalog =>
            rw [size_act_create] at hafter
            have hsize : store.tables.size = handle := by omega
            exact ⟨[], catalog, rest, rfl, hsize⟩
        | change other request =>
            rw [size_act_change] at hafter
            exact absurd hlow hafter

/-- A context that has been made since resolves by the changes that were made to it. -/
theorem exists_resolvesBy {actions : List Action} (hlow : store.tables.size ≤ handle)
    (hhigh : handle < (store.perform actions).tables.size) :
    ∃ before catalog after, actions = before ++ .create catalog :: after ∧
      (store.perform before).tables.size = handle ∧
      (store.perform actions).ResolvesBy (.table handle) catalog (callsOn handle after) := by
  obtain ⟨before, catalog, after, rfl, hsize⟩ := exists_create hlow hhigh
  refine ⟨before, catalog, after, rfl, hsize, ?_⟩
  have hperform : store.perform (before ++ .create catalog :: after) =
      (store.perform before).perform (.create catalog :: after) := List.foldl_append
  rw [hperform, ← hsize]
  exact (store.perform before).resolvesBy_perform catalog after

theorem value?_scope_chain {V : Type} [Elementwise V] [Callable.Carrier V] (store : Store)
    (outer inner : Ref) (name : String) :
    (store.scope (.chain outer inner) : Scope V).value? name =
      ((store.scope outer : Scope V).value? name).or ((store.scope inner : Scope V).value? name) :=
  Scope.value?_chain _ _ name

theorem value?_eq_findSome? {V : Type} [Elementwise V] [Callable.Carrier V] (store : Store)
    (context : Ref) (name : String) :
    (store.scope context : Scope V).value? name =
      context.leaves.findSome? fun leaf => (store.scope leaf : Scope V).value? name := by
  induction context with
  | builtins => simp [Ref.leaves]
  | table handle => simp [Ref.leaves]
  | chain outer inner ihOuter ihInner =>
      rw [value?_scope_chain, Ref.leaves, List.findSome?_append, ihOuter, ihInner]

theorem stored?_eq_findSome? (store : Store) (context : Ref) (name : String) :
    store.stored? context name = context.leaves.findSome? fun leaf => store.stored? leaf name := by
  induction context with
  | builtins => simp [Ref.leaves]
  | table handle => simp [Ref.leaves]
  | chain outer inner ihOuter ihInner =>
      rw [stored?, Ref.leaves, List.findSome?_append, ihOuter, ihInner]

theorem function?_eq_stored? {V : Type} [Elementwise V] [Callable.Carrier V] (store : Store)
    (context : Ref) (name : String) :
    (store.scope context : Scope V).function? name =
      (store.stored? context name).map (Function.map (store.implement store.depth)) := by
  induction context with
  | builtins => exact store.function?_builtins name
  | table handle => exact Bindings.get?_map _ _ _
  | chain outer inner ihOuter ihInner =>
      rw [stored?, Option.map_or, ← ihOuter, ← ihInner]
      exact Scope.function?_chain _ _ name

theorem value?_eq_map_const {V : Type} [Elementwise V] [Callable.Carrier V] (store : Store)
    (context : Ref) (name : String) :
    (store.scope context : Scope V).value? name =
      ((store.scope context : Scope Float).value? name).map Elementwise.const := by
  induction context with
  | builtins => simp [scope, scopeWith, Scope.value?, Elementwise.const]
  | table handle => simp [scope, scopeWith, Scope.value?, Elementwise.const, Table.map]
  | chain outer inner ihOuter ihInner =>
      rw [value?_scope_chain, value?_scope_chain, Option.map_or, ihOuter, ihInner]

/-- Calls on other contexts leave a context as it is. -/
theorem perform_frame (hcontext : store.Holds context) {actions : List Action}
    (hcalls : ∀ handle, .table handle ∈ context.leaves → callsOn handle actions = [])
    (name : String) :
    ((store.perform actions).scope context : Scope Float).value? name =
        (store.scope context : Scope Float).value? name ∧
      (store.perform actions).stored? context name = store.stored? context name := by
  induction context with
  | builtins => exact ⟨rfl, rfl⟩
  | table handle =>
      have htable : (store.perform actions).table handle = store.table handle := by
        rw [table_perform hcontext, hcalls handle (List.mem_singleton_self _), List.foldl_nil]
      rw [value?_table, value?_table, stored?, stored?, htable]
      exact ⟨rfl, rfl⟩
  | chain outer inner ihOuter ihInner =>
      obtain ⟨hvalueOuter, hstoredOuter⟩ := ihOuter hcontext.1 fun handle hhandle =>
        hcalls handle (List.mem_append_left _ hhandle)
      obtain ⟨hvalueInner, hstoredInner⟩ := ihInner hcontext.2 fun handle hhandle =>
        hcalls handle (List.mem_append_right _ hhandle)
      refine ⟨?_, by rw [stored?, stored?, hstoredOuter, hstoredInner]⟩
      rw [value?_scope_chain, value?_scope_chain, hvalueOuter, hvalueInner]

/-- A context resolves at every moment by the calls that were made on it since it was made, and
every context was made by a call.  A change is refused exactly if its value spells no number or its
arity is negative, and then changes nothing; calls on other contexts change nothing for a context,
nor for the catalog; a chain resolves by what its contexts resolve at the same moment.  The
functions found are the stored ones, carried out in the store as it is, and the constants are the
same numbers on every kind of values. -/
theorem contexts_follow_calls (store : Store) :
    (∀ catalog actions,
      (store.perform (.create catalog :: actions)).ResolvesBy (.table store.tables.size) catalog
        (callsOn store.tables.size actions)) ∧
    (∀ actions handle, store.tables.size ≤ handle →
      handle < (store.perform actions).tables.size →
      ∃ before catalog after, actions = before ++ .create catalog :: after ∧
        (store.perform before).tables.size = handle ∧
        (store.perform actions).ResolvesBy (.table handle) catalog (callsOn handle after)) ∧
    (∀ handle request error,
      (store.change handle request = .error error ↔ request.Refused error) ∧
      (request.Refused error → store.act (.change handle request) = store)) ∧
    (∀ context actions, store.Holds context →
      (∀ handle, .table handle ∈ context.leaves → callsOn handle actions = []) → ∀ name,
        ((store.perform actions).scope context : Scope Float).value? name =
            (store.scope context : Scope Float).value? name ∧
          (store.perform actions).stored? context name = store.stored? context name) ∧
    (∀ context actions name,
      ((store.perform actions).scope context : Scope Float).value? name =
          (context.leaves.findSome? fun leaf =>
            ((store.perform actions).scope leaf : Scope Float).value? name) ∧
        (store.perform actions).stored? context name =
          context.leaves.findSome? fun leaf => (store.perform actions).stored? leaf name) ∧
    ∀ (V : Type) [Elementwise V] [Callable.Carrier V] (context : Ref) (name : String),
      (store.scope context : Scope V).value? name =
          ((store.scope context : Scope Float).value? name).map Elementwise.const ∧
        (store.scope context : Scope V).function? name =
          (store.stored? context name).map (Function.map (store.implement store.depth)) := by
  refine ⟨store.resolvesBy_perform, ?_, ?_, ?_, ?_, ?_⟩
  · exact fun actions handle hlow hhigh => exists_resolvesBy hlow hhigh
  · intro handle request error
    exact ⟨store.change_eq_error_iff_refused handle request error, fun hrefused =>
      act_of_refused hrefused store handle⟩
  · exact fun context actions hcontext hcalls => perform_frame hcontext hcalls
  · exact fun context actions name => ⟨value?_eq_findSome? _ context name,
      stored?_eq_findSome? _ context name⟩
  · exact fun V _ _ context name => ⟨store.value?_eq_map_const context name,
      store.function?_eq_stored? context name⟩

end Store

end Reckon
