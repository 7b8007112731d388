import Reckon.Scope.Store

/-
Stores that grow.  Contexts and the bodies of functions refer to tables that are there before
them, so that a store never refers outside itself.  What a context means stays the same when
constants are added to the store in a table of their own.
-/

namespace Reckon

theorem Bindings.mem_replace {α : Type} {name : String} {value : α}
    {entries : List (String × α)} {entry : String × α}
    (hentry : entry ∈ replace name value entries) : entry ∈ entries ∨ entry.2 = value := by
  induction entries with
  | nil =>
      rw [List.mem_singleton.mp hentry]
      exact .inr rfl
  | cons head tail ih =>
      obtain ⟨other, old⟩ := head
      rw [replace] at hentry
      split at hentry
      · rcases List.mem_cons.mp hentry with rfl | hentry
        · exact .inr rfl
        · exact .inl (List.mem_cons_of_mem _ hentry)
      · rcases List.mem_cons.mp hentry with rfl | hentry
        · exact .inl List.mem_cons_self
        · exact (ih hentry).imp_left (List.mem_cons_of_mem _)

namespace Store

variable {V : Type} {store after : Store} {context : Ref} {recipe : Recipe}
  {table result : Table Recipe}

/-- All tables of the context are in the store. -/
def Holds (store : Store) : Ref → Prop
  | .builtins => True
  | .table handle => handle < store.tables.size
  | .chain outer inner => store.Holds outer ∧ store.Holds inner

/-- The context that the recipe needs is in the store. -/
def HoldsRecipe (store : Store) : Recipe → Prop
  | .body closure => store.Holds closure.context
  | _ => True

def HoldsTable (store : Store) (table : Table Recipe) : Prop :=
  ∀ entry ∈ table.functions.entries, store.HoldsRecipe entry.2.implementation

def HoldsChange (store : Store) : Change → Prop
  | .function _ _ _ recipe _ => store.HoldsRecipe recipe
  | _ => True

/-- No function of the store refers outside it, as is the case wherever calls and documents lead. -/
def Closed (store : Store) : Prop := ∀ handle, store.HoldsTable (store.table handle)

theorem table_add_of_lt {handle : Nat} (hhandle : handle < store.tables.size)
    (table : Table Recipe) : (store.add table).2.table handle = store.table handle := by
  simp [add, Store.table, Array.getElem?_push, hhandle, Nat.ne_of_lt hhandle]

theorem table_add_size (store : Store) (table : Table Recipe) :
    (store.add table).2.table store.tables.size = table := by
  simp [add, Store.table]

theorem table_of_size_le {handle : Nat} (hhandle : store.tables.size ≤ handle) :
    store.table handle = Table.empty := by
  simp [table, hhandle]

theorem holdsTable_empty (store : Store) : store.HoldsTable Table.empty := by
  intro entry hentry
  cases hentry

theorem closed_empty : Store.empty.Closed := by
  intro handle
  rw [table_of_size_le (Nat.zero_le handle)]
  exact holdsTable_empty _

theorem Holds.mono (hsize : store.tables.size ≤ after.tables.size)
    (hcontext : store.Holds context) : after.Holds context := by
  induction context with
  | builtins => trivial
  | table handle => exact Nat.lt_of_lt_of_le hcontext hsize
  | chain outer inner ihOuter ihInner => exact ⟨ihOuter hcontext.1, ihInner hcontext.2⟩

theorem HoldsTable.mono (hsize : store.tables.size ≤ after.tables.size)
    (htable : store.HoldsTable table) : after.HoldsTable table := by
  intro entry hentry
  have hrecipe := htable entry hentry
  cases himplementation : entry.2.implementation with
  | body closure =>
      rw [himplementation] at hrecipe
      exact Holds.mono hsize hrecipe
  | builtin meaning => trivial
  | outside callable => trivial

theorem size_le_size_add (store : Store) (table : Table Recipe) :
    store.tables.size ≤ (store.add table).2.tables.size := by
  simp [add]

theorem Holds.add (hcontext : store.Holds context) (table : Table Recipe) :
    (store.add table).2.Holds context :=
  hcontext.mono (store.size_le_size_add table)

theorem holds_add (store : Store) (table : Table Recipe) :
    (store.add table).2.Holds (store.add table).1 := by
  simp [add, Holds]

theorem Closed.add (hstore : store.Closed) (htable : store.HoldsTable table) :
    (store.add table).2.Closed := by
  intro handle
  apply HoldsTable.mono (store.size_le_size_add table)
  rcases Nat.lt_trichotomy handle store.tables.size with hlt | rfl | hgt
  · rw [table_add_of_lt hlt]
    exact hstore handle
  · rw [table_add_size]
    exact htable
  · have hsize : (store.add table).2.tables.size ≤ handle := by
      rw [Store.add, Array.size_push]
      exact hgt
    rw [table_of_size_le hsize]
    exact store.holdsTable_empty

theorem HoldsTable.changed {request : Change} (htable : store.HoldsTable table)
    (hrequest : store.HoldsChange request) (hchanged : Store.changed table request = .ok result) :
    store.HoldsTable result := by
  cases request with
  | constant name value =>
      simp only [Store.changed] at hchanged
      split at hchanged
      · cases hchanged
        exact htable
      · cases hchanged
  | function name minimum variadic recipe doc =>
      simp only [Store.changed] at hchanged
      split at hchanged
      · cases hchanged
        intro entry hentry
        rcases Bindings.mem_replace hentry with hentry | hentry
        · exact htable entry hentry
        · rw [hentry]
          exact hrequest
      · cases hchanged
  | without name =>
      cases hchanged
      intro entry hentry
      exact htable entry (List.mem_filter.mp hentry).1

theorem size_change {handle : Nat} {request : Change}
    (hchange : store.change handle request = .ok after) :
    after.tables.size = store.tables.size := by
  simp only [change] at hchange
  split at hchange
  · cases hchange
    exact Array.size_setIfInBounds
  · cases hchange

theorem holdsTable_after {handle : Nat} {request : Change} (hstore : store.Closed)
    (hrequest : store.HoldsChange request) (hchange : store.change handle request = .ok after)
    (other : Nat) : store.HoldsTable (after.table other) := by
  by_cases hother : other = handle
  · subst hother
    simp only [change] at hchange
    split at hchange
    · rename_i result hchanged
      cases hchange
      by_cases hlt : other < store.tables.size
      · simpa [table, hlt] using (hstore other).changed hrequest hchanged
      · simpa [table, hlt] using store.holdsTable_empty
    · cases hchange
  · rw [table_change_of_ne hother hchange]
    exact hstore other

/-- Changes keep a store closed if the functions that they define refer to the store alone. -/
theorem Closed.change {handle : Nat} {request : Change} (hstore : store.Closed)
    (hrequest : store.HoldsChange request) (hchange : store.change handle request = .ok after) :
    after.Closed := by
  intro other
  apply HoldsTable.mono (Nat.le_of_eq (size_change hchange).symm)
  exact holdsTable_after hstore hrequest hchange other

theorem depth_add (store : Store) (table : Table Recipe) :
    (store.add table).2.depth = store.depth + table.functions.size := by
  simp [add, depth]

/-- A context that was there means the same if the recipes that were there are carried out in the
same way. -/
theorem scopeWith_add (hstore : store.Closed) (table : Table Recipe)
    {implement other : Recipe → Implementation V}
    (hsame : ∀ recipe, store.HoldsRecipe recipe → other recipe = implement recipe)
    (hcontext : store.Holds context) :
    (store.add table).2.scopeWith other context = store.scopeWith implement context := by
  induction context with
  | builtins => rfl
  | table handle =>
      rw [scopeWith, scopeWith, table_add_of_lt hcontext, Table.map, Table.map, Bindings.map,
        Bindings.map]
      congr 3
      apply List.map_congr_left
      intro entry hentry
      rw [Function.map, Function.map, hsame _ (hstore handle entry hentry)]
  | chain outer inner ihOuter ihInner =>
      rw [scopeWith, scopeWith, ihOuter hcontext.1, ihInner hcontext.2]

variable [Elementwise V] [Callable.Carrier V]

theorem implement_add (hstore : store.Closed) (table : Table Recipe) (depth : Nat)
    (hrecipe : store.HoldsRecipe recipe) :
    ((store.add table).2.implement depth recipe : Implementation V) =
      store.implement depth recipe := by
  -- The body of a function is carried out one level below the call.
  induction depth generalizing recipe with
  | zero => rfl
  | succ depth ih =>
      cases recipe with
      | body closure =>
          funext args
          rw [implement, implement, scopeWith_add hstore table (fun _ => ih) hrecipe]
      | builtin meaning => rfl
      | outside callable => rfl

/-- New constants change no context that was there. -/
theorem scope_add_constants (hstore : store.Closed) (constants : Bindings Float)
    (hcontext : store.Holds context) :
    ((store.add ⟨constants, Bindings.empty⟩).2.scope context : Scope V) = store.scope context := by
  have hdepth : (store.add ⟨constants, Bindings.empty⟩).2.depth = store.depth :=
    store.depth_add _
  rw [scope, scope, hdepth]
  exact scopeWith_add hstore _ (fun _ => implement_add hstore _ _) hcontext

end Store

end Reckon
