import Reckon.Closure.Sample
import Reckon.Sheet.Basic

/-
Tables that change.  A store holds tables by number; contexts refer to them by that number, so
that a chain always shows what its tables hold now.  Functions are stored as recipes, because
the body of a function is evaluated in what its context holds at the time of the call.
-/

namespace Reckon

/-- A context: the built-in catalog, a table of the store, or two contexts of which the outer
one is asked first. -/
inductive Ref
  | builtins
  | table (handle : Nat)
  | chain (outer inner : Ref)
deriving DecidableEq, Repr

/-- A function from outside.  It may do anything with numbers and anything with arrays, and it may
fail in any way. -/
structure Callable where
  onNumbers : Implementation Float
  onCells : (shape : Shape) → Implementation (Cells shape)

/-- Values that functions from outside are carried out on. -/
class Callable.Carrier (V : Type) where
  run : Callable → Implementation V

instance : Callable.Carrier Float := ⟨Callable.onNumbers⟩

instance {shape : Shape} : Callable.Carrier (Cells shape) :=
  ⟨fun callable => callable.onCells shape⟩

/-- What a stored function does: what a built-in one does, what a function from outside does, or
what an expression says that was made into a function. -/
inductive Recipe
  | builtin (meaning : Meaning)
  | outside (callable : Callable)
  | body (closure : Closure Ref)

structure Store where
  tables : Array (Table Recipe)

namespace Store

variable {V : Type} [Elementwise V] [Callable.Carrier V]

def empty : Store := ⟨#[]⟩

def table (store : Store) (handle : Nat) : Table Recipe :=
  store.tables.getD handle Table.empty

/-- Adds a table; its context comes with the new store. -/
def add (store : Store) (table : Table Recipe) : Ref × Store :=
  (.table store.tables.size, ⟨store.tables.push table⟩)

/-- The scope of a context, given how recipes are carried out. -/
def scopeWith (store : Store) (implement : Recipe → Implementation V) : Ref → Scope V
  | .builtins => .builtins
  | .table handle => .table ((store.table handle).map implement)
  | .chain outer inner =>
      .chain (store.scopeWith implement outer) (store.scopeWith implement inner)

/-- How recipes are carried out, with calls of bodies nested up to a depth. -/
def implement (store : Store) : Nat → Recipe → Implementation V
  | 0, _, _ => .error .tooDeep
  | _ + 1, .builtin meaning, args => meaning.apply args
  | _ + 1, .outside callable, args => Callable.Carrier.run callable args
  | depth + 1, .body closure, args => do
      let value ← closure.call (store.scopeWith (store.implement depth) closure.context) args
      match Elementwise.single? value with
      | some single => .ok (Elementwise.const single)
      | none => .error .notSingle

/-- One more than the functions there are: a deeper nest of calls repeats one of them, and then
it never ends. -/
def depth (store : Store) : Nat :=
  store.tables.foldl (fun count table => count + table.functions.size) 1

/-- What the names of a context mean now. -/
def scope (store : Store) (context : Ref) : Scope V :=
  store.scopeWith (store.implement store.depth) context

def defined (store : Store) (context : Ref) (name : String) : Bool :=
  ((store.scope context : Scope Float).value? name).isSome

def bind (store : Store) (expr : Expr) (context : Ref) (names : List String) :
    Except BindError (Closure Ref) :=
  Closure.bind expr context (store.defined context) names

/-- Binds the names as they are given, of which a single one may stand alone. -/
def bindFree (store : Store) (expr : Expr) (context : Ref) (free : FreeNames) :
    Except BindError (Closure Ref) :=
  store.bind expr context free.toList

def call (store : Store) (closure : Closure Ref) (values : List Float) : Except Fault Float :=
  closure.call (store.scope closure.context) values

def sample (store : Store) (closure : Closure Ref) (arrays : List Nested) :
    Except SampleError Grid :=
  closure.sampleNested (fun _ => store.scope closure.context) arrays

/-- Adds the constants of a document as a table and chains it before a context. -/
def addSheet (store : Store) (inner : Ref) (origin : String) (document : Datum) :
    Except SheetError (Ref × Store) :=
  match Sheet.constants (store.scope inner) origin document with
  | .ok constants =>
      let (layer, store) := store.add ⟨constants, Bindings.empty⟩
      .ok (.chain layer inner, store)
  | .error error => .error error

/-- Several contexts in the order in which they are asked. -/
def chained (outer : Ref) : List Ref → Ref
  | [] => outer
  | inner :: more => .chain outer (chained inner more)

def text (store : Store) : Ref → String
  | .builtins => "Builtins()"
  | .table handle => (store.table handle).text
  | .chain outer inner =>
      "ChainedContext(" ++ store.text outer ++ ", " ++ store.text inner ++ ")"

/-- A table that starts with the built-in constants and functions. -/
def catalogTable : Table Recipe := Table.ofCatalog fun builtin => .builtin builtin.meaning

/-- A change of one table. -/
inductive Change
  | constant (name : String) (value : Datum)
  | function (name : String) (minimum : Int) (variadic : Bool) (recipe : Recipe) (doc : String)
  | without (name : String)

namespace Change

/-- A function that takes as many arguments as is said, by a number or by an arity. -/
def withFunction (name : String) (given : Arity.Given) (recipe : Recipe) (doc : String) : Change :=
  .function name given.minimum given.variadic recipe doc

def unary (name : String) (recipe : Recipe) : Change := withFunction name (.count 1) recipe ""

def binary (name : String) (recipe : Recipe) : Change := withFunction name (.count 2) recipe ""

/-- A function of any number of arguments from a minimum on, which is one if it is not said. -/
def nary (name : String) (recipe : Recipe) (minimum : Option Int) : Change :=
  .function name (minimum.getD 1) true recipe ""

end Change

/-- Why a change is refused. -/
inductive ChangeError
  | conversion (error : Datum.ConversionError)
  | negativeArity (minimum : Int)
deriving DecidableEq, Repr

/-- The table after a change.  A constant must be a number or spell one, and an arity must not be
negative. -/
def changed (table : Table Recipe) : Change → Except ChangeError (Table Recipe)
  | .constant name value =>
      match value.toFloat with
      | .ok x => .ok (table.withConstant name x)
      | .error error => .error (.conversion error)
  | .function name minimum variadic recipe doc =>
      match Arity.ofInt minimum variadic with
      | .ok arity => .ok (table.withFunction ⟨name, arity, recipe, doc⟩)
      | .error minimum => .error (.negativeArity minimum)
  | .without name => .ok (table.without name)

/-- The store after a change; a change that is refused has no effect. -/
def change (store : Store) (handle : Nat) (change : Change) : Except ChangeError Store :=
  match changed (store.table handle) change with
  | .ok table => .ok ⟨store.tables.setIfInBounds handle table⟩
  | .error error => .error error

/-- A function is stored with the arity that is meant, unless the number of arguments is
negative. -/
theorem changed_withFunction (table : Table Recipe) (name : String) (given : Arity.Given)
    (recipe : Recipe) (doc : String) :
    changed table (.withFunction name given recipe doc) =
      match given.coerce with
      | .ok arity => .ok (table.withFunction ⟨name, arity, recipe, doc⟩)
      | .error minimum => .error (.negativeArity minimum) := by
  rw [Arity.Given.coerce_eq_ofInt]
  rfl

theorem table_change_of_ne {store after : Store} {handle other : Nat} {request : Change}
    (hother : other ≠ handle) (hchange : store.change handle request = .ok after) :
    after.table other = store.table other := by
  simp only [change] at hchange
  split at hchange
  · cases hchange
    simp [table, Array.getD_eq_getD_getElem?, Array.getElem?_setIfInBounds_ne hother.symm]
  · cases hchange

end Store

end Reckon
