import Reckon.Scope.Table

/-
Scopes give names their meaning.  A scope is the built-in catalog, a table, the values of free
variables, or two scopes of which the outer one is asked first.
-/

namespace Reckon

inductive Scope (V : Type)
  | builtins
  | table (entries : Table (Implementation V))
  | free (values : List (String × V))
  | chain (outer inner : Scope V)

namespace Scope

variable {V : Type} [Elementwise V]

def value? : Scope V → String → Option V
  | .builtins, name => (Catalog.constant? name).map Elementwise.const
  | .table entries, name => (entries.constants.get? name).map Elementwise.const
  | .free values, name => Bindings.lookup name values
  | .chain outer inner, name =>
      match outer.value? name with
      | some value => some value
      | none => inner.value? name

def function? : Scope V → String → Option (Function (Implementation V))
  | .builtins, name => (Catalog.functions.get? name).map (Builtin.function V)
  | .table entries, name => entries.functions.get? name
  | .free _, _ => none
  | .chain outer inner, name =>
      match outer.function? name with
      | some function => some function
      | none => inner.function? name

/-- A call by the function that the scope knows under this name. -/
def callFound (scope : Scope V) (name : String) (args : List V) : Except Fault V :=
  match scope.function? name with
  | some function => function.call args
  | none => .error (.unknownFunction name)

/-- Calls a function.  The catalog finds it by its own case distinction. -/
def call : Scope V → String → List V → Except Fault V
  | .builtins, name, args => Catalog.call name args
  | .chain outer inner, name, args =>
      match outer.function? name with
      | some _ => outer.call name args
      | none => inner.call name args
  | scope, name, args => scope.callFound name args

/-- Several scopes in the order in which they are asked. -/
def chained (outer : Scope V) : List (Scope V) → Scope V
  | [] => outer
  | inner :: more => .chain outer (chained inner more)

theorem value?_chain (outer inner : Scope V) (name : String) :
    (chain outer inner).value? name = (outer.value? name).or (inner.value? name) := by
  simp only [value?]
  cases outer.value? name <;> rfl

theorem function?_chain (outer inner : Scope V) (name : String) :
    (chain outer inner).function? name = (outer.function? name).or (inner.function? name) := by
  simp only [function?]
  cases outer.function? name <;> rfl

end Scope

end Reckon
