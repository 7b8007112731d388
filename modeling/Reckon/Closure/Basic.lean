import Reckon.Expr.Eval
import Reckon.Expr.ReversePolish

/-
Expressions made into functions of some of their variables.  All other names keep the meaning
that the context gives them at the time of the call.
-/

namespace Reckon

/-- An expression with its free variables in the order of the arguments; `κ` says what the
context is. -/
structure Closure (κ : Type) where
  expr : Expr
  context : κ
  names : List String

/-- Free variables as they are given: one by its name, or several in a row. -/
inductive FreeNames
  | one (name : String)
  | several (names : List String)
deriving DecidableEq, Repr

def FreeNames.toList : FreeNames → List String
  | .one name => [name]
  | .several names => names

/-- Why an expression cannot be bound. -/
inductive BindError
  | repeatedNames (names : List String)
  | unknownVariable (name : String)
deriving DecidableEq, Repr

namespace BindError

def repeatedMessage (names : List String) : String :=
  "free variable names must be unique: " ++ ", ".intercalate names

end BindError

/-- The names listed more than once, in ascending order. -/
def repeatedNames (names : List String) : List String :=
  (names.filter fun name => decide (1 < names.count name)).eraseDups.mergeSort
    fun first second => decide (first ≤ second)

namespace Closure

variable {κ V : Type}

/-- Every variable must be free or defined in the context. -/
def bind (expr : Expr) (context : κ) (defined : String → Bool) (names : List String) :
    Except BindError (Closure κ) :=
  if repeatedNames names ≠ [] then .error (.repeatedNames (repeatedNames names))
  else
    match expr.variableNames.find? fun name => !names.contains name && !defined name with
    | some name => .error (.unknownVariable name)
    | none => .ok ⟨expr, context, names⟩

def arity (closure : Closure κ) : Nat := closure.names.length

def text (closure : Closure κ) : String :=
  "<BoundFunction (" ++ ", ".intercalate closure.names ++ ") -> " ++ closure.expr.text ++ ">"

/-- The context's scope with the values of the free variables in front of it. -/
def layered (closure : Closure κ) (scope : Scope V) (values : List V) :
    Except Fault (Scope V) :=
  if values.length = closure.arity then
    .ok (if closure.names = [] then scope
      else .chain (.free (closure.names.zip values)) scope)
  else .error (.closureCount closure.text closure.arity values.length)

/-- The value for these arguments, where `scope` is that of the context. -/
def call [Elementwise V] (closure : Closure κ) (scope : Scope V) (values : List V) :
    Except Fault V := do
  let layered ← closure.layered scope values
  closure.expr.evaluate layered

theorem layered_of_length_ne (closure : Closure κ) (scope : Scope V) {values : List V}
    (hlength : values.length ≠ closure.arity) :
    closure.layered scope values =
      .error (.closureCount closure.text closure.arity values.length) := by
  simp [layered, hlength]

end Closure

end Reckon
