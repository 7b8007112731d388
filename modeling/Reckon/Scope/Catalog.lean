import Reckon.Bindings
import Reckon.Elementwise
import Reckon.Function

/-
The constants and functions that are always there.  They are given twice: as a table of entries,
which can be copied and changed, and as a fixed case distinction on the name.
-/

namespace Reckon

/-- What a built-in function does: work on one number, on two, or on one after the other. -/
inductive Meaning
  | unary (f : Float → Float)
  | binary (f : Float → Float → Float)
  | fold (f : Float → Float → Float)

namespace Meaning

variable {V : Type} [Elementwise V]

def arity : Meaning → Arity
  | .unary _ => Arity.exact 1
  | .binary _ => Arity.exact 2
  | .fold _ => Arity.atLeast 1

/-- A fold starts with the first argument and has none to start with if there is none. -/
def apply : Meaning → Implementation V
  | .unary f, [x] => .ok (Elementwise.map f x)
  | .binary f, [x, y] => .ok (Elementwise.map₂ f x y)
  | .fold f, x :: rest => .ok (rest.foldl (Elementwise.map₂ f) x)
  | .fold _, [] => .error .nothingToFold
  | _, _ => .error .misapplied

end Meaning

structure Builtin where
  name : String
  meaning : Meaning
  doc : String

/-- The number of arguments is that of the meaning. -/
def Builtin.function (V : Type) [Elementwise V] (builtin : Builtin) :
    Function (Implementation V) :=
  ⟨builtin.name, builtin.meaning.arity, builtin.meaning.apply, builtin.doc⟩

namespace Catalog

def pi : Float := 3.141592653589793

def euler : Float := 2.718281828459045

def constants : Bindings Float := ⟨[("pi", pi), ("e", euler)]⟩

def entries : List Builtin :=
  [⟨"sqrt", .unary Float.sqrt, "square root"⟩,
   ⟨"exp", .unary Float.exp, "e raised to x"⟩,
   ⟨"ln", .unary Float.log, "natural logarithm"⟩,
   ⟨"abs", .unary Float.abs, "absolute value"⟩,
   ⟨"sin", .unary Float.sin, "sine (radians)"⟩,
   ⟨"cos", .unary Float.cos, "cosine (radians)"⟩,
   ⟨"tan", .unary Float.tan, "tangent (radians)"⟩,
   ⟨"asin", .unary Float.asin, "inverse sine"⟩,
   ⟨"acos", .unary Float.acos, "inverse cosine"⟩,
   ⟨"atan", .unary Float.atan, "inverse tangent"⟩,
   ⟨"sinh", .unary Float.sinh, "hyperbolic sine"⟩,
   ⟨"cosh", .unary Float.cosh, "hyperbolic cosine"⟩,
   ⟨"tanh", .unary Float.tanh, "hyperbolic tangent"⟩,
   ⟨"asinh", .unary Float.asinh, "inverse hyperbolic sine"⟩,
   ⟨"acosh", .unary Float.acosh, "inverse hyperbolic cosine"⟩,
   ⟨"atanh", .unary Float.atanh, "inverse hyperbolic tangent"⟩,
   ⟨"floor", .unary Float.floor, "largest integer not greater than x"⟩,
   ⟨"ceil", .unary Float.ceil, "smallest integer not less than x"⟩,
   ⟨"round", .unary roundHalfAway, "nearest integer, ties away from zero"⟩,
   ⟨"signum", .unary signum, "sign of x as 1.0 or -1.0"⟩,
   ⟨"atan2", .binary Float.atan2, "four-quadrant inverse tangent of y/x"⟩,
   ⟨"max", .fold larger, "largest argument"⟩,
   ⟨"min", .fold smaller, "smallest argument"⟩]

def functions : Bindings Builtin := ⟨entries.map fun builtin => (builtin.name, builtin)⟩

variable {V : Type} [Elementwise V]

def oneArg (name : String) (args : List V) (f : Float → Float) : Except Fault V := do
  checkCount args.length 1 (some name)
  match args with
  | [x] => .ok (Elementwise.map f x)
  | _ => .error .misapplied

def twoArgs (name : String) (args : List V) (f : Float → Float → Float) : Except Fault V := do
  checkCount args.length 2 (some name)
  match args with
  | [x, y] => .ok (Elementwise.map₂ f x y)
  | _ => .error .misapplied

def oneOrMoreArgs (name : String) (args : List V) (f : Float → Float → Float) :
    Except Fault V := do
  checkMinimum args.length 1 (some name)
  match args with
  | x :: rest => .ok (rest.foldl (Elementwise.map₂ f) x)
  | [] => .error .nothingToFold

/-- The value of a built-in constant by case distinction. -/
def constant? (name : String) : Option Float :=
  match name with
  | "pi" => some pi
  | "e" => some euler
  | _ => none

/-- The call of a built-in function by case distinction. -/
def call (name : String) (args : List V) : Except Fault V :=
  match name with
  | "sqrt" => oneArg name args Float.sqrt
  | "exp" => oneArg name args Float.exp
  | "ln" => oneArg name args Float.log
  | "abs" => oneArg name args Float.abs
  | "sin" => oneArg name args Float.sin
  | "cos" => oneArg name args Float.cos
  | "tan" => oneArg name args Float.tan
  | "asin" => oneArg name args Float.asin
  | "acos" => oneArg name args Float.acos
  | "atan" => oneArg name args Float.atan
  | "sinh" => oneArg name args Float.sinh
  | "cosh" => oneArg name args Float.cosh
  | "tanh" => oneArg name args Float.tanh
  | "asinh" => oneArg name args Float.asinh
  | "acosh" => oneArg name args Float.acosh
  | "atanh" => oneArg name args Float.atanh
  | "floor" => oneArg name args Float.floor
  | "ceil" => oneArg name args Float.ceil
  | "round" => oneArg name args roundHalfAway
  | "signum" => oneArg name args signum
  | "atan2" => twoArgs name args Float.atan2
  | "max" => oneOrMoreArgs name args larger
  | "min" => oneOrMoreArgs name args smaller
  | _ => .error (.unknownFunction name)

end Catalog

end Reckon
