import Reckon.Elementwise
import Reckon.Token.Basic

/-
The operators with their symbols, precedence and arithmetic.
-/

namespace Reckon

inductive Operator
  | add
  | sub
  | mul
  | div
  | rem
  | pow
  | neg
  | pos
  | fact
deriving DecidableEq, Repr

namespace Operator

def all : List Operator := [.add, .sub, .mul, .div, .rem, .pow, .neg, .pos, .fact]

def name : Operator → String
  | .add => "ADD"
  | .sub => "SUB"
  | .mul => "MUL"
  | .div => "DIV"
  | .rem => "REM"
  | .pow => "POW"
  | .neg => "NEG"
  | .pos => "POS"
  | .fact => "FACT"

def ofName? (name : String) : Option Operator := all.find? fun operator => operator.name == name

/-- The place of the operator among all, the first being number one. -/
def number (operator : Operator) : Nat := all.idxOf operator + 1

def symbol : Operator → String
  | .add => "+"
  | .sub => "-"
  | .mul => "*"
  | .div => "/"
  | .rem => "%"
  | .pow => "^"
  | .neg => "-"
  | .pos => "+"
  | .fact => "!"

/-- A higher precedence binds tighter. -/
def precedence : Operator → Nat
  | .add => 1
  | .sub => 1
  | .mul => 2
  | .div => 2
  | .rem => 2
  | .neg => 3
  | .pos => 3
  | .pow => 4
  | .fact => 5

def isRightAssociative : Operator → Bool
  | .pow => true
  | .neg => true
  | .pos => true
  | _ => false

def isUnary : Operator → Bool
  | .neg => true
  | .pos => true
  | .fact => true
  | _ => false

def binaryOf? : Symbol → Option Operator
  | .plus => some .add
  | .minus => some .sub
  | .star => some .mul
  | .slash => some .div
  | .percent => some .rem
  | .caret => some .pow
  | _ => none

/-- The operator that a symbol is in front of an operand. -/
def leadingOf? : Symbol → Option Operator
  | .minus => some .neg
  | .plus => some .pos
  | _ => none

/-- The operator that a symbol is behind an operand. -/
def trailingOf? : Symbol → Option Operator
  | .bang => some .fact
  | _ => none

/-- The arithmetic of the operators with one operand. -/
def unary? {V : Type} [Elementwise V] : Operator → Option (V → V)
  | .neg => some (Elementwise.map Float.neg)
  | .pos => some (Elementwise.map id)
  | .fact => some (Elementwise.map factorial)
  | _ => none

/-- The arithmetic of the operators with two operands. -/
def binary? {V : Type} [Elementwise V] : Operator → Option (V → V → V)
  | .add => some (Elementwise.map₂ Float.add)
  | .sub => some (Elementwise.map₂ Float.sub)
  | .mul => some (Elementwise.map₂ Float.mul)
  | .div => some (Elementwise.map₂ Float.div)
  | .rem => some (Elementwise.map₂ remainder)
  | .pow => some Elementwise.pow
  | _ => none

theorem isUnary_of_leadingOf? {symbol : Symbol} {operator : Operator}
    (hoperator : leadingOf? symbol = some operator) : operator.isUnary = true := by
  cases symbol <;> simp [leadingOf?] at hoperator <;> subst hoperator <;> rfl

theorem isUnary_of_binaryOf? {symbol : Symbol} {operator : Operator}
    (hoperator : binaryOf? symbol = some operator) : operator.isUnary = false := by
  cases symbol <;> simp [binaryOf?] at hoperator <;> subst hoperator <;> rfl

theorem unary?_isSome {V : Type} [Elementwise V] (operator : Operator) :
    (operator.unary? : Option (V → V)).isSome = operator.isUnary := by
  cases operator <;> rfl

theorem binary?_isSome {V : Type} [Elementwise V] (operator : Operator) :
    (operator.binary? : Option (V → V → V)).isSome = !operator.isUnary := by
  cases operator <;> rfl

end Operator

end Reckon
