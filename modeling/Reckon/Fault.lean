import Reckon.Diagnostic
import Reckon.Operator

/-
What goes wrong when a well-formed expression is evaluated.  Numbers never do: the faults are
names that nothing defines, argument counts, nodes that mean nothing, and whatever a function from
outside reports.
-/

namespace Reckon

inductive Fault
  | unknownVariable (name : String)
  | unknownFunction (name : String)
  | wrongCount (expected : Int) (name : Option String) (found : Option Int)
  | tooFew (name : Option String) (minimum : Int)
  | misusedOperator (operator : Operator)
  | bareNode
  | emptySlot (position : Nat)
  | closureCount (shown : String) (takes given : Nat)
  | misapplied
  | nothingToFold
  | notSingle
  | tooDeep
  | raised (kind message : String)
deriving DecidableEq, Repr

namespace Fault

/-- A function by its name, which may be missing or empty. -/
def subject : Option String → String
  | none => "function"
  | some name => if name = "" then "function" else "'" ++ name ++ "'"

def argumentWord (count : Int) : String := if count = 1 then "argument" else "arguments"

def countText (count : Int) : String := toString count ++ " " ++ argumentWord count

/-- The diagnostic of a name or an argument count. -/
def diagnostic? : Fault → Option Diagnostic
  | .unknownVariable name => some ⟨"E401", "unknown variable '" ++ name ++ "'", none, none, []⟩
  | .unknownFunction name => some ⟨"E402", "unknown function '" ++ name ++ "'", none, none, []⟩
  | .wrongCount expected name found =>
      let got := match found with
        | some count => ", got " ++ toString count
        | none => ""
      some ⟨"E403", subject name ++ " expects " ++ countText expected ++ got, none, none, []⟩
  | .tooFew name minimum =>
      some ⟨"E404", subject name ++ " expects at least " ++ countText minimum, none, none, []⟩
  | _ => none

def message (fault : Fault) : String :=
  match fault.diagnostic?, fault with
  | some diagnostic, _ => diagnostic.format
  | none, .misusedOperator operator =>
      "<Operator." ++ operator.name ++ ": " ++ toString operator.number ++ ">"
  | none, .bareNode => "Unknown node type: Node"
  | none, .emptySlot position => "node " ++ toString position ++ " has no value yet"
  | none, .closureCount shown takes given =>
      shown ++ " takes " ++ countText takes ++ " (" ++ toString given ++ " given)"
  | none, .misapplied => "wrong number of arguments"
  | none, .nothingToFold => "reduce() of empty iterable with no initial value"
  | none, .notSingle => "only an array of length one can serve as a number"
  | none, .tooDeep => "maximum recursion depth exceeded"
  | none, .raised _ message => message
  | none, _ => ""

end Fault

end Reckon
