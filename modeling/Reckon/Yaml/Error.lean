import Reckon.Datum.Moment

/-
Why a document has no value, and which of several errors counts.  Collections are filled from the
root downwards, all of one depth before the next, so the error nearest to the root counts.
-/

namespace Reckon.Yaml

inductive Error
  | malformed
  | noDigits (base : Nat)
  | yearOutOfRange
  | monthOutOfRange
  | dayOutOfRange
  | hourOutOfRange
  | minuteOutOfRange
  | secondOutOfRange
  | zoneOutOfRange (minutes : Int)
deriving DecidableEq, Repr

/-- The message, for all that is not an error of the document's form. -/
def Error.message? : Error → Option String
  | .malformed => none
  | .noDigits base =>
      some ("invalid literal for int() with base " ++ toString base ++ ": ''")
  | .yearOutOfRange => some "year 0 is out of range"
  | .monthOutOfRange => some "month must be in 1..12"
  | .dayOutOfRange => some "day is out of range for month"
  | .hourOutOfRange => some "hour must be in 0..23"
  | .minuteOutOfRange => some "minute must be in 0..59"
  | .secondOutOfRange => some "second must be in 0..59"
  | .zoneOutOfRange minutes =>
      some ("offset must be a timedelta strictly between -timedelta(hours=24) and " ++
        "timedelta(hours=24), not " ++ shownMinutes minutes ++ ".")

/-- An error and how many collections lie between the tree at hand and its place. -/
structure Flaw where
  depth : Nat
  error : Error
deriving DecidableEq, Repr

/-- Of two flaws the one nearer to the root, or the first of two at one depth. -/
def Flaw.nearer (first second : Flaw) : Flaw :=
  if second.depth < first.depth then second else first

/-- A value or the flaw for which there is none. -/
abbrev Reading (α : Type) := Except Flaw α

namespace Reading

variable {α β : Type}

/-- What is read at the tree itself. -/
def here (result : Except Error α) : Reading α := result.mapError fun error => ⟨0, error⟩

/-- What is read in a collection, seen from the collection. -/
def inside (reading : Reading α) : Reading α :=
  reading.mapError fun flaw => ⟨flaw.depth + 1, flaw.error⟩

def both : Reading α → Reading β → Reading (α × β)
  | .ok x, .ok y => .ok (x, y)
  | .error flaw, .ok _ => .error flaw
  | .ok _, .error flaw => .error flaw
  | .error first, .error second => .error (first.nearer second)

def all : List (Reading α) → Reading (List α)
  | [] => .ok []
  | reading :: rest => (both reading (all rest)).map fun (x, more) => x :: more

/-- Readings without a flaw give all their values. -/
theorem all_ok (values : List α) : all (values.map .ok) = .ok values := by
  induction values with
  | nil => rfl
  | cons value rest ih => simp [all, both, ih, Except.map]

end Reading

end Reckon.Yaml
