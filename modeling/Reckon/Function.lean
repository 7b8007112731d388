import Reckon.Fault

/-
Functions with the number of arguments they take.
-/

namespace Reckon

/-- Exactly `minimum` arguments, or at least as many. -/
structure Arity where
  minimum : Nat
  variadic : Bool
deriving DecidableEq, Repr

/-- Fails unless there are exactly as many arguments as expected. -/
def checkCount (count expected : Nat) (name : Option String) : Except Fault Unit :=
  if count = expected then .ok () else .error (.wrongCount expected name (some (count : Int)))

/-- Fails if there are fewer arguments than the minimum. -/
def checkMinimum (count minimum : Nat) (name : Option String) : Except Fault Unit :=
  if count < minimum then .error (.tooFew name minimum) else .ok ()

namespace Arity

def exact (count : Nat) : Arity := ⟨count, false⟩

def atLeast (minimum : Nat) : Arity := ⟨minimum, true⟩

/-- The arity of this integer; a negative one is given back as the error. -/
def ofInt (minimum : Int) (variadic : Bool) : Except Int Arity :=
  if minimum < 0 then .error minimum else .ok ⟨minimum.toNat, variadic⟩

/-- The number of arguments as it is given: exactly so many, or by an arity. -/
inductive Given
  | count (n : Int)
  | arity (known : Arity)
deriving DecidableEq, Repr

namespace Given

def minimum : Given → Int
  | .count n => n
  | .arity known => known.minimum

def variadic : Given → Bool
  | .count _ => false
  | .arity known => known.variadic

/-- The arity that is meant.  A number of arguments that is negative is given back as the error. -/
def coerce : Given → Except Int Arity
  | .count n => ofInt n false
  | .arity known => .ok known

/-- An arity is what its own minimum means. -/
theorem coerce_eq_ofInt (given : Given) : given.coerce = ofInt given.minimum given.variadic := by
  cases given with
  | count n => rfl
  | arity known =>
      have hminimum : ¬(Given.arity known).minimum < 0 :=
        Int.not_lt.mpr (Int.natCast_nonneg known.minimum)
      rw [ofInt, if_neg hminimum]
      rfl

end Given

def negativeMessage (minimum : Int) : String :=
  "arity cannot be negative: " ++ toString minimum

def Accepts (arity : Arity) (count : Nat) : Prop :=
  if arity.variadic then arity.minimum ≤ count else count = arity.minimum

instance (arity : Arity) (count : Nat) : Decidable (arity.Accepts count) := by
  unfold Accepts
  infer_instance

def check (arity : Arity) (count : Nat) (name : Option String) : Except Fault Unit :=
  if arity.variadic then checkMinimum count arity.minimum name
  else checkCount count arity.minimum name

def text (arity : Arity) : String :=
  if arity.variadic then toString arity.minimum ++ "+" else toString arity.minimum

theorem check_eq_ok_iff (arity : Arity) (count : Nat) (name : Option String) :
    arity.check count name = .ok () ↔ arity.Accepts count := by
  obtain ⟨minimum, variadic⟩ := arity
  cases variadic <;> simp [check, Accepts, checkCount, checkMinimum]

/-- The fault of a number of arguments that is not accepted. -/
def mismatch (arity : Arity) (count : Nat) (name : Option String) : Fault :=
  if arity.variadic then .tooFew name arity.minimum
  else .wrongCount arity.minimum name (some (count : Int))

theorem check_of_not_accepts {arity : Arity} {count : Nat} (hcount : ¬arity.Accepts count)
    (name : Option String) : arity.check count name = .error (arity.mismatch count name) := by
  obtain ⟨minimum, variadic⟩ := arity
  cases variadic <;> simp_all [check, Accepts, checkCount, checkMinimum, mismatch]

theorem mismatch_ne_unknownFunction (arity : Arity) (count : Nat) (name : Option String)
    (other : String) : arity.mismatch count name ≠ .unknownFunction other := by
  rw [mismatch]
  split <;> simp

end Arity

/-- A named function; `ι` says how it is carried out. -/
structure Function (ι : Type) where
  name : String
  arity : Arity
  implementation : ι
  doc : String

/-- How a function is carried out on values of one kind. -/
abbrev Implementation (V : Type) := List V → Except Fault V

namespace Function

variable {ι κ V : Type}

def map (f : ι → κ) (function : Function ι) : Function κ :=
  { function with implementation := f function.implementation }

def call (function : Function (Implementation V)) (args : List V) : Except Fault V := do
  function.arity.check args.length (some function.name)
  function.implementation args

theorem call_of_accepts {function : Function (Implementation V)} {args : List V}
    (hcount : function.arity.Accepts args.length) :
    function.call args = function.implementation args := by
  rw [call, (Arity.check_eq_ok_iff _ _ _).mpr hcount]
  rfl

theorem call_of_not_accepts {function : Function (Implementation V)} {args : List V}
    (hcount : ¬function.arity.Accepts args.length) :
    function.call args =
      .error (function.arity.mismatch args.length (some function.name)) := by
  rw [call, Arity.check_of_not_accepts hcount]
  rfl

end Function

end Reckon
