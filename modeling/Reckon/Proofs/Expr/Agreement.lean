import Mathlib.Data.List.Forall2
import Reckon.Proofs.Expr.Value

/-
One expression evaluated on two kinds of values.  If the scopes give related values for related
arguments, the results are related or the same fault arises at the same node.
-/

namespace Reckon

/-- Two results are related, or the same error. -/
def Agree {ε α β : Type} (related : α → β → Prop) : Except ε α → Except ε β → Prop
  | .ok x, .ok y => related x y
  | .error error, .error other => error = other
  | _, _ => False

namespace Agree

variable {ε α β γ δ : Type} {related : α → β → Prop} {further : γ → δ → Prop}

theorem bind {first : Except ε α} {second : Except ε β} {f : α → Except ε γ}
    {g : β → Except ε δ} (hagree : Agree related first second)
    (hrest : ∀ x y, first = .ok x → second = .ok y → related x y → Agree further (f x) (g y)) :
    Agree further (first >>= f) (second >>= g) := by
  cases first with
  | error error =>
      cases second with
      | error other => exact hagree
      | ok y => exact hagree.elim
  | ok x =>
      cases second with
      | error other => exact hagree.elim
      | ok y => exact hrest x y rfl rfl hagree

theorem mono {weaker : α → β → Prop} {first : Except ε α} {second : Except ε β}
    (hagree : Agree related first second) (hrelated : ∀ x y, related x y → weaker x y) :
    Agree weaker first second := by
  cases first with
  | error error =>
      cases second with
      | error other => exact hagree
      | ok y => exact hagree.elim
  | ok x =>
      cases second with
      | error other => exact hagree.elim
      | ok y => exact hrelated x y hagree

theorem error_iff {first : Except ε α} {second : Except ε β} (hagree : Agree related first second)
    (error : ε) : first = .error error ↔ second = .error error := by
  cases first <;> cases second <;> simp_all [Agree]

theorem exists_of_ok {second : Except ε β} {x : α}
    (hagree : Agree related (.ok x) second) : ∃ y, second = .ok y ∧ related x y := by
  cases second with
  | error error => exact hagree.elim
  | ok y => exact ⟨y, rfl, hagree⟩

end Agree

variable {V W : Type} {related : V → W → Prop} {values : Array V} {others : Array W}

/-- Arrays of related values, of one size. -/
def SlotsRelated (related : V → W → Prop) (values : Array V) (others : Array W) : Prop :=
  List.Forall₂ related values.toList others.toList

theorem SlotsRelated.slot (hslots : SlotsRelated related values others) (position : Nat) :
    Agree related (slot values position) (slot others position) := by
  have hlength : values.size = others.size := by simpa using hslots.length_eq
  by_cases hposition : position < values.size
  · have hother : position < others.size := hlength ▸ hposition
    have hrelated := hslots.get (by simpa using hposition) (by simpa using hother)
    simpa [Reckon.slot, hposition, hother, Agree] using hrelated
  · have hother : ¬position < others.size := hlength ▸ hposition
    simp [Reckon.slot, hposition, hother, Agree]

theorem SlotsRelated.push (hslots : SlotsRelated related values others) {v : V} {w : W}
    (hvalue : related v w) : SlotsRelated related (values.push v) (others.push w) := by
  rw [SlotsRelated, Array.toList_push, Array.toList_push]
  exact List.rel_append hslots (.cons hvalue .nil)

theorem SlotsRelated.mapM (hslots : SlotsRelated related values others) (args : List Nat) :
    Agree (List.Forall₂ related) (args.mapM (Reckon.slot values))
      (args.mapM (Reckon.slot others)) := by
  induction args with
  | nil => exact List.Forall₂.nil
  | cons arg rest ih =>
      rw [List.mapM_cons, List.mapM_cons]
      apply (hslots.slot arg).bind
      intro x y _ _ hxy
      apply ih.bind
      intro xs ys _ _ hrest
      exact List.Forall₂.cons hxy hrest

variable [Elementwise V] [Elementwise W]

/-- The relation is kept by numbers and by what is done place by place. -/
structure Elementwise.Compatible (related : V → W → Prop) : Prop where
  const : ∀ x, related (Elementwise.const x) (Elementwise.const x)
  map : ∀ f v w, related v w → related (Elementwise.map f v) (Elementwise.map f w)
  map₂ : ∀ f v w x y, related v w → related x y →
    related (Elementwise.map₂ f v x) (Elementwise.map₂ f w y)

/-- The scopes know the same names, with related values and functions that agree. -/
structure Scope.Related (related : V → W → Prop) (first : Scope V) (second : Scope W) :
    Prop where
  value : ∀ name, Option.Rel related (first.value? name) (second.value? name)
  function : ∀ name, (first.function? name).isSome = (second.function? name).isSome
  call : ∀ name args others, List.Forall₂ related args others →
    Agree related (first.call name args) (second.call name others)

variable {first : Scope V} {second : Scope W} {node : Node Nat}

/-- Powers of the operands of a node are related, if it is a power. -/
def PowersRelated (related : V → W → Prop) (values : Array V) (node : Node Nat) : Prop :=
  ∀ left right base exponent x y, node = .binary .pow left right →
    slot values left = .ok base → slot values right = .ok exponent →
    related base x → related exponent y →
    related (Elementwise.pow base exponent) (Elementwise.pow x y)

theorem Operator.unary?_related (hcompatible : Elementwise.Compatible related)
    (operator : Operator) :
    Option.Rel (fun f g => ∀ v w, related v w → related (f v) (g w))
      (operator.unary? : Option (V → V)) (operator.unary? : Option (W → W)) := by
  cases operator <;> first | exact .none | exact .some (hcompatible.map _)

/-- Powers apart, operators between operands keep the relation. -/
theorem Operator.binary?_related (hcompatible : Elementwise.Compatible related)
    {operator : Operator} (hoperator : operator ≠ .pow) :
    Option.Rel (fun f g => ∀ v w x y, related v w → related x y → related (f v x) (g w y))
      (operator.binary? : Option (V → V → V)) (operator.binary? : Option (W → W → W)) := by
  cases operator <;>
    first | exact absurd rfl hoperator | exact .none | exact .some (hcompatible.map₂ _)

/-- Evaluating a node on related values gives related values or the same fault. -/
theorem Node.evaluate_agree (hcompatible : Elementwise.Compatible related)
    (hscopes : first.Related related second) (hslots : SlotsRelated related values others)
    (hpowers : PowersRelated related values node) :
    Agree related (node.evaluate first values) (node.evaluate second others) := by
  cases node with
  | literal value => exact hcompatible.const value
  | var name =>
      have hvalue := hscopes.value name
      rw [evaluate, evaluate]
      cases hfirst : first.value? name <;> cases hsecond : second.value? name <;>
        simp_all [Agree]
  | unary operator operand =>
      rw [evaluate, evaluate]
      have hrelated := operator.unary?_related hcompatible
      generalize (operator.unary? : Option (V → V)) = f at hrelated
      generalize (operator.unary? : Option (W → W)) = g at hrelated
      cases hrelated with
      | none => exact rfl
      | some hrelated =>
          exact (hslots.slot operand).bind fun x y _ _ hxy => hrelated x y hxy
  | binary operator left right =>
      rw [evaluate, evaluate]
      by_cases hpow : operator = .pow
      · subst hpow
        apply (hslots.slot left).bind
        intro base x hbase _ hx
        apply (hslots.slot right).bind
        intro exponent y hexponent _ hy
        exact hpowers left right base exponent x y rfl hbase hexponent hx hy
      · have hrelated := Operator.binary?_related hcompatible hpow
        generalize (operator.binary? : Option (V → V → V)) = f at hrelated
        generalize (operator.binary? : Option (W → W → W)) = g at hrelated
        cases hrelated with
        | none => exact rfl
        | some hrelated =>
            apply (hslots.slot left).bind
            intro v w _ _ hvw
            apply (hslots.slot right).bind
            intro x y _ _ hxy
            exact hrelated v w x y hvw hxy
  | call name args =>
      rw [evaluate, evaluate]
      exact (hslots.mapM args).bind fun xs ys _ _ hxs => hscopes.call name xs ys hxs
  | bare => exact rfl

/-- A list of nodes is evaluated one part after the other. -/
theorem evaluateNodes_append (scope : Scope V) (values : Array V)
    (before after : List (Node Nat)) :
    evaluateNodes scope values (before ++ after) =
      (evaluateNodes scope values before >>= fun results =>
        evaluateNodes scope results after) := by
  induction before generalizing values with
  | nil => rfl
  | cons node rest ih =>
      rw [List.cons_append, evaluateNodes, evaluateNodes]
      cases node.evaluate scope values with
      | error fault => rfl
      | ok value => exact ih (values.push value)

/-- Powers are related wherever the evaluation of the expression comes to one. -/
def Expr.PowersRelated (related : V → W → Prop) (expr : Expr) (scope : Scope V) : Prop :=
  ∀ before node after values, expr.nodes = before ++ node :: after →
    evaluateNodes scope #[] before = .ok values → Reckon.PowersRelated related values node

theorem evaluateNodes_agree {expr : Expr} (hcompatible : Elementwise.Compatible related)
    (hscopes : first.Related related second) (hpowers : expr.PowersRelated related first)
    {before after : List (Node Nat)} (hnodes : expr.nodes = before ++ after)
    (hvalues : evaluateNodes first #[] before = .ok values)
    (hslots : SlotsRelated related values others) :
    Agree (SlotsRelated related) (evaluateNodes first values after)
      (evaluateNodes second others after) := by
  induction after generalizing before values others with
  | nil => exact hslots
  | cons node rest ih =>
      have hnode := Node.evaluate_agree hcompatible hscopes hslots
        (hpowers before node rest values hnodes hvalues)
      have hsize : values.size = others.size := by simpa using hslots.length_eq
      rw [evaluateNodes, evaluateNodes]
      cases hfirst : node.evaluate first values with
      | error fault =>
          rw [(hnode.error_iff fault).mp hfirst, hsize]
          exact rfl
      | ok value =>
          rw [hfirst] at hnode
          obtain ⟨other, hsecond, hvalue⟩ := hnode.exists_of_ok
          have hnext : evaluateNodes first #[] (before ++ [node]) = .ok (values.push value) := by
            rw [evaluateNodes_append, hvalues]
            change evaluateNodes first values [node] = _
            rw [evaluateNodes, hfirst]
            rfl
          rw [hsecond]
          exact ih (by simp [hnodes]) hnext (hslots.push hvalue)

namespace Expr

variable {expr : Expr}

theorem run_agree (hcompatible : Elementwise.Compatible related)
    (hscopes : first.Related related second) (hpowers : expr.PowersRelated related first) :
    Agree (SlotsRelated related) (expr.run first) (expr.run second) := by
  have hnodes : expr.nodes = [] ++ expr.nodes := rfl
  exact evaluateNodes_agree hcompatible hscopes hpowers hnodes rfl .nil

/-- The value of an expression on the one side is related to that on the other, or both sides
have the same fault. -/
theorem evaluate_agree (hcompatible : Elementwise.Compatible related)
    (hscopes : first.Related related second) (hpowers : expr.PowersRelated related first) :
    Agree related (expr.evaluate first) (expr.evaluate second) := by
  have hrun := run_agree hcompatible hscopes hpowers
  rw [evaluate, evaluate]
  cases hfirst : expr.run first with
  | error stop =>
      rw [(hrun.error_iff stop).mp hfirst]
      exact rfl
  | ok values =>
      rw [hfirst] at hrun
      obtain ⟨others, hsecond, hslots⟩ := hrun.exists_of_ok
      rw [hsecond]
      exact hslots.slot (expr.size - 1)

end Expr

end Reckon
