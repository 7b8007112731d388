import Mathlib
import Reckon.Proofs.Expr.Failure
import Reckon.Proofs.Scope.Layers

/-
What an evaluation can fail at.  A scope gives no meaning to a variable that it does not define,
to a call of a function that it does not define, and to a call with a number of arguments that the
function does not take.  The first such node is the fault of the whole expression, and if there is
none, the expression has a value, whatever the numbers are.
-/

namespace Reckon

variable {V W : Type} [Elementwise V] [Elementwise W]

namespace Scope

/-- The scope gives the node no meaning; the fault names what it misses. -/
inductive Denies (scope : Scope V) : Node Nat → Fault → Prop
  | unknownVariable {name : String} (hname : scope.value? name = none) :
      Denies scope (.var name) (.unknownVariable name)
  | unknownFunction {name : String} {args : List Nat} (hname : scope.function? name = none) :
      Denies scope (.call name args) (.unknownFunction name)
  | wrongCount {name : String} {args : List Nat} {function : Function (Implementation V)}
      (hname : scope.function? name = some function) (hexact : function.arity.variadic = false)
      (hcount : args.length ≠ function.arity.minimum) :
      Denies scope (.call name args)
        (.wrongCount function.arity.minimum (some name) (some (args.length : Int)))
  | tooFew {name : String} {args : List Nat} {function : Function (Implementation V)}
      (hname : scope.function? name = some function) (hvariadic : function.arity.variadic = true)
      (hcount : args.length < function.arity.minimum) :
      Denies scope (.call name args) (.tooFew (some name) function.arity.minimum)

/-- Of nodes that begin at a position, the scope gives no meaning to the one at which the
evaluation stops, and gives one to all before it. -/
def FirstDenied (scope : Scope V) (start : Nat) (nodes : List (Node Nat)) (stop : Stop) : Prop :=
  ∃ before node after, nodes = before ++ node :: after ∧
    stop.position = start + before.length ∧ scope.Denies node stop.fault ∧
    ∀ other ∈ before, ∀ fault, ¬scope.Denies other fault

/-- With as many arguments as they take the functions of the scope do not fail. -/
def Total (scope : Scope V) : Prop :=
  ∀ name function args, scope.function? name = some function →
    function.arity.Accepts args.length → ∃ value, function.implementation args = .ok value

/-- The scopes define the same names, functions with the same numbers of arguments. -/
structure SameNames (first : Scope V) (second : Scope W) : Prop where
  value : ∀ name, (first.value? name).isSome = (second.value? name).isSome
  arity : ∀ name,
    (first.function? name).map Function.arity = (second.function? name).map Function.arity

variable {scope first inner : Scope V} {other second : Scope W} {node : Node Nat} {fault : Fault}
  {name : String} {args : List Nat} {function : Function (Implementation V)}

/-- A node is denied in one way only. -/
theorem Denies.unique {further : Fault} (hdenied : scope.Denies node fault)
    (hfurther : scope.Denies node further) : fault = further := by
  cases hdenied with
  | unknownVariable _ =>
      cases hfurther with
      | unknownVariable _ => rfl
  | unknownFunction hname =>
      cases hfurther with
      | unknownFunction _ => rfl
      | wrongCount hother _ _ => cases hname.symm.trans hother
      | tooFew hother _ _ => cases hname.symm.trans hother
  | wrongCount hname hexact _ =>
      cases hfurther with
      | unknownFunction hother => cases hname.symm.trans hother
      | wrongCount hother _ _ =>
          cases hname.symm.trans hother
          rfl
      | tooFew hother hvariadic _ =>
          cases hname.symm.trans hother
          cases hexact.symm.trans hvariadic
  | tooFew hname hvariadic _ =>
      cases hfurther with
      | unknownFunction hother => cases hname.symm.trans hother
      | wrongCount hother hexact _ =>
          cases hname.symm.trans hother
          cases hexact.symm.trans hvariadic
      | tooFew hother _ _ =>
          cases hname.symm.trans hother
          rfl

theorem denies_mismatch (hname : scope.function? name = some function)
    (hcount : ¬function.arity.Accepts args.length) :
    scope.Denies (.call name args) (function.arity.mismatch args.length (some name)) := by
  cases hvariadic : function.arity.variadic with
  | false =>
      rw [Arity.mismatch, hvariadic]
      refine .wrongCount hname hvariadic ?_
      simpa [Arity.Accepts, hvariadic] using hcount
  | true =>
      rw [Arity.mismatch, hvariadic]
      refine .tooFew hname hvariadic ?_
      simpa [Arity.Accepts, hvariadic] using hcount

theorem not_denies_of_accepts (hname : scope.function? name = some function)
    (hcount : function.arity.Accepts args.length) : ¬scope.Denies (.call name args) fault := by
  intro hdenied
  cases hdenied with
  | unknownFunction hother => cases hname.symm.trans hother
  | wrongCount hother hexact hne =>
      cases hname.symm.trans hother
      exact hne (by simpa [Arity.Accepts, hexact] using hcount)
  | tooFew hother hvariadic hlt =>
      cases hname.symm.trans hother
      have hle : function.arity.minimum ≤ args.length := by
        simpa [Arity.Accepts, hvariadic] using hcount
      omega

theorem SameNames.symm (hsame : first.SameNames second) : second.SameNames first :=
  ⟨fun name => (hsame.value name).symm, fun name => (hsame.arity name).symm⟩

/-- Whether a node has a meaning depends on the names and the arities alone. -/
theorem Denies.of_sameNames (hsame : first.SameNames second)
    (hdenied : first.Denies node fault) : second.Denies node fault := by
  cases hdenied with
  | @unknownVariable name hname =>
      have hvalue := hsame.value name
      rw [hname, Option.isSome_none, eq_comm, Option.isSome_eq_false_iff,
        Option.isNone_iff_eq_none] at hvalue
      exact .unknownVariable hvalue
  | @unknownFunction name args hname =>
      have harity := hsame.arity name
      rw [hname, Option.map_none] at harity
      exact .unknownFunction (Option.map_eq_none_iff.mp harity.symm)
  | @wrongCount name args found hname hexact hcount =>
      have harity := hsame.arity name
      rw [hname, Option.map_some] at harity
      obtain ⟨function, hother, heq⟩ := Option.map_eq_some_iff.mp harity.symm
      rw [← heq] at hexact hcount ⊢
      exact .wrongCount hother hexact hcount
  | @tooFew name args found hname hvariadic hcount =>
      have harity := hsame.arity name
      rw [hname, Option.map_some] at harity
      obtain ⟨function, hother, heq⟩ := Option.map_eq_some_iff.mp harity.symm
      rw [← heq] at hvariadic hcount ⊢
      exact .tooFew hother hvariadic hcount

theorem SameNames.denies_iff (hsame : first.SameNames second) (node : Node Nat) (fault : Fault) :
    first.Denies node fault ↔ second.Denies node fault :=
  ⟨.of_sameNames hsame, .of_sameNames hsame.symm⟩

theorem SameNames.firstDenied_iff (hsame : first.SameNames second) (start : Nat)
    (nodes : List (Node Nat)) (stop : Stop) :
    first.FirstDenied start nodes stop ↔ second.FirstDenied start nodes stop := by
  simp only [FirstDenied, hsame.denies_iff]

/-- The first node is denied itself, or it has a meaning and a later one is the first denied. -/
theorem firstDenied_cons {start : Nat} {rest : List (Node Nat)} {stop : Stop} :
    scope.FirstDenied start (node :: rest) stop ↔
      (stop.position = start ∧ scope.Denies node stop.fault) ∨
      (∀ fault, ¬scope.Denies node fault) ∧ scope.FirstDenied (start + 1) rest stop := by
  constructor
  · rintro ⟨before, denied, after, hnodes, hposition, hdenied, hbefore⟩
    cases before with
    | nil =>
        cases hnodes
        exact .inl ⟨hposition, hdenied⟩
    | cons head tail =>
        cases hnodes
        refine .inr ⟨hbefore node List.mem_cons_self, tail, denied, after, rfl, ?_, hdenied,
          fun other hother => hbefore other (List.mem_cons_of_mem node hother)⟩
        rw [List.length_cons] at hposition
        omega
  · rintro (⟨hposition, hdenied⟩ | ⟨hnode, hrest⟩)
    · exact ⟨[], node, rest, rfl, hposition, hdenied, fun other hother =>
        absurd hother List.not_mem_nil⟩
    · obtain ⟨before, denied, after, rfl, hposition, hdenied, hbefore⟩ := hrest
      refine ⟨node :: before, denied, after, rfl, ?_, hdenied, ?_⟩
      · rw [List.length_cons]
        omega
      · intro other hother
        rcases List.mem_cons.mp hother with rfl | hother
        · exact hnode
        · exact hbefore other hother

theorem exists_firstDenied_iff {start : Nat} {nodes : List (Node Nat)} :
    (∃ stop, scope.FirstDenied start nodes stop) ↔
      ∃ node ∈ nodes, ∃ fault, scope.Denies node fault := by
  induction nodes generalizing start with
  | nil => simp [FirstDenied]
  | cons node rest ih =>
      constructor
      · rintro ⟨stop, before, denied, after, hnodes, _, hdenied, _⟩
        exact ⟨denied, by simp [hnodes], stop.fault, hdenied⟩
      · rintro ⟨denied, hmem, hdenied⟩
        by_cases hnode : ∃ fault, scope.Denies node fault
        · obtain ⟨fault, hfault⟩ := hnode
          exact ⟨⟨start, fault⟩, firstDenied_cons.mpr (.inl ⟨rfl, hfault⟩)⟩
        · have hrest : denied ∈ rest := by
            rcases List.mem_cons.mp hmem with rfl | hrest
            · exact absurd hdenied hnode
            · exact hrest
          obtain ⟨stop, hstop⟩ := ih.mpr ⟨denied, hrest, hdenied⟩
          exact ⟨stop, firstDenied_cons.mpr (.inr ⟨not_exists.mp hnode, hstop⟩)⟩

end Scope

variable {scope : Scope V} {values : Array V}

/-- A call of what the scope has, with values in place of the operands. -/
theorem Scope.call_cases (hbuilt : scope.Built) (htotal : scope.Total) {name : String}
    {args : List Nat} {results : List V} (hlength : results.length = args.length) :
    (∃ fault, scope.Denies (.call name args) fault ∧ scope.call name results = .error fault) ∨
      (∃ value, scope.call name results = .ok value) ∧
        ∀ fault, ¬scope.Denies (.call name args) fault := by
  rw [call_eq_callFound, callFound]
  cases hname : scope.function? name with
  | none => exact .inl ⟨_, .unknownFunction hname, rfl⟩
  | some function =>
      dsimp only
      by_cases hcount : function.arity.Accepts args.length
      · have haccepts : function.arity.Accepts results.length := hlength ▸ hcount
        obtain ⟨value, hvalue⟩ := htotal name function results hname haccepts
        refine .inr ⟨⟨value, ?_⟩, fun _ => not_denies_of_accepts hname hcount⟩
        rw [Function.call_of_accepts haccepts, hvalue]
      · have hrejects : ¬function.arity.Accepts results.length := hlength ▸ hcount
        refine .inl ⟨_, denies_mismatch hname hcount, ?_⟩
        rw [Function.call_of_not_accepts hrejects, hbuilt.name_of_function? hname, hlength]

/-- A node whose operands have values fails if the scope denies it, and only then. -/
theorem Node.evaluate_cases (hbuilt : scope.Built) (htotal : scope.Total) {node : Node Nat}
    (hfits : node.Fits) (hoperands : ∀ operand ∈ node.operands, operand < values.size) :
    (∃ fault, scope.Denies node fault ∧ node.evaluate scope values = .error fault) ∨
      (∃ value, node.evaluate scope values = .ok value) ∧
        ∀ fault, ¬scope.Denies node fault := by
  cases node with
  | literal value =>
      refine .inr ⟨⟨_, rfl⟩, ?_⟩
      intro fault hdenied
      cases hdenied
  | var name =>
      cases hname : scope.value? name with
      | none => exact .inl ⟨_, .unknownVariable hname, by rw [evaluate, hname]⟩
      | some value =>
          refine .inr ⟨⟨value, by rw [evaluate, hname]⟩, ?_⟩
          intro fault hdenied
          cases hdenied with
          | unknownVariable hnone => cases hname.symm.trans hnone
  | unary operator operand =>
      have hoperand : operand < values.size := hoperands operand (by simp [operands])
      refine .inr ⟨exists_evaluate_unary hfits hoperand, ?_⟩
      intro fault hdenied
      cases hdenied
  | binary operator left right =>
      have hleft : left < values.size := hoperands left (by simp [operands])
      have hright : right < values.size := hoperands right (by simp [operands])
      refine .inr ⟨exists_evaluate_binary hfits hleft hright, ?_⟩
      intro fault hdenied
      cases hdenied
  | call name args =>
      have hargs : ∀ arg ∈ args, arg < values.size := hoperands
      obtain ⟨results, hresults, hlength⟩ := exists_mapM_slot hargs
      rw [evaluate, hresults]
      exact scope.call_cases hbuilt htotal hlength
  | bare => exact hfits.elim

/-- The evaluation stops at the first node that the scope denies. -/
theorem evaluateNodes_eq_error_iff (hbuilt : scope.Built) (htotal : scope.Total)
    {nodes : List (Node Nat)} (hfits : ∀ node ∈ nodes, node.Fits)
    (hoperands : OperandsBefore values.size nodes) (stop : Stop) :
    evaluateNodes scope values nodes = .error stop ↔
      scope.FirstDenied values.size nodes stop := by
  -- There are as many values as nodes before, so that their number is the position of the next.
  induction nodes generalizing values with
  | nil => simp [evaluateNodes, Scope.FirstDenied]
  | cons node rest ih =>
      obtain ⟨hnode, hrest⟩ := hoperands
      rw [Scope.firstDenied_cons, evaluateNodes]
      rcases node.evaluate_cases hbuilt htotal (hfits node List.mem_cons_self) hnode with
        ⟨fault, hdenied, hfault⟩ | ⟨⟨value, hvalue⟩, hmeaning⟩
      · simp only [hfault, Except.error.injEq]
        constructor
        · rintro rfl
          exact .inl ⟨rfl, hdenied⟩
        · rintro (⟨hposition, hother⟩ | ⟨hmeaning, _⟩)
          · rw [← hposition, hdenied.unique hother]
          · exact absurd hdenied (hmeaning fault)
      · rw [← Array.size_push value] at hrest
        have htail := ih (fun other hother => hfits other (List.mem_cons_of_mem node hother)) hrest
        simp only [hvalue, htail, Array.size_push]
        constructor
        · exact fun hstop => .inr ⟨hmeaning, hstop⟩
        · rintro (⟨_, hdenied⟩ | ⟨_, hstop⟩)
          · exact absurd hdenied (hmeaning stop.fault)
          · exact hstop

namespace Expr

variable {expr : Expr} {source : String}

theorem run_eq_error_iff_firstDenied (hparse : parse source = .ok expr) (hbuilt : scope.Built)
    (htotal : scope.Total) (stop : Stop) :
    expr.run scope = .error stop ↔ scope.FirstDenied 0 expr.nodes stop := by
  have hoperands : OperandsBefore (#[] : Array V).size expr.nodes := expr.operandsBefore
  exact evaluateNodes_eq_error_iff hbuilt htotal (fits_of_parse hparse) hoperands stop

theorem evaluate_eq_error_iff_firstDenied (hparse : parse source = .ok expr)
    (hbuilt : scope.Built) (htotal : scope.Total) (fault : Fault) :
    expr.evaluate scope = .error fault ↔
      ∃ position, scope.FirstDenied 0 expr.nodes ⟨position, fault⟩ := by
  simp only [evaluate_eq_error_iff, run_eq_error_iff_firstDenied hparse hbuilt htotal]

theorem exists_listing_of_parse (hparse : parse source = .ok expr) :
    ∃ tree : Tree, expr.nodes = tree.listing 0 := by
  obtain ⟨_, _, tree, _, _, rfl⟩ := exists_derives_of_parse hparse
  exact ⟨tree, rfl⟩

/-- What was parsed lists operands before their operator and from left to right.  In a scope whose
functions do not fail themselves it has no value exactly if the scope denies one of its nodes; the
fault is then that of the first such node, and the evaluation stops there.  In two scopes that
define the same names with the same numbers of arguments it has a value in both or the same fault
in both, whatever the values and the functions are. -/
theorem evaluate_fails_iff_denied (hparse : parse source = .ok expr) (hbuilt : scope.Built)
    (htotal : scope.Total) :
    (∃ tree : Tree, expr.nodes = tree.listing 0) ∧
    ((∃ fault, expr.evaluate scope = .error fault) ↔
      ∃ node ∈ expr.nodes, ∃ fault, scope.Denies node fault) ∧
    (∀ fault, expr.evaluate scope = .error fault ↔
      ∃ position, scope.FirstDenied 0 expr.nodes ⟨position, fault⟩) ∧
    (∀ stop, expr.run scope = .error stop ↔ scope.FirstDenied 0 expr.nodes stop) ∧
    ∀ (W : Type) [Elementwise W] (other : Scope W), other.Built → other.Total →
      scope.SameNames other →
      ((∃ value, expr.evaluate scope = .ok value) ∧ ∃ value, expr.evaluate other = .ok value) ∨
        ∃ fault, expr.evaluate scope = .error fault ∧ expr.evaluate other = .error fault := by
  have hfault := evaluate_eq_error_iff_firstDenied hparse hbuilt htotal
  have hexists : (∃ stop, scope.FirstDenied 0 expr.nodes stop) ↔
      ∃ node ∈ expr.nodes, ∃ fault, scope.Denies node fault := Scope.exists_firstDenied_iff
  refine ⟨exists_listing_of_parse hparse, ?_, hfault,
    run_eq_error_iff_firstDenied hparse hbuilt htotal, ?_⟩
  · rw [← hexists]
    simp only [hfault]
    constructor
    · rintro ⟨fault, position, hstop⟩
      exact ⟨_, hstop⟩
    · rintro ⟨stop, hstop⟩
      exact ⟨stop.fault, stop.position, hstop⟩
  · intro W _ other hotherBuilt hotherTotal hsame
    have hboth : ∀ fault, expr.evaluate scope = .error fault ↔
        expr.evaluate other = .error fault := by
      intro fault
      simp only [hfault, hsame.firstDenied_iff,
        evaluate_eq_error_iff_firstDenied hparse hotherBuilt hotherTotal]
    cases hscope : expr.evaluate scope with
    | error fault => exact .inr ⟨fault, rfl, (hboth fault).mp hscope⟩
    | ok value =>
        cases hother : expr.evaluate other with
        | error fault => cases hscope.symm.trans ((hboth fault).mpr hother)
        | ok result => exact .inl ⟨⟨value, rfl⟩, result, rfl⟩

end Expr

namespace Scope

theorem total_builtins : (Scope.builtins : Scope V).Total := by
  intro name function args hfunction hcount
  obtain ⟨builtin, _, rfl⟩ := Option.map_eq_some_iff.mp hfunction
  exact builtin.meaning.exists_apply hcount

theorem total_free (values : List (String × V)) : (Scope.free values).Total := by
  intro name function args hfunction
  cases hfunction

theorem Total.chain {outer inner : Scope V} (houter : outer.Total) (hinner : inner.Total) :
    (Scope.chain outer inner).Total := by
  intro name function args hfunction hcount
  rw [function?_chain, Option.or_eq_some_iff] at hfunction
  rcases hfunction with hfunction | ⟨_, hfunction⟩
  · exact houter name function args hfunction hcount
  · exact hinner name function args hfunction hcount

end Scope

namespace Expr

/-- The catalog behind one variable. -/
def oneVariable (x : Float) : Scope Float := .chain (.free [("x", x)]) .builtins

/-- An empty call stands before an unknown variable, and is the fault for zero and for what is not
a number. -/
theorem evaluate_overlooked : ∃ expr, parse "x / x + max() * y" = .ok expr ∧
    expr.evaluate (oneVariable 0.0) = .error (.tooFew (some "max") 1) ∧
    expr.evaluate (oneVariable (0.0 / 0.0)) = .error (.tooFew (some "max") 1) := by
  obtain ⟨expr, hparse, hnodes⟩ : ∃ expr, parse "x / x + max() * y" = .ok expr ∧
      expr.nodes = [.var "x", .var "x", .binary .div 0 1, .call "max" [], .var "y",
        .binary .mul 3 4, .binary .add 2 5] := ⟨_, (by cbv), rfl⟩
  have htotal : ∀ x, (oneVariable x).Total :=
    fun x => .chain (Scope.total_free [("x", x)]) Scope.total_builtins
  have hbuilt : ∀ x, (oneVariable x).Built := fun x => ⟨trivial, trivial⟩
  have hnames : (oneVariable 0.0).SameNames (oneVariable (0.0 / 0.0)) := by
    refine ⟨fun name => ?_, fun name => rfl⟩
    simp only [oneVariable, Scope.value?_chain, Scope.value?, Bindings.lookup]
    split <;> rfl
  have hdenied : (oneVariable 0.0).FirstDenied 0 expr.nodes ⟨3, .tooFew (some "max") 1⟩ := by
    have hmax : (oneVariable 0.0).function? "max" =
        some (Builtin.function Float ⟨"max", .fold larger, "largest argument"⟩) := rfl
    refine ⟨[.var "x", .var "x", .binary .div 0 1], _, _, hnodes, rfl,
      .tooFew hmax rfl (by decide), ?_⟩
    intro other hother fault hfault
    simp only [List.mem_cons, List.not_mem_nil, or_false, or_self_left] at hother
    rcases hother with rfl | rfl
    · cases hfault with
      | unknownVariable hname => cases hname
    · cases hfault
  obtain ⟨_, _, hfault, _, hsame⟩ := evaluate_fails_iff_denied hparse (hbuilt 0.0) (htotal 0.0)
  have hzero := (hfault _).mpr ⟨3, hdenied⟩
  refine ⟨expr, hparse, hzero, ?_⟩
  rcases hsame Float _ (hbuilt (0.0 / 0.0)) (htotal _) hnames with
    ⟨⟨value, hvalue⟩, _⟩ | ⟨fault, hfirst, hsecond⟩
  · cases hzero.symm.trans hvalue
  · rw [hsecond, ← hfirst, hzero]

end Expr

end Reckon
