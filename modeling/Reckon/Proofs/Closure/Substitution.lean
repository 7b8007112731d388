import Reckon.Proofs.Closure.Sample
import Reckon.Proofs.Scope.History
import Reckon.Proofs.Sheet.Constants

/-
Calling a closure is substitution.  The arguments take the place of the free variables, in the
expression or in a layer of constants in front of the context; functions of the same names stay
what they are.
-/

namespace Reckon

section

variable {ρ : Type} {values : List (String × Float)} {name : String}

/-- The node with the number of its name in the place of a variable that has one. -/
def Node.substitute (values : List (String × Float)) : Node ρ → Node ρ
  | .var name =>
      match Bindings.lookup name values with
      | some value => .literal value
      | none => .var name
  | node => node

theorem Node.operands_substitute (node : Node ρ) :
    (node.substitute values).operands = node.operands := by
  cases node with
  | var name =>
      rw [substitute]
      split <;> rfl
  | literal value => rfl
  | unary operator operand => rfl
  | binary operator left right => rfl
  | call name args => rfl
  | bare => rfl

theorem Node.substitute_nil (node : Node ρ) : node.substitute [] = node := by
  cases node <;> rfl

theorem Node.substitute_cons_of_ne {node : Node ρ} (hname : name ∉ node.variableName?)
    (value : Float) : node.substitute ((name, value) :: values) = node.substitute values := by
  cases node with
  | var other =>
      have hother : name ≠ other := by
        rintro rfl
        exact hname rfl
      rw [substitute, substitute, Bindings.lookup, if_neg hother]
  | literal value => rfl
  | unary operator operand => rfl
  | binary operator left right => rfl
  | call name args => rfl
  | bare => rfl

theorem OperandsBefore.map {position : Nat} {nodes : List (Node Nat)} {f : Node Nat → Node Nat}
    (hbefore : OperandsBefore position nodes) (hf : ∀ node, (f node).operands = node.operands) :
    OperandsBefore position (nodes.map f) := by
  induction nodes generalizing position with
  | nil => trivial
  | cons node rest ih =>
      refine ⟨?_, ih hbefore.2⟩
      rw [hf]
      exact hbefore.1

end

namespace Expr

/-- The expression with numbers in the place of the variables of these names. -/
def substitute (expr : Expr) (values : List (String × Float)) : Expr where
  nodes := expr.nodes.map (Node.substitute values)
  source := expr.source
  nodes_ne_nil := by simpa using expr.nodes_ne_nil
  operandsBefore := expr.operandsBefore.map Node.operands_substitute

variable {expr : Expr} {values : List (String × Float)} {name : String}

theorem size_substitute (expr : Expr) (values : List (String × Float)) :
    (expr.substitute values).size = expr.size := by
  rw [size, substitute, List.length_map, size]

theorem substitute_nil (expr : Expr) : expr.substitute [] = expr := by
  have hnode : Node.substitute (ρ := Nat) [] = id := funext Node.substitute_nil
  simp [substitute, hnode]

/-- A name that no variable has does not matter. -/
theorem substitute_cons_of_not_mem (hname : name ∉ expr.variableNames) (value : Float) :
    expr.substitute ((name, value) :: values) = expr.substitute values := by
  have hnodes : ∀ node ∈ expr.nodes,
      node.substitute ((name, value) :: values) = node.substitute values := by
    intro node hnode
    apply Node.substitute_cons_of_ne
    exact fun hvariable => hname (mem_variableNames hnode hvariable)
  simp only [substitute, List.map_congr_left hnodes]

end Expr

section

variable {outer inner : Scope Float} {expr : Expr} {slots : Array Float}
  {values others : List (String × Float)} {node : Node Nat}

/-- What a layer does to a variable, substitution does. -/
theorem Node.evaluate_substitute (hextends : outer.Extends inner values) :
    (node.substitute values).evaluate inner slots = node.evaluate outer slots := by
  cases node with
  | var name =>
      rw [substitute]
      cases hlookup : Bindings.lookup name values with
      | some value =>
          have hvalue := hextends.value name value (Bindings.mem_of_lookup hlookup)
          rw [evaluate, evaluate, hvalue]
          rfl
      | none =>
          have hother := hextends.other name (Bindings.not_mem_of_lookup hlookup)
          rw [evaluate, evaluate, hother]
  | call name args =>
      have hcall : outer.call name = inner.call name := funext (hextends.call name)
      change (Node.call name args).evaluate inner slots = _
      rw [evaluate, evaluate, hcall]
  | literal value => rfl
  | unary operator operand => rfl
  | binary operator left right => rfl
  | bare => rfl

theorem evaluateNodes_substitute (hextends : outer.Extends inner values)
    (nodes : List (Node Nat)) :
    evaluateNodes inner slots (nodes.map (Node.substitute values)) =
      evaluateNodes outer slots nodes := by
  -- Nodes keep their positions, so that both find the same slots in front of each node.
  induction nodes generalizing slots with
  | nil => rfl
  | cons node rest ih =>
      rw [List.map_cons, evaluateNodes, evaluateNodes, Node.evaluate_substitute hextends]
      cases node.evaluate outer slots with
      | error fault => rfl
      | ok value => exact ih

/-- The value below the layer, where the layer has been substituted. -/
theorem Expr.evaluate_substitute (hextends : outer.Extends inner values) :
    (expr.substitute values).evaluate inner = expr.evaluate outer := by
  have hrun : (expr.substitute values).run inner = expr.run outer :=
    evaluateNodes_substitute hextends expr.nodes
  rw [evaluate, evaluate, hrun, size_substitute]

namespace Scope.Extends

theorem of_perm (hextends : outer.Extends inner values) (hperm : others.Perm values) :
    outer.Extends inner others where
  value name x hentry := hextends.value name x (hperm.mem_iff.mp hentry)
  other name hname := hextends.other name fun hmem =>
    hname ((hperm.map Prod.fst).mem_iff.mpr hmem)
  function := hextends.function
  call := hextends.call

theorem nil (inner : Scope Float) : inner.Extends inner [] where
  value _ _ hentry := absurd hentry List.not_mem_nil
  other _ _ := rfl
  function _ := rfl
  call _ _ := rfl

end Scope.Extends

end

namespace Closure

variable {κ : Type} {closure : Closure κ} {expr : Expr} {context : κ} {defined : String → Bool}
  {names : List String} {values : List Float}

theorem repeatedNames_eq_nil_iff : repeatedNames names = [] ↔ names.Nodup := by
  simp only [repeatedNames, List.eq_nil_iff_forall_not_mem, List.mem_mergeSort, List.mem_eraseDups,
    List.mem_filter, decide_eq_true_eq, not_and, Nat.not_lt, List.nodup_iff_count_le_one]
  constructor
  · intro hnames name
    by_cases hname : name ∈ names
    · exact hnames name hname
    · rw [List.count_eq_zero_of_not_mem hname]
      exact Nat.zero_le 1
  · exact fun hnames name _ => hnames name

theorem find?_undefined_eq_none_iff :
    (expr.variableNames.find? fun name => !names.contains name && !defined name) = none ↔
      ∀ name ∈ expr.variableNames, name ∈ names ∨ defined name = true := by
  simp only [List.find?_eq_none, Bool.and_eq_true, Bool.not_eq_true', List.contains_eq_mem,
    decide_eq_false_iff_not, not_and, Bool.not_eq_false, or_iff_not_imp_left]

/-- Names can be bound if they are different and no other variable is undefined. -/
theorem bind_eq_ok_iff : bind expr context defined names = .ok closure ↔
    names.Nodup ∧ (∀ name ∈ expr.variableNames, name ∈ names ∨ defined name = true) ∧
      ⟨expr, context, names⟩ = closure := by
  rw [bind, ← repeatedNames_eq_nil_iff, ← find?_undefined_eq_none_iff]
  by_cases hnames : repeatedNames names = []
  · rw [if_neg (not_not.mpr hnames)]
    cases expr.variableNames.find? fun name => !names.contains name && !defined name with
    | some name => simp
    | none => simp [hnames]
  · simp [hnames]

theorem map_fst_zip (hlength : values.length = names.length) :
    (names.zip values).map Prod.fst = names :=
  List.map_fst_zip (Nat.le_of_eq hlength.symm)

/-- With as many arguments as there are names, these are what the layer in front of the context
says of the names. -/
theorem exists_layered_extends (expr : Expr) (context : κ) (hnames : names.Nodup)
    (scope : Scope Float) (hlength : values.length = names.length) :
    ∃ layered, (Closure.mk expr context names).layered scope values = .ok layered ∧
      layered.Extends scope (names.zip values) := by
  have hnodup : ((names.zip values).map Prod.fst).Nodup := by
    rwa [map_fst_zip hlength]
  rw [layered, arity, if_pos hlength]
  refine ⟨_, rfl, ?_⟩
  split
  · rename_i hnone
    obtain rfl : names = [] := hnone
    exact .nil scope
  · exact .chain hnodup (fun _ => rfl) fun _ => rfl

/-- A call with as many arguments as there are names evaluates the expression in which these have
been substituted. -/
theorem call_eq_evaluate_substitute (expr : Expr) (context : κ) (hnames : names.Nodup)
    (scope : Scope Float) (hlength : values.length = names.length) :
    (Closure.mk expr context names).call scope values =
      (expr.substitute (names.zip values)).evaluate scope := by
  obtain ⟨layered, hlayered, hextends⟩ :=
    exists_layered_extends expr context hnames scope hlength
  rw [call, hlayered, Expr.evaluate_substitute hextends]
  rfl

end Closure

namespace Store

variable {store before later : Store} {bindings : Bindings Float} {entries : List (String × Float)}
  {expr : Expr} {context : Ref} {names : List String} {closure : Closure Ref} {values : List Float}

/-- The calls that make an empty context and define these constants in it. -/
def constantCalls (store : Store) (entries : List (String × Float)) : List Action :=
  .create false :: entries.map fun entry =>
    .change store.tables.size (.constant entry.1 (.float entry.2))

/-- A constant that is defined in the last table is one more of its constants. -/
theorem act_constant_add (name : String) (value : Float) :
    (store.add ⟨bindings, Bindings.empty⟩).2.act
        (.change store.tables.size (.constant name (.float value))) =
      (store.add ⟨bindings.put name value, Bindings.empty⟩).2 := by
  rw [act, change, table_add_size, changed, Datum.toFloat]
  simp only [add, Table.withConstant]
  congr 1
  grind

theorem perform_constantCalls (store : Store) (entries : List (String × Float)) :
    store.perform (store.constantCalls entries) =
      (store.add ⟨Bindings.ofList entries, Bindings.empty⟩).2 := by
  -- The table grows by one constant after the other, whatever it begins with.
  have hcalls : ∀ bindings : Bindings Float,
      (entries.map fun entry =>
        Action.change store.tables.size (.constant entry.1 (.float entry.2))).foldl act
          (store.add ⟨bindings, Bindings.empty⟩).2 =
        (store.add ⟨entries.foldl (fun bindings entry => bindings.put entry.1 entry.2) bindings,
          Bindings.empty⟩).2 := by
    induction entries with
    | nil => exact fun _ => rfl
    | cons entry rest ih =>
        intro bindings
        rw [List.map_cons, List.foldl_cons, act_constant_add, ih, List.foldl_cons]
  exact hcalls Bindings.empty

/-- Binding with other names does not depend on their order. -/
theorem bind_of_perm {others : List String} (hbind : before.bind expr context names = .ok closure)
    (hperm : others.Perm names) :
    before.bind expr context others = .ok ⟨expr, context, others⟩ := by
  obtain ⟨hnodup, hall, -⟩ := Closure.bind_eq_ok_iff.mp hbind
  refine Closure.bind_eq_ok_iff.mpr ⟨hperm.nodup_iff.mpr hnodup, ?_, rfl⟩
  intro name hname
  rw [hperm.mem_iff]
  exact hall name hname

/-- Further names can be bound. -/
theorem bind_cons {name : String} (hbind : before.bind expr context names = .ok closure)
    (hname : name ∉ names) :
    before.bind expr context (name :: names) = .ok ⟨expr, context, name :: names⟩ := by
  obtain ⟨hnodup, hall, -⟩ := Closure.bind_eq_ok_iff.mp hbind
  refine Closure.bind_eq_ok_iff.mpr ⟨List.nodup_cons.mpr ⟨hname, hnodup⟩, ?_, rfl⟩
  intro other hother
  exact (hall other hother).imp_left (List.mem_cons_of_mem name)

/-- Calling a closure is substitution.  A call has the value or the fault of the expression with
the arguments in the place of the free variables, in the context as it is then; so has the
expression itself behind a layer with the arguments as constants, such as an empty context in which
they have been defined.  The free names hide variables and no functions, names that no variable has
and the order of the names do not matter, and any other number of arguments is refused. -/
theorem call_is_substitution (hbind : before.bind expr context names = .ok closure)
    (hlength : values.length = names.length) :
    later.call closure values =
      (expr.substitute (names.zip values)).evaluate (later.scope context) ∧
    later.call closure values = expr.evaluate
      (.chain (.table ⟨Bindings.ofList (names.zip values), Bindings.empty⟩)
        (later.scope context)) ∧
    (later.Closed → later.Holds context → later.call closure values = expr.evaluate
      ((later.perform (later.constantCalls (names.zip values))).scope
        (.chain (.table later.tables.size) context))) ∧
    (∃ layered, closure.layered (later.scope context) values = .ok layered ∧
      later.call closure values = expr.evaluate layered ∧
      layered.Extends (later.scope context) (names.zip values)) ∧
    (∀ name value, name ∉ names → name ∉ expr.variableNames →
      ∃ wider, before.bind expr context (name :: names) = .ok wider ∧
        later.call wider (value :: values) = later.call closure values) ∧
    (∀ others arguments, arguments.length = others.length →
      (others.zip arguments).Perm (names.zip values) →
      ∃ permuted, before.bind expr context others = .ok permuted ∧
        later.call permuted arguments = later.call closure values) ∧
    (names = [] → later.call closure values = expr.evaluate (later.scope context)) ∧
    ∀ arguments, arguments.length ≠ names.length → later.call closure arguments =
      .error (.closureCount closure.text names.length arguments.length) := by
  obtain ⟨hnodup, -, rfl⟩ := Closure.bind_eq_ok_iff.mp hbind
  have hentries : ((names.zip values).map Prod.fst).Nodup := by
    rwa [Closure.map_fst_zip hlength]
  have hcall : later.call ⟨expr, context, names⟩ values =
      (expr.substitute (names.zip values)).evaluate (later.scope context) :=
    Closure.call_eq_evaluate_substitute expr context hnodup _ hlength
  have hlayer : later.call ⟨expr, context, names⟩ values = expr.evaluate
      (Sheet.layered (Bindings.ofList (names.zip values)) (later.scope context)) := by
    rw [Bindings.ofList_of_nodup hentries,
      ← Expr.evaluate_substitute (Sheet.layered_extends _ hentries)]
    exact hcall
  refine ⟨hcall, hlayer, ?_, ?_, ?_, ?_, ?_, ?_⟩
  · intro hclosed hcontext
    rw [perform_constantCalls, scope_add_layer hclosed _ hcontext]
    exact hlayer
  · obtain ⟨layered, hlayered, hextends⟩ :=
      Closure.exists_layered_extends expr context hnodup (later.scope context) hlength
    refine ⟨layered, hlayered, ?_, hextends⟩
    rw [hcall, Expr.evaluate_substitute hextends]
  · intro name value hname hvariable
    have hnames : (name :: names).Nodup := List.nodup_cons.mpr ⟨hname, hnodup⟩
    refine ⟨_, bind_cons hbind hname, ?_⟩
    rw [call, Closure.call_eq_evaluate_substitute expr context hnames _ (by simp [hlength]),
      List.zip_cons_cons, Expr.substitute_cons_of_not_mem hvariable]
    exact hcall.symm
  · intro others arguments hother hperm
    have hnames : others.Perm names := by
      rw [← Closure.map_fst_zip hother, ← Closure.map_fst_zip hlength]
      exact hperm.map Prod.fst
    obtain ⟨layered, hlayered, hextends⟩ := Closure.exists_layered_extends expr context
      (hnames.nodup_iff.mpr hnodup) (later.scope context) hother
    refine ⟨_, bind_of_perm hbind hnames, ?_⟩
    -- The layer of the other order says the same of every name.
    rw [hcall, Expr.evaluate_substitute (hextends.of_perm hperm.symm), call, Closure.call, hlayered]
    rfl
  · rintro rfl
    rw [hcall, List.zip_nil_left, Expr.substitute_nil]
  · intro arguments harguments
    rw [call, Closure.call, Closure.layered_of_length_ne _ _ harguments]
    rfl

/-- The expression `e * abs(abs)`. -/
def shadowingExpr : Expr where
  nodes := [.var "e", .var "abs", .call "abs" [1], .binary .mul 0 2]
  source := none
  nodes_ne_nil := List.cons_ne_nil _ _
  operandsBefore := by simp [OperandsBefore, Node.operands]

/-- A free name hides the constant of this name, and leaves the function alone. -/
theorem call_shadowing :
    ∃ closure, empty.bind shadowingExpr .builtins ["abs", "e"] = .ok closure ∧
      empty.call closure [-2.0, 3.0] = .ok 6.0 ∧
      (shadowingExpr.substitute [("abs", -2.0), ("e", 3.0)]).evaluate (empty.scope .builtins) =
        (.ok 6.0 : Except Fault Float) ∧
      shadowingExpr.evaluate
        ((empty.perform (empty.constantCalls [("abs", -2.0), ("e", 3.0)])).scope
          (.chain (.table 0) .builtins)) = (.ok 6.0 : Except Fault Float) ∧
      (∃ permuted, empty.bind shadowingExpr .builtins ["e", "abs"] = .ok permuted ∧
        empty.call permuted [3.0, -2.0] = .ok 6.0) ∧
      empty.call closure [3.0] = .error (.closureCount closure.text 2 1) := by
  have hbind : empty.bind shadowingExpr .builtins ["abs", "e"] =
      .ok ⟨shadowingExpr, .builtins, ["abs", "e"]⟩ :=
    Closure.bind_eq_ok_iff.mpr ⟨by decide, by decide +kernel, rfl⟩
  have hcall : empty.call ⟨shadowingExpr, .builtins, ["abs", "e"]⟩ [-2.0, 3.0] = .ok 6.0 := by
    decide +kernel
  have hbuiltins : empty.Holds .builtins := trivial
  obtain ⟨hsubstitute, -, hconstants, -, -, hpermuted, -, hcount⟩ :=
    call_is_substitution hbind (show [-2.0, 3.0].length = 2 from rfl)
  obtain ⟨permuted, hother, hsame⟩ := hpermuted ["e", "abs"] [3.0, -2.0] rfl (.swap _ _ _)
  exact ⟨_, hbind, hcall, hsubstitute.symm.trans hcall,
    (hconstants closed_empty hbuiltins).symm.trans hcall, ⟨permuted, hother, hsame.trans hcall⟩,
    hcount [3.0] (by decide)⟩

end Store

end Reckon
