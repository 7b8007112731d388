import Reckon.Proofs.Closure.Substitution
import Reckon.Proofs.Expr.FreeVariables

/-
What binding checks.  It finds the first variable that means nothing, and what it has let pass stays
bound as long as no name is removed.  A call then misses a variable only if a function does that it
calls.  None does in a store where every body is bound in its own context and no function from
outside says so by itself.
-/

namespace Reckon

section

variable {p : String → Bool} {name : String}

/-- Repetitions do not matter to what is found first. -/
theorem find?_eraseDups (names : List String) : names.eraseDups.find? p = names.find? p := by
  induction hlength : names.length using Nat.strong_induction_on generalizing names with
  | h length ih =>
      cases names with
      | nil => rfl
      | cons first rest =>
          subst hlength
          have hshorter :
              (rest.filter fun other => !other == first).length < (first :: rest).length :=
            Nat.lt_succ_of_le (List.length_filter_le _ rest)
          rw [List.eraseDups_cons, List.find?_cons, List.find?_cons, ih _ hshorter _ rfl,
            List.find?_filter]
          cases hfirst : p first with
          | true => rfl
          | false =>
              have hsame :
                  (fun other => decide ((!other == first) = true ∧ p other = true)) = p := by
                funext other
                by_cases hother : other = first <;> simp [hother, hfirst]
              rw [hsame]

namespace Expr

variable {expr : Expr}

/-- The first of the variables with a property, where its name stands first. -/
theorem find?_variableNames_eq_some_iff : expr.variableNames.find? p = some name ↔
    p name = true ∧ ∃ before after, expr.nodes = before ++ .var name :: after ∧
      ∀ other, .var other ∈ before → p other = false := by
  rw [variableNames, find?_eraseDups, List.find?_filterMap, Option.bind_eq_some_iff]
  constructor
  · rintro ⟨node, hfind, hname⟩
    obtain ⟨hnode, before, after, hnodes, hbefore⟩ := List.find?_eq_some_iff_append.mp hfind
    cases node with
    | var other =>
        cases hname
        refine ⟨hnode, before, after, hnodes, ?_⟩
        intro other hother
        have hearlier := hbefore _ hother
        simpa [Node.variableName?] using hearlier
    | literal _ | unary _ _ | binary _ _ _ | call _ _ | bare => cases hname
  · rintro ⟨hname, before, after, hnodes, hbefore⟩
    refine ⟨.var name, List.find?_eq_some_iff_append.mpr ⟨hname, before, after, hnodes, ?_⟩, rfl⟩
    intro node hnode
    cases node with
    | var other => simpa [Node.variableName?] using hbefore other hnode
    | literal _ | unary _ _ | binary _ _ _ | call _ _ | bare => rfl

end Expr

end

namespace Closure

variable {κ V : Type} [Elementwise V] {closure : Closure κ} {expr : Expr} {context : κ}
  {scope : Scope V} {defined : String → Bool} {names : List String} {values : List V}
  {name : String}

theorem bind_eq_unknownVariable_iff (hnames : names.Nodup) :
    bind expr context defined names = .error (.unknownVariable name) ↔
      (expr.variableNames.find? fun other => !names.contains other && !defined other) =
        some name := by
  rw [bind, if_neg (not_not.mpr (repeatedNames_eq_nil_iff.mpr hnames))]
  cases expr.variableNames.find? fun other => !names.contains other && !defined other <;> simp

/-- A call misses a variable of its expression that is not bound, or a function misses one. -/
theorem unknownVariable_cases
    (hfault : closure.call scope values = .error (.unknownVariable name)) :
    (name ∈ closure.expr.variableNames ∧ name ∉ closure.names ∧ scope.value? name = none) ∨
      ∃ function ∈ closure.expr.functionNames, scope.Raises function (.unknownVariable name) := by
  rw [call, layered] at hfault
  by_cases hlength : values.length = closure.arity
  · rw [if_pos hlength] at hfault
    change closure.expr.evaluate _ = _ at hfault
    split at hfault
    · rename_i hnone
      rw [hnone]
      exact (Expr.unknownVariable_cases hfault).imp_left
        fun hvariable => ⟨hvariable.1, List.not_mem_nil, hvariable.2⟩
    · rcases Expr.unknownVariable_cases hfault with ⟨hname, hvalue⟩ | hraises
      · rw [Scope.value?_chain, Option.or_eq_none_iff] at hvalue
        have hfree := Bindings.not_mem_of_lookup hvalue.1
        rw [List.map_fst_zip (Nat.le_of_eq hlength.symm)] at hfree
        exact .inl ⟨hname, hfree, hvalue.2⟩
      · exact .inr hraises
  · rw [if_neg hlength] at hfault
    cases hfault

end Closure

namespace Store

variable {V : Type} [Elementwise V] [Callable.Carrier V] {store after : Store} {context : Ref}
  {recipe : Recipe} {name : String} {action : Action} {actions : List Action}

theorem bind_eq_unknownVariable_iff {expr : Expr} {names : List String} (hnames : names.Nodup) :
    store.bind expr context names = .error (.unknownVariable name) ↔
      ∃ before, expr.FirstUnbound (store.scope context : Scope Float) names before name := by
  rw [bind, Closure.bind_eq_unknownVariable_iff hnames, Expr.find?_variableNames_eq_some_iff]
  simp only [defined, Bool.and_eq_true, Bool.not_eq_true', List.contains_eq_mem,
    decide_eq_false_iff_not, Option.isSome_eq_false_iff, Option.isNone_iff_eq_none,
    Bool.and_eq_false_iff, Bool.not_eq_false', decide_eq_true_eq]
  constructor
  · rintro ⟨⟨hname, hunknown⟩, before, after, hnodes, hbefore⟩
    exact ⟨before, ⟨⟨after, hnodes⟩, hname, hunknown, hbefore⟩⟩
  · rintro ⟨before, ⟨after, hnodes⟩, hname, hunknown, hbefore⟩
    exact ⟨⟨hname, hunknown⟩, before, after, hnodes, hbefore⟩

/-- Binding distinct names fails exactly if some variable is neither one of them nor defined. -/
theorem exists_bind_eq_unknownVariable_iff {expr : Expr} {names : List String}
    (hnames : names.Nodup) :
    (∃ name, store.bind expr context names = .error (.unknownVariable name)) ↔
      ∃ name ∈ expr.variableNames, name ∉ names ∧
        (store.scope context : Scope Float).value? name = none := by
  simp only [bind, Closure.bind_eq_unknownVariable_iff hnames, ← Option.isSome_iff_exists,
    List.find?_isSome, defined, Bool.and_eq_true, Bool.not_eq_true', List.contains_eq_mem,
    decide_eq_false_iff_not, Option.isSome_eq_false_iff, Option.isNone_iff_eq_none]

/-- A defined constant stays defined under a change that does not remove it. -/
theorem isSome_get?_after {table : Table Recipe} {request : Change}
    (hrequest : request ≠ .without name) (hdefined : (table.constants.get? name).isSome = true) :
    ((table.after request).constants.get? name).isSome = true := by
  by_cases hdefines : ∃ x, Change.DefinesConstant name request x
  · obtain ⟨x, hx⟩ := hdefines
    rw [(follows_constant name).defined table request x hx]
    rfl
  · rw [(follows_constant name).kept table request hrequest (not_exists.mp hdefines)]
    exact hdefined

theorem isSome_get?_foldl {table : Table Recipe} {requests : List Change}
    (hrequests : .without name ∉ requests)
    (hdefined : (table.constants.get? name).isSome = true) :
    ((requests.foldl Table.after table).constants.get? name).isSome = true := by
  induction requests generalizing table with
  | nil => exact hdefined
  | cons request rest ih =>
      obtain ⟨hrequest, hrest⟩ := not_or.mp (List.mem_cons.not.mp hrequests)
      exact ih hrest (isSome_get?_after (Ne.symm hrequest) hdefined)

/-- A variable that is defined in a context stays so as long as it is not removed from one of the
contexts it is made of. -/
theorem defined_perform
    (hkept : ∀ handle, .table handle ∈ context.leaves → .without name ∉ callsOn handle actions)
    (hdefined : store.defined context name = true) :
    (store.perform actions).defined context name = true := by
  simp only [defined] at hdefined ⊢
  induction context with
  | builtins => exact hdefined
  | table handle =>
      rw [value?_table] at hdefined ⊢
      by_cases hhandle : handle < store.tables.size
      · rw [table_perform hhandle]
        exact isSome_get?_foldl (hkept handle (List.mem_singleton_self _)) hdefined
      · rw [table_of_size_le (Nat.le_of_not_lt hhandle)] at hdefined
        cases hdefined
  | chain outer inner ihOuter ihInner =>
      rw [value?_scope_chain, Option.isSome_or, Bool.or_eq_true] at hdefined ⊢
      exact hdefined.imp
        (ihOuter fun handle hleaf => hkept handle (List.mem_append_left _ hleaf))
        (ihInner fun handle hleaf => hkept handle (List.mem_append_right _ hleaf))

/-- The function misses no variable.  Those of a body are free or defined in its context now, and a
function from outside never says of numbers that a variable is unknown. -/
def Covers (store : Store) : Recipe → Prop
  | .builtin _ => True
  | .outside callable => ∀ args name, callable.onNumbers args ≠ .error (.unknownVariable name)
  | .body closure => ∀ name ∈ closure.expr.variableNames,
      name ∈ closure.names ∨ store.defined closure.context name = true

/-- No function of the store misses a variable. -/
def Covered (store : Store) : Prop :=
  ∀ handle name function, (store.table handle).functions.get? name = some function →
    store.Covers function.implementation

/-- The call removes nothing, and the function that it defines, if any, misses no variable. -/
def Builds (store : Store) : Action → Prop
  | .create _ => True
  | .change _ (.constant _ _) => True
  | .change _ (.function _ _ _ recipe _) => store.Covers recipe
  | .change _ (.without _) => False

/-- Calls that all build on what the store holds when they are made. -/
def BuildsAll (store : Store) : List Action → Prop
  | [] => True
  | action :: rest => store.Builds action ∧ (store.act action).BuildsAll rest

theorem without_not_mem_callsOn (hbuilds : store.BuildsAll actions) (handle : Nat)
    (name : String) : .without name ∉ callsOn handle actions := by
  induction actions generalizing store with
  | nil => exact List.not_mem_nil
  | cons action rest ih =>
      have hrest := ih hbuilds.2
      cases action with
      | create catalog => exact hrest
      | change other request =>
          rw [callsOn]
          split
          · refine List.not_mem_cons_of_ne_of_not_mem ?_ hrest
            rintro rfl
            exact hbuilds.1
          · exact hrest

theorem defined_of_buildsAll (hbuilds : store.BuildsAll actions)
    (hdefined : store.defined context name = true) :
    (store.perform actions).defined context name = true :=
  defined_perform (fun handle _ => without_not_mem_callsOn hbuilds handle name) hdefined

theorem Covers.perform (hrecipe : store.Covers recipe) (hbuilds : store.BuildsAll actions) :
    (store.perform actions).Covers recipe := by
  cases recipe with
  | body closure =>
      exact fun name hname => (hrecipe name hname).imp_right (defined_of_buildsAll hbuilds)
  | builtin meaning => trivial
  | outside callable => exact hrecipe

theorem covers_catalogTable (store : Store) {function : Function Recipe}
    (hfunction : catalogTable.functions.get? name = some function) :
    store.Covers function.implementation := by
  rw [catalogTable, Table.ofCatalog, Bindings.get?_map, Option.map_eq_some_iff] at hfunction
  obtain ⟨builtin, -, rfl⟩ := hfunction
  trivial

theorem covered_empty : Store.empty.Covered := by
  intro handle name function hfunction
  rw [table_of_size_le (Nat.zero_le handle)] at hfunction
  cases hfunction

/-- A function that is there after a change was defined by it or was there before. -/
theorem get?_after_cases {table : Table Recipe} {request : Change} {function : Function Recipe}
    (hfunction : (table.after request).functions.get? name = some function) :
    request.DefinesFunction name function ∨ table.functions.get? name = some function := by
  by_cases hdefines : ∃ found, Change.DefinesFunction name request found
  · obtain ⟨found, hfound⟩ := hdefines
    rw [(follows_function name).defined table request found hfound] at hfunction
    cases hfunction
    exact .inl hfound
  · by_cases hrequest : request = .without name
    · rw [hrequest, (follows_function name).dropped table] at hfunction
      cases hfunction
    · rw [(follows_function name).kept table request hrequest (not_exists.mp hdefines)] at hfunction
      exact .inr hfunction

theorem Builds.covers_of_definesFunction {handle : Nat} {request : Change}
    {function : Function Recipe} (hbuilds : store.Builds (.change handle request))
    (hdefines : request.DefinesFunction name function) :
    store.Covers function.implementation := by
  cases hdefines with
  | function minimum variadic recipe doc => exact hbuilds

/-- A function that is there after a call that builds is one that missed no variable before. -/
theorem Covered.covers_act (hstore : store.Covered) (hbuilds : store.Builds action) {handle : Nat}
    {function : Function Recipe}
    (hfunction : ((store.act action).table handle).functions.get? name = some function) :
    store.Covers function.implementation := by
  by_cases hhandle : handle < (store.act action).tables.size
  · cases action with
    | create catalog =>
        rw [size_act_create, Nat.lt_succ_iff_lt_or_eq] at hhandle
        rcases hhandle with hlt | rfl
        · rw [Store.act, table_add_of_lt hlt] at hfunction
          exact hstore handle name function hfunction
        · rw [Store.act, table_add_size, startTable] at hfunction
          cases catalog with
          | true => exact store.covers_catalogTable hfunction
          | false => cases hfunction
    | change other request =>
        rw [size_act_change] at hhandle
        by_cases hother : handle = other
        · subst hother
          rw [table_act_change hhandle] at hfunction
          rcases get?_after_cases hfunction with hdefines | hfound
          · exact hbuilds.covers_of_definesFunction hdefines
          · exact hstore handle name function hfound
        · rw [table_act_change_of_ne hother] at hfunction
          exact hstore handle name function hfunction
  · rw [table_of_size_le (Nat.le_of_not_lt hhandle)] at hfunction
    cases hfunction

theorem Covered.act (hstore : store.Covered) (hbuilds : store.Builds action) :
    (store.act action).Covered := by
  intro handle name function hfunction
  have hall : store.BuildsAll [action] := ⟨hbuilds, trivial⟩
  exact (hstore.covers_act hbuilds hfunction).perform hall

theorem Covered.perform (hstore : store.Covered) (hbuilds : store.BuildsAll actions) :
    (store.perform actions).Covered := by
  induction actions generalizing store with
  | nil => exact hstore
  | cons action rest ih => exact ih (hstore.act hbuilds.1) hbuilds.2

/-- Variables do not depend on how functions are carried out. -/
theorem value?_scopeWith (store : Store) (implement : Recipe → Implementation V) (context : Ref)
    (name : String) : (store.scopeWith implement context).value? name =
      (store.scope context : Scope V).value? name := by
  induction context with
  | builtins => rfl
  | table handle => rfl
  | chain outer inner ihOuter ihInner =>
      rw [scopeWith, Scope.value?_chain, ihOuter, ihInner, ← value?_scope_chain]

omit [Callable.Carrier V] in
/-- A function of a context is one of the catalog, or a stored one that is carried out. -/
theorem Covered.function?_cases (hstore : store.Covered) {implement : Recipe → Implementation V}
    {function : Function (Implementation V)}
    (hfunction : (store.scopeWith implement context).function? name = some function) :
    (∃ meaning : Meaning, function.implementation = meaning.apply) ∨
      ∃ recipe, store.Covers recipe ∧ function.implementation = implement recipe := by
  induction context with
  | builtins =>
      rw [scopeWith, Scope.function?, Option.map_eq_some_iff] at hfunction
      obtain ⟨builtin, -, rfl⟩ := hfunction
      exact .inl ⟨builtin.meaning, rfl⟩
  | table handle =>
      change ((store.table handle).functions.map _).get? name = _ at hfunction
      rw [Bindings.get?_map, Option.map_eq_some_iff] at hfunction
      obtain ⟨stored, hstored, rfl⟩ := hfunction
      exact .inr ⟨stored.implementation, hstore handle name stored hstored, rfl⟩
  | chain outer inner ihOuter ihInner =>
      rw [scopeWith, Scope.function?_chain, Option.or_eq_some_iff] at hfunction
      exact hfunction.elim ihOuter fun hinner => ihInner hinner.2

end Store

theorem Meaning.apply_ne_unknownVariable {V : Type} [Elementwise V] (meaning : Meaning)
    (args : List V) (name : String) : meaning.apply args ≠ .error (.unknownVariable name) := by
  rw [apply.eq_def]
  split <;> simp

namespace Store

variable {store : Store} {context : Ref} {recipe : Recipe}
  {name : String} {actions : List Action} {expr : Expr} {names : List String}
  {closure : Closure Ref}

/-- Where no function misses a variable of its own, none does so by its calls, however deep they
are. -/
theorem Covered.implement_ne_unknownVariable (hstore : store.Covered) (depth : Nat)
    (hrecipe : store.Covers recipe) (args : List Float) (name : String) :
    store.implement depth recipe args ≠ .error (.unknownVariable name) := by
  -- A body calls the functions of its context one level deeper.
  induction depth generalizing recipe args with
  | zero => exact fun hfault => nomatch hfault
  | succ depth ih =>
      cases recipe with
      | builtin meaning => exact meaning.apply_ne_unknownVariable args name
      | outside callable => exact hrecipe args name
      | body closure =>
          intro hfault
          rw [implement] at hfault
          rcases eq_error_or_of_bind_eq_error hfault with hcall | ⟨value, _, hsingle⟩
          · rcases Closure.unknownVariable_cases hcall with
              ⟨hname, hfree, hvalue⟩ | ⟨function, _, found, arguments, hfound, _, hraises⟩
            · rw [value?_scopeWith, value?_eq_map_const, Option.map_eq_none_iff] at hvalue
              have hdefined := (hrecipe name hname).resolve_left hfree
              rw [defined, hvalue] at hdefined
              cases hdefined
            · rcases hstore.function?_cases hfound with
                ⟨meaning, hmeaning⟩ | ⟨recipe, hcovers, himplementation⟩
              · rw [hmeaning] at hraises
                exact meaning.apply_ne_unknownVariable arguments name hraises
              · rw [himplementation] at hraises
                exact ih hcovers arguments hraises
          · split at hsingle <;> cases hsingle

/-- A bound closure misses no variable. -/
theorem covers_of_bind (hbind : store.bind expr context names = .ok closure) :
    store.Covers (.body closure) := by
  obtain ⟨-, hall, rfl⟩ := Closure.bind_eq_ok_iff.mp hbind
  exact hall

/-- A call of what has been bound misses a variable only if a function does that it calls. -/
theorem raises_of_call (hbind : store.bind expr context names = .ok closure)
    (hkept : ∀ handle, .table handle ∈ context.leaves → ∀ other ∈ expr.variableNames,
      .without other ∉ callsOn handle actions) {values : List Float}
    (hfault : (store.perform actions).call closure values = .error (.unknownVariable name)) :
    ∃ function ∈ expr.functionNames,
      ((store.perform actions).scope context : Scope Float).Raises function
        (.unknownVariable name) := by
  obtain ⟨-, hall, rfl⟩ := Closure.bind_eq_ok_iff.mp hbind
  rcases Closure.unknownVariable_cases hfault with ⟨hname, hfree, hvalue⟩ | hraises
  · have hdefined := (hall name hname).resolve_left hfree
    have hlater := defined_perform (fun handle hleaf => hkept handle hleaf name hname) hdefined
    rw [defined, hvalue] at hlater
    cases hlater
  · exact hraises

/-- In a covered store, and as long as it is built upon, no call misses a variable. -/
theorem Covered.call_ne_unknownVariable (hstore : store.Covered)
    (hbind : store.bind expr context names = .ok closure) (hbuilds : store.BuildsAll actions)
    (values : List Float) (name : String) :
    (store.perform actions).call closure values ≠ .error (.unknownVariable name) := by
  intro hfault
  obtain ⟨function, _, found, args, hfound, _, hraises⟩ := raises_of_call hbind
    (fun handle _ other _ => without_not_mem_callsOn hbuilds handle other) hfault
  have hlater := hstore.perform hbuilds
  rcases hlater.function?_cases hfound with ⟨meaning, hmeaning⟩ | ⟨recipe, hcovers, himplement⟩
  · rw [hmeaning] at hraises
    exact meaning.apply_ne_unknownVariable args name hraises
  · rw [himplement] at hraises
    exact hlater.implement_ne_unknownVariable _ hcovers args name hraises

/-- Binding finds the variables that mean nothing.  It fails exactly if some variable is neither
among the names nor defined, and it says which is the first; there an evaluation with values for the
names in front of the context fails too, unless it fails before at a node that is no variable.
What has been bound misses no variable later, while none of its own is removed from the contexts it
is bound to, but for one that a function misses which it calls.  In a store where no body has lost a
variable and no function from outside says that one is unknown, none does, as long as nothing is
removed and only such functions are defined; what has been bound is one of them. -/
theorem bind_checks_variables (store : Store) (expr : Expr) (context : Ref)
    (hnames : names.Nodup) :
    ((∃ name, store.bind expr context names = .error (.unknownVariable name)) ↔
      ∃ name ∈ expr.variableNames, name ∉ names ∧
        (store.scope context : Scope Float).value? name = none) ∧
    (∀ name, store.bind expr context names = .error (.unknownVariable name) ↔
      ∃ before, expr.FirstUnbound (store.scope context : Scope Float) names before name) ∧
    (∀ name before, expr.FirstUnbound (store.scope context : Scope Float) names before name →
      ∀ values (layered : Scope Float), values.length = names.length →
        layered.Extends (store.scope context) (names.zip values) →
        expr.run layered = .error ⟨before.length, .unknownVariable name⟩ ∨
          ∃ position node fault, position < before.length ∧ expr.nodes[position]? = some node ∧
            node.variableName? = none ∧ expr.run layered = .error ⟨position, fault⟩) ∧
    ∀ closure, store.bind expr context names = .ok closure → ∀ actions,
      ((∀ handle, .table handle ∈ context.leaves → ∀ other ∈ expr.variableNames,
          .without other ∉ callsOn handle actions) →
        ∀ values name,
          (store.perform actions).call closure values = .error (.unknownVariable name) →
          ∃ function ∈ expr.functionNames,
            ((store.perform actions).scope context : Scope Float).Raises function
              (.unknownVariable name)) ∧
      (store.Covered → store.BuildsAll actions →
        (store.perform actions).Covered ∧ (store.perform actions).Covers (.body closure) ∧
          ∀ values name,
            (store.perform actions).call closure values ≠ .error (.unknownVariable name)) := by
  refine ⟨exists_bind_eq_unknownVariable_iff hnames, fun name => bind_eq_unknownVariable_iff hnames,
    ?_, ?_⟩
  · intro name before hfirst values layered hlength hextends
    have hzip := Closure.map_fst_zip hlength
    apply hfirst.run_eq
    · intro other hother
      rw [← hzip, List.mem_map] at hother
      obtain ⟨⟨_, x⟩, hentry, rfl⟩ := hother
      rw [hextends.value _ x hentry]
      rfl
    · intro other hother
      apply hextends.other
      rwa [hzip]
  · intro closure hbind actions
    refine ⟨fun hkept values name => raises_of_call hbind hkept, ?_⟩
    intro hstore hbuilds
    exact ⟨hstore.perform hbuilds, (covers_of_bind hbind).perform hbuilds,
      hstore.call_ne_unknownVariable hbind hbuilds⟩

/-- The expression `x + k`. -/
def plusK : Expr :=
  ⟨[.var "x", .var "k", .binary .add 0 1], none, by simp, by simp [OperandsBefore, Node.operands]⟩

/-- With `x` alone `k` is missed when it is bound and when it is evaluated; with both it never is,
whatever is defined later. -/
theorem bind_plusK :
    empty.bind plusK .builtins ["x"] = .error (.unknownVariable "k") ∧
    plusK.run (.chain (.free [("x", 2.0)]) .builtins : Scope Float) =
      .error ⟨1, .unknownVariable "k"⟩ ∧
    ∃ closure, empty.bind plusK .builtins ["k", "x"] = .ok closure ∧
      ∀ values name, (empty.perform [.create true]).call closure values ≠
        .error (.unknownVariable name) := by
  have hfirst : plusK.FirstUnbound (empty.scope .builtins : Scope Float) ["x"] [.var "x"] "k" :=
    ⟨⟨[.binary .add 0 1], rfl⟩, by decide, rfl, fun other hother => .inl (by simpa using hother)⟩
  have hextends : (.chain (.free [("x", 2.0)]) .builtins : Scope Float).Extends
      (empty.scope .builtins) (["x"].zip [2.0]) :=
    .chain (by decide) (fun _ => rfl) fun _ => rfl
  obtain ⟨-, hbind, hrun, -⟩ :=
    bind_checks_variables empty plusK .builtins (show ["x"].Nodup by decide)
  obtain ⟨-, -, -, hcalls⟩ :=
    bind_checks_variables empty plusK .builtins (show ["k", "x"].Nodup by decide)
  have hboth : empty.bind plusK .builtins ["k", "x"] = .ok ⟨plusK, .builtins, ["k", "x"]⟩ :=
    Closure.bind_eq_ok_iff.mpr ⟨by decide, by decide +kernel, rfl⟩
  refine ⟨(hbind "k").mpr ⟨_, hfirst⟩, ?_, _, hboth, ?_⟩
  · rcases hrun "k" _ hfirst [2.0] _ rfl hextends with
      hstop | ⟨position, node, fault, hposition, hnode, hvariable, -⟩
    · exact hstop
    · obtain rfl : position = 0 := Nat.lt_one_iff.mp hposition
      cases hnode
      cases hvariable
  · exact ((hcalls _ hboth [.create true]).2 covered_empty ⟨trivial, trivial⟩).2.2

/-- A context gets a function `f` whose body is bound to another context, which then loses the
constant of the body. -/
def staleCalls : List Action :=
  [.create false, .create false, .change 1 (.constant "k" (.float 1.0)),
    .change 0 (.function "f" 1 false (.body ⟨plusK, .table 1, ["x"]⟩) ""),
    .change 1 (.without "k")]

/-- A call may miss a variable although all have been found, because a function says so. -/
theorem unknownVariable_of_body :
    (empty.perform (staleCalls.take 3)).bind plusK (.table 1) ["x"] =
      .ok ⟨plusK, .table 1, ["x"]⟩ ∧
    (empty.perform staleCalls).bind Scope.callOfF (.table 0) ["x"] =
      .ok ⟨Scope.callOfF, .table 0, ["x"]⟩ ∧
    (empty.perform staleCalls).call ⟨Scope.callOfF, .table 0, ["x"]⟩ [1.0] =
      .error (.unknownVariable "k") := by
  refine ⟨?_, ?_, ?_⟩
  · exact Closure.bind_eq_ok_iff.mpr ⟨by decide, by decide +kernel, rfl⟩
  · exact Closure.bind_eq_ok_iff.mpr ⟨by decide, by decide +kernel, rfl⟩
  · decide +kernel

end Store

end Reckon
