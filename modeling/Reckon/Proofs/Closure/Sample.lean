import Mathlib
import Reckon.Proofs.Expr.Failure
import Reckon.Proofs.Grid
import Reckon.Proofs.Scope.Builtin

/-
Sampling a closure over arrays against calling it on numbers.  At every index both do the same,
and if one of them fails, it does so for all numbers and all arrays.
-/

namespace Reckon

section Layers

variable {κ V W : Type} {related : V → W → Prop} {values : List V} {others : List W}

theorem Bindings.lookup_zip_related (names : List String)
    (hvalues : List.Forall₂ related values others) (name : String) :
    Option.Rel related (lookup name (names.zip values)) (lookup name (names.zip others)) := by
  induction hvalues generalizing names with
  | nil =>
      rw [List.zip_nil_right, List.zip_nil_right]
      exact .none
  | cons hvalue _ ih =>
      cases names with
      | nil => exact .none
      | cons first rest =>
          rw [List.zip_cons_cons, List.zip_cons_cons, lookup, lookup]
          by_cases hname : first = name
          · rw [if_pos hname, if_pos hname]
            exact .some hvalue
          · rw [if_neg hname, if_neg hname]
            exact ih rest

variable [Elementwise V] [Elementwise W] {first : Scope V} {second : Scope W}

theorem Elementwise.compatible_true :
    Elementwise.Compatible fun (_ : V) (_ : W) => True where
  const _ := trivial
  map _ _ _ _ := trivial
  map₂ _ _ _ _ _ _ _ := trivial

/-- Related values in front of related scopes hide the same names. -/
theorem Scope.Related.free (hscopes : first.Related related second) (names : List String)
    (hvalues : List.Forall₂ related values others) :
    (Scope.chain (.free (names.zip values)) first).Related related
      (.chain (.free (names.zip others)) second) where
  value name := by
    rw [value?_chain, value?_chain]
    exact rel_or (Bindings.lookup_zip_related names hvalues name) (hscopes.value name)
  function := hscopes.function
  call := hscopes.call

namespace Closure

variable {closure : Closure κ}

theorem layered_related (hscopes : first.Related related second)
    (hvalues : List.Forall₂ related values others) :
    Agree (Scope.Related related) (closure.layered first values)
      (closure.layered second others) := by
  rw [layered, layered, hvalues.length_eq]
  by_cases hlength : others.length = closure.arity
  · rw [if_pos hlength, if_pos hlength]
    by_cases hnames : closure.names = []
    · rw [if_pos hnames, if_pos hnames]
      exact hscopes
    · rw [if_neg hnames, if_neg hnames]
      exact hscopes.free closure.names hvalues
  · rw [if_neg hlength, if_neg hlength]
    exact rfl

/-- The free variables hide no functions, so that calls fail as they do in the scope alone. -/
theorem exists_layered (hscope : first.Explains) (hlength : values.length = closure.arity) :
    ∃ layered, closure.layered first values = .ok layered ∧ layered.Explains := by
  rw [layered, if_pos hlength]
  refine ⟨_, rfl, ?_⟩
  split
  · exact hscope
  · exact hscope

/-- Powers are related wherever a call of the closure comes to one. -/
def PowersRelated (related : V → W → Prop) (closure : Closure κ) (scope : Scope V)
    (values : List V) : Prop :=
  ∀ layered, closure.layered scope values = .ok layered →
    closure.expr.PowersRelated related layered

theorem call_agree (hcompatible : Elementwise.Compatible related)
    (hscopes : first.Related related second) (hvalues : List.Forall₂ related values others)
    (hpowers : closure.PowersRelated related first values) :
    Agree related (closure.call first values) (closure.call second others) := by
  apply (layered_related hscopes hvalues).bind
  intro scope other hscope _ hrelated
  exact Expr.evaluate_agree hcompatible hrelated (hpowers scope hscope)

/-- Whether a call fails, and how, does not depend on its arguments. -/
theorem call_error_iff (hscopes : first.Related (fun _ _ => True) second)
    (hlength : values.length = others.length) (fault : Fault) :
    closure.call first values = .error fault ↔ closure.call second others = .error fault := by
  have hvalues : List.Forall₂ (fun _ _ => True) values others :=
    List.forall₂_iff_get.mpr ⟨hlength, fun _ _ _ => trivial⟩
  have hpowers : closure.PowersRelated (fun (_ : V) (_ : W) => True) first values := by
    intro layered _ before node after slots _ _ left right base exponent x y _ _ _ _ _
    trivial
  have hagree := call_agree Elementwise.compatible_true hscopes hvalues hpowers
  exact hagree.error_iff fault

/-- With as many arguments as there are names a call fails with a diagnostic or not at all. -/
theorem isSome_diagnostic?_of_call_error (hfits : ∀ node ∈ closure.expr.nodes, node.Fits)
    (hscope : first.Explains) (hlength : values.length = closure.arity) {fault : Fault}
    (hfault : closure.call first values = .error fault) : fault.diagnostic?.isSome = true := by
  obtain ⟨layered, hlayered, hexplains⟩ := exists_layered hscope hlength
  rw [call, hlayered] at hfault
  exact Expr.isSome_diagnostic?_of_evaluate hfits hexplains hfault

end Closure

end Layers

variable {shape : Shape}

namespace Cells

/-- What is done place by place is done in each single place. -/
theorem compatible_get (i : Fin shape.cellCount) :
    Elementwise.Compatible fun (cells : Cells shape) x => cells.get i = x where
  const _ := rfl
  map f cells x hcells := by
    rw [← hcells]
    exact get_map f cells i
  map₂ f cells x others y hcells hothers := by
    rw [← hcells, ← hothers]
    exact get_map₂ f cells others i

/-- What has no place stays without one. -/
theorem compatible_same :
    Elementwise.Compatible fun (cells : Cells shape) x => cells = .same x where
  const _ := rfl
  map f cells x hcells := by
    rw [hcells]
    rfl
  map₂ f cells x others y hcells hothers := by
    rw [hcells, hothers]
    rfl

end Cells

/-- Wherever the evaluation comes to a power, every place gets the power of the numbers in it. -/
def Expr.PowersByPlace (expr : Expr) (scope : Scope (Cells shape)) : Prop :=
  ∀ before left right after values base exponent,
    expr.nodes = before ++ .binary .pow left right :: after →
    evaluateNodes scope #[] before = .ok values →
    slot values left = .ok base → slot values right = .ok exponent →
    ∀ i, (base.pow exponent).get i = power (base.get i) (exponent.get i)

theorem Expr.PowersByPlace.powersRelated {expr : Expr} {scope : Scope (Cells shape)}
    (hplaces : expr.PowersByPlace scope) (i : Fin shape.cellCount) :
    expr.PowersRelated (fun cells x => cells.get i = x) scope := by
  intro before node after values hnodes hvalues left right base exponent x y hnode hleft hright
    hbase hexponent
  subst hnode
  rw [← hbase, ← hexponent]
  exact hplaces before left right after values base exponent hnodes hvalues hleft hright i

/-- Powers of what has no place have none. -/
theorem Expr.powersRelated_same (expr : Expr) (scope : Scope (Cells shape)) :
    expr.PowersRelated (fun cells x => cells = .same x) scope := by
  intro before node after values _ _ left right base exponent x y _ _ _ hbase hexponent
  rw [hbase, hexponent]
  rfl

namespace Closure

variable {store : Store} {closure : Closure Ref} {grids : List Grid} {index : List Nat}

/-- Powers go place by place in a call over arrays. -/
def PowersByPlace (closure : Closure Ref) (scope : Scope (Cells shape))
    (values : List (Cells shape)) : Prop :=
  ∀ layered, closure.layered scope values = .ok layered → closure.expr.PowersByPlace layered

/-- In every place a call over arrays does what the call on the numbers of the place does. -/
theorem call_agree_at (hcontext : store.HoldsBuiltins closure.context)
    (hplaces : shape = [] ∨ closure.PowersByPlace (store.scope closure.context)
      (grids.map fun grid => grid.stretch shape))
    (hindex : shape.Holds index) :
    Agree (fun cells value => cells.get ⟨shape.offset index, Shape.offset_lt hindex⟩ = value)
      (closure.call (store.scope closure.context) (grids.map fun grid => grid.stretch shape))
      (store.call closure (grids.map fun grid => grid.cellFor shape (shape.offset index))) := by
  rcases hplaces with rfl | hplaces
  · have hvalues : List.Forall₂ (fun (cells : Cells []) x => cells = .same x)
        (grids.map fun grid => grid.stretch [])
        (grids.map fun grid => grid.cellFor [] (Shape.offset [] index)) := by
      rw [List.forall₂_map_left_iff, List.forall₂_map_right_iff, List.forall₂_same]
      intro grid _
      rfl
    have hagree := call_agree Cells.compatible_same
      (Store.scope_related hcontext Cells.compatible_same) hvalues
      fun layered _ => closure.expr.powersRelated_same layered
    apply hagree.mono
    intro cells value hcells
    rw [hcells, Cells.get_same]
  · have hvalues : List.Forall₂
        (fun cells value => cells.get ⟨shape.offset index, Shape.offset_lt hindex⟩ = value)
        (grids.map fun grid => grid.stretch shape)
        (grids.map fun grid => grid.cellFor shape (shape.offset index)) := by
      rw [List.forall₂_map_left_iff, List.forall₂_map_right_iff, List.forall₂_same]
      intro grid _
      exact grid.get_stretch _
    have hcompatible := Cells.compatible_get ⟨shape.offset index, Shape.offset_lt hindex⟩
    exact call_agree hcompatible (Store.scope_related hcontext hcompatible) hvalues
      fun layered hlayered => (hplaces layered hlayered).powersRelated _

theorem fields_of_bind {before : Store} {expr : Expr} {context : Ref} {names : List String}
    (hbind : before.bind expr context names = .ok closure) :
    closure.expr = expr ∧ closure.context = context ∧ closure.names = names := by
  rw [Store.bind, bind] at hbind
  split at hbind
  · cases hbind
  · split at hbind
    · cases hbind
    · cases hbind
      exact ⟨rfl, rfl, rfl⟩

variable {κ : Type} {scopeOf : (shape : Shape) → Scope (Cells shape)}

theorem sample_eq_fault_iff {closure : Closure κ}
    (hshape : Shape.common? (grids.map Grid.shape) = some shape) (fault : Fault) :
    closure.sample scopeOf grids = .error (.fault fault) ↔
      closure.call (scopeOf shape) (grids.map fun grid => grid.stretch shape) =
        .error fault := by
  simp only [sample, hshape]
  cases closure.call (scopeOf shape) (grids.map fun grid => grid.stretch shape) <;> simp

theorem exists_fault_of_sample {closure : Closure κ} {error : SampleError}
    (hshape : Shape.common? (grids.map Grid.shape) = some shape)
    (herror : closure.sample scopeOf grids = .error error) : ∃ fault, error = .fault fault := by
  simp only [sample, hshape] at herror
  split at herror
  · cases herror
  · rename_i fault _
    cases herror
    exact ⟨fault, rfl⟩

theorem exists_cells_of_sample {closure : Closure κ} {result : Grid}
    (hshape : Shape.common? (grids.map Grid.shape) = some shape)
    (hresult : closure.sample scopeOf grids = .ok result) :
    ∃ cells, closure.call (scopeOf shape) (grids.map fun grid => grid.stretch shape) = .ok cells ∧
      result = Grid.ofCells cells := by
  simp only [sample, hshape] at hresult
  split at hresult
  · rename_i cells hcells
    cases hresult
    exact ⟨cells, hcells, rfl⟩
  · cases hresult

/-- The number at an index of the result is the value of the call on the numbers that the arrays
have there when they are stretched. -/
theorem exists_value_of_sample {result : Grid} (hcontext : store.HoldsBuiltins closure.context)
    (hshape : Shape.common? (grids.map Grid.shape) = some shape)
    (hresult : closure.sample (fun _ => store.scope closure.context) grids = .ok result)
    (hplaces : shape = [] ∨ closure.PowersByPlace (store.scope closure.context)
      (grids.map fun grid => grid.stretch shape))
    (hindex : shape.Holds index) :
    ∃ args value,
      grids.map (fun grid => grid.get? (grid.shape.sourceIndex index)) = args.map some ∧
      store.call closure args = .ok value ∧ result.get? index = some value := by
  obtain ⟨cells, hcells, rfl⟩ := exists_cells_of_sample hshape hresult
  have hagree := call_agree_at hcontext hplaces hindex
  rw [hcells] at hagree
  obtain ⟨value, hvalue, hplace⟩ := hagree.exists_of_ok
  refine ⟨_, value, ?_, hvalue, ?_⟩
  · rw [List.map_map]
    apply List.map_congr_left
    intro grid hgrid
    have hstretches := Shape.stretchesReversed_of_common? hshape grid.shape
      (List.mem_map_of_mem hgrid)
    exact grid.cellFor_offset hstretches hindex
  · rw [Grid.get?_ofCells cells hindex, hplace]

/-- Sampling a bound expression over arrays against calling it, where the context may have changed
since the binding.  An error is one that has a diagnostic, and it comes with the call on all numbers
or on none.  Otherwise the result has the common shape of the arrays, and at each index the value
of the call on the numbers that the arrays have there when they are stretched.  For powers this
needs that they go place by place.  Over no arrays the result is a single number. -/
theorem sample_agrees_with_call {source : String} {expr : Expr} {before : Store} {context : Ref}
    {names : List String} (hparse : parse source = .ok expr)
    (hcontext : store.HoldsBuiltins context)
    (hbind : before.bind expr context names = .ok closure)
    (hcount : grids.length = names.length)
    (hshape : Shape.common? (grids.map Grid.shape) = some shape) :
    (∀ error, closure.sample (fun _ => store.scope context) grids = .error error →
      ∃ fault diagnostic, error = .fault fault ∧ fault.diagnostic? = some diagnostic) ∧
    (∀ fault args, args.length = names.length →
      (closure.sample (fun _ => store.scope context) grids = .error (.fault fault) ↔
        store.call closure args = .error fault)) ∧
    (∀ result, closure.sample (fun _ => store.scope context) grids = .ok result →
      result.shape = shape ∧
      (shape = [] ∨ closure.PowersByPlace (store.scope context)
        (grids.map fun grid => grid.stretch shape) →
        ∀ index, shape.Holds index → ∃ args value,
          grids.map (fun grid => grid.get? (grid.shape.sourceIndex index)) = args.map some ∧
          store.call closure args = .ok value ∧ result.get? index = some value)) ∧
    (names = [] → shape = [] ∧
      ∀ result, closure.sample (fun _ => store.scope context) grids = .ok result →
        ∃ value, store.call closure [] = .ok value ∧ result.get? [] = some value) := by
  obtain ⟨rfl, rfl, rfl⟩ := fields_of_bind hbind
  refine ⟨?_, ?_, ?_, ?_⟩
  · intro error herror
    obtain ⟨fault, rfl⟩ := exists_fault_of_sample hshape herror
    have hfault := (sample_eq_fault_iff hshape fault).mp herror
    have hscope : (store.scope closure.context : Scope (Cells shape)).Explains :=
      fun _ _ _ => Store.isSome_diagnostic?_of_call hcontext
    have hlength : (grids.map fun grid => grid.stretch shape).length = closure.arity := by
      rw [List.length_map, hcount, arity]
    have hsome := isSome_diagnostic?_of_call_error (Expr.fits_of_parse hparse) hscope hlength hfault
    obtain ⟨diagnostic, hdiagnostic⟩ := Option.isSome_iff_exists.mp hsome
    exact ⟨fault, diagnostic, rfl, hdiagnostic⟩
  · intro fault args hargs
    rw [sample_eq_fault_iff hshape]
    have hlength : (grids.map fun grid => grid.stretch shape).length = args.length := by
      rw [List.length_map, hcount, hargs]
    exact call_error_iff (Store.scope_related hcontext Elementwise.compatible_true) hlength fault
  · intro result hresult
    refine ⟨?_, fun hplaces index hindex =>
      exists_value_of_sample hcontext hshape hresult hplaces hindex⟩
    obtain ⟨cells, _, rfl⟩ := exists_cells_of_sample hshape hresult
    rfl
  · intro hnames
    have hgrids : grids = [] := List.length_eq_zero_iff.mp (by rw [hcount, hnames]; rfl)
    subst hgrids
    obtain rfl : [] = shape := Option.some.inj hshape
    refine ⟨rfl, fun result hresult => ?_⟩
    have hindex : Shape.Holds [] [] := .nil
    obtain ⟨args, value, hargs, hvalue, hget⟩ :=
      exists_value_of_sample hcontext hshape hresult (.inl rfl) hindex
    obtain rfl : args = [] := List.map_eq_nil_iff.mp hargs.symm
    exact ⟨value, hvalue, hget⟩

/-- The closure of `x^y` over both of its variables, in a table that starts with the catalog. -/
def powerClosure : Closure Ref :=
  ⟨(Tree.binary .pow (.var "x") (.var "y")).toExpr (some "x^y"), .table 0, ["x", "y"]⟩

def powerStore : Store := ⟨#[Store.catalogTable]⟩

/-- Two bases in a row and one exponent. -/
def powerGrids : List Grid := [⟨[2], #v[2.0, 3.0]⟩, ⟨[], #v[0.5]⟩]

theorem powersByPlace_powerClosure :
    powerClosure.PowersByPlace (powerStore.scope (.table 0))
      (powerGrids.map fun grid => grid.stretch [2]) := by
  intro layered hlayered before left right after values base exponent hnodes hvalues hleft hright i
  cases hlayered
  have hbefore : before = [.var "x", .var "y"] ∧ left = 0 ∧ right = 1 := by
    change [Node.var "x", .var "y", .binary .pow 0 1] = _ at hnodes
    rcases before with _ | ⟨first, _ | ⟨second, _ | ⟨third, before⟩⟩⟩ <;> simp_all
  obtain ⟨rfl, rfl, rfl⟩ := hbefore
  cases hvalues
  cases hleft
  cases hright
  -- The exponent stays the same from place to place.
  exact Cells.get_pow_of_shares rfl i

theorem sample_powerClosure :
    ∃ result value,
      powerClosure.sample (fun _ => powerStore.scope (.table 0)) powerGrids = .ok result ∧
      result.shape = [2] ∧ powerStore.call powerClosure [3.0, 0.5] = .ok value ∧
      result.get? [1] = some value := by
  have hparse : parse "x^y" = .ok powerClosure.expr := by cbv
  have hcontext : powerStore.HoldsBuiltins (.table 0) :=
    fun _ _ => Store.isBuiltin_of_catalogTable
  have hbind : powerStore.bind powerClosure.expr (.table 0) ["x", "y"] = .ok powerClosure := by
    have hrepeated : repeatedNames ["x", "y"] = [] := by decide +kernel
    have hvariables : powerClosure.expr.variableNames = ["x", "y"] := by decide +kernel
    simp only [Store.bind, bind, hrepeated, hvariables]
    rfl
  have hshape : Shape.common? (powerGrids.map Grid.shape) = some [2] := rfl
  obtain ⟨herror, hfault, hresult, _⟩ :=
    sample_agrees_with_call hparse hcontext hbind rfl hshape
  obtain ⟨value, hvalue⟩ : ∃ value, powerStore.call powerClosure [3.0, 0.5] = .ok value :=
    ⟨_, rfl⟩
  have hread : powerGrids.map (fun grid => grid.get? (grid.shape.sourceIndex [1])) =
      [some 3.0, some 0.5] := rfl
  cases hsample : powerClosure.sample (fun _ => powerStore.scope (.table 0)) powerGrids with
  | error error =>
      obtain ⟨fault, _, rfl, _⟩ := herror error hsample
      have hfails := (hfault fault [3.0, 0.5] rfl).mp hsample
      rw [hvalue] at hfails
      cases hfails
  | ok result =>
      obtain ⟨hshape, hplaces⟩ := hresult result hsample
      obtain ⟨args, other, hargs, hother, hget⟩ :=
        hplaces (.inr powersByPlace_powerClosure) [1] (by decide)
      rw [hread] at hargs
      obtain rfl : [3.0, 0.5] = args :=
        List.map_injective_iff.mpr (Option.some_injective _) hargs
      exact ⟨result, other, rfl, hshape, hother, hget⟩

end Closure

end Reckon
