import Reckon.Proofs.Decimal.Order
import Reckon.Proofs.Expr.TreeValue

/-
The largest and the smallest argument.  A fold that picks one of two numbers keeps one beyond which
no number lies, and a number rather than none.  So all that counts is which numbers there are among
the arguments, and calls in a call can be replaced by their arguments.
-/

namespace Reckon

/-- One of these numbers beyond which none of them lies, or no number if none of them is one. -/
structure IsExtremum (beyond : Float → Float → Prop) (xs : List Float) (value : Float) : Prop where
  isNaN_iff : value.isNaN = true ↔ ∀ x ∈ xs, x.isNaN = true
  mem : value.isNaN = false → value ∈ xs
  not_beyond : ∀ x ∈ xs, x.isNaN = false → ¬beyond x value

/-- Of two numbers at most one lies beyond the other, what lies beyond none stays so along a chain,
and if none does they are the same up to the sign of a zero. -/
structure Ranking (beyond : Float → Float → Prop) : Prop where
  asymm : ∀ x y, x.isNaN = false → y.isNaN = false → beyond x y → ¬beyond y x
  trans : ∀ x y z, x.isNaN = false → y.isNaN = false → z.isNaN = false →
    ¬beyond x y → ¬beyond y z → ¬beyond x z
  same : ∀ x y, x.isNaN = false → y.isNaN = false → ¬beyond x y → ¬beyond y x →
    SameUpToZero x y

/-- Of two numbers one is picked that the other does not lie beyond, and a number rather than
none. -/
structure Picks (beyond : Float → Float → Prop) (pick : Float → Float → Float) : Prop where
  left : ∀ x y, x.isNaN = true → pick x y = y
  right : ∀ x y, y.isNaN = true → pick x y = x
  either : ∀ x y, x.isNaN = false → y.isNaN = false →
    pick x y = x ∧ ¬beyond y x ∨ pick x y = y ∧ ¬beyond x y

/-- Some doubles stand for others: the numbers among them are some of the others, and none of those
lies beyond them all. -/
structure Tops (beyond : Float → Float → Prop) (xs ys : List Float) : Prop where
  nil : ys = [] → xs = []
  mem : ∀ x ∈ xs, x.isNaN = false → x ∈ ys
  exists_top : ∀ y ∈ ys, y.isNaN = false → ∃ x ∈ xs, x.isNaN = false ∧ ¬beyond y x

section

variable {beyond : Float → Float → Prop} {pick : Float → Float → Float}
  {xs ys zs : List Float} {x y value other : Float}

theorem Ranking.refl (hranking : Ranking beyond) (x : Float) (hx : x.isNaN = false) :
    ¬beyond x x :=
  fun hbeyond => hranking.asymm x x hx hx hbeyond hbeyond

theorem Ranking.flip (hranking : Ranking beyond) : Ranking fun x y => beyond y x where
  asymm x y hx hy := hranking.asymm y x hy hx
  trans x y z hx hy hz hxy hyz := hranking.trans z y x hz hy hx hyz hxy
  same x y hx hy hxy hyx := hranking.same x y hx hy hyx hxy

theorem ranking_lt : Ranking fun x y => x < y where
  asymm _ _ := not_lt_of_lt
  trans _ _ _ := not_lt_trans
  same _ _ := sameUpToZero_of_not_lt

/-- Taking the second number if it lies beyond the first picks one of them. -/
theorem Ranking.picks [DecidableRel beyond] (hranking : Ranking beyond)
    (hpick : ∀ x y, pick x y =
      if x.isNaN then y else if y.isNaN then x else if beyond y x then y else x) :
    Picks beyond pick where
  left x y hx := by rw [hpick, if_pos hx]
  right x y hy := by
    by_cases hx : x.isNaN = true
    · rw [hpick, if_pos hx, eq_of_isNaN hx hy]
    · rw [hpick, if_neg hx, if_pos hy]
  either x y hx hy := by
    rw [hpick, if_neg (Bool.eq_false_iff.mp hx), if_neg (Bool.eq_false_iff.mp hy)]
    by_cases hbeyond : beyond y x
    · exact .inr ⟨if_pos hbeyond, hranking.asymm y x hy hx hbeyond⟩
    · exact .inl ⟨if_neg hbeyond, hbeyond⟩

theorem picks_larger : Picks (fun x y => y < x) larger :=
  ranking_lt.flip.picks fun _ _ => rfl

theorem picks_smaller : Picks (fun x y => x < y) smaller :=
  ranking_lt.picks fun _ _ => rfl

namespace Tops

/-- Doubles stand for others in which there are the same numbers. -/
theorem of_same (hranking : Ranking beyond) (hnil : ys = [] → xs = [])
    (hsame : ∀ x, x.isNaN = false → (x ∈ xs ↔ x ∈ ys)) : Tops beyond xs ys where
  nil := hnil
  mem x hx hnumber := (hsame x hnumber).mp hx
  exists_top y hy hnumber := ⟨y, (hsame y hnumber).mpr hy, hnumber, hranking.refl y hnumber⟩

theorem refl (hranking : Ranking beyond) (xs : List Float) : Tops beyond xs xs :=
  of_same hranking id fun _ _ => Iff.rfl

theorem trans (hranking : Ranking beyond) (hxy : Tops beyond xs ys) (hyz : Tops beyond ys zs) :
    Tops beyond xs zs where
  nil hzs := hxy.nil (hyz.nil hzs)
  mem x hx hnumber := hyz.mem x (hxy.mem x hx hnumber) hnumber
  exists_top z hz hnumber := by
    obtain ⟨y, hy, hynumber, hzy⟩ := hyz.exists_top z hz hnumber
    obtain ⟨x, hx, hxnumber, hyx⟩ := hxy.exists_top y hy hynumber
    exact ⟨x, hx, hxnumber, hranking.trans z y x hnumber hynumber hxnumber hzy hyx⟩

theorem append {xs' ys' : List Float} (hfirst : Tops beyond xs ys) (hsecond : Tops beyond xs' ys') :
    Tops beyond (xs ++ xs') (ys ++ ys') where
  nil hnil := by
    obtain ⟨hys, hys'⟩ := List.append_eq_nil_iff.mp hnil
    rw [hfirst.nil hys, hsecond.nil hys']
    rfl
  mem x hx hnumber := by
    rcases List.mem_append.mp hx with hx | hx
    · exact List.mem_append_left _ (hfirst.mem x hx hnumber)
    · exact List.mem_append_right _ (hsecond.mem x hx hnumber)
  exists_top y hy hnumber := by
    rcases List.mem_append.mp hy with hy | hy
    · obtain ⟨x, hx, htop⟩ := hfirst.exists_top y hy hnumber
      exact ⟨x, List.mem_append_left _ hx, htop⟩
    · obtain ⟨x, hx, htop⟩ := hsecond.exists_top y hy hnumber
      exact ⟨x, List.mem_append_right _ hx, htop⟩

/-- One of the doubles stands for all if it is a number as soon as one of them is, and none of them
lies beyond it. -/
theorem single (hvalue : value ∈ xs)
    (htop : ∀ x ∈ xs, x.isNaN = false → value.isNaN = false ∧ ¬beyond x value) :
    Tops beyond [value] xs where
  nil hnil := by simp [hnil] at hvalue
  mem x hx _ := by rwa [List.mem_singleton.mp hx]
  exists_top x hx hnumber := ⟨value, List.mem_cons_self, htop x hx hnumber⟩

theorem pair (hvalue : value = x ∨ value = y)
    (hx : x.isNaN = false → value.isNaN = false ∧ ¬beyond x value)
    (hy : y.isNaN = false → value.isNaN = false ∧ ¬beyond y value) :
    Tops beyond [value] [x, y] :=
  single (List.mem_pair.mpr hvalue)
    (List.forall_mem_cons.mpr ⟨hx, List.forall_mem_singleton.mpr hy⟩)

/-- A double that stands for others is the extremum of them. -/
theorem isExtremum (htops : Tops beyond [value] xs) : IsExtremum beyond xs value where
  isNaN_iff := by
    constructor
    · intro hvalue x hx
      by_contra hnumber
      obtain ⟨top, htop, hnumber, -⟩ := htops.exists_top x hx (Bool.eq_false_iff.mpr hnumber)
      rw [List.mem_singleton.mp htop, hvalue] at hnumber
      cases hnumber
    · intro hall
      by_contra hnumber
      have hmem := htops.mem value List.mem_cons_self (Bool.eq_false_iff.mpr hnumber)
      exact hnumber (hall value hmem)
  mem := htops.mem value List.mem_cons_self
  not_beyond x hx hnumber := by
    obtain ⟨top, htop, -, hbeyond⟩ := htops.exists_top x hx hnumber
    rwa [List.mem_singleton.mp htop] at hbeyond

end Tops

/-- Up to the sign of a zero there is one extremum. -/
theorem IsExtremum.unique (hranking : Ranking beyond) (hvalue : IsExtremum beyond xs value)
    (hother : IsExtremum beyond xs other) : SameUpToZero value other := by
  have hboth : value.isNaN = true ↔ other.isNaN = true :=
    hvalue.isNaN_iff.trans hother.isNaN_iff.symm
  cases hnumber : value.isNaN with
  | true => exact .inl (eq_of_isNaN hnumber (hboth.mp hnumber))
  | false =>
      have hothers : other.isNaN = false := by
        rw [Bool.eq_false_iff, ne_eq, ← hboth, hnumber]
        exact Bool.false_ne_true
      exact hranking.same value other hnumber hothers
        (hother.not_beyond value (hvalue.mem hnumber) hnumber)
        (hvalue.not_beyond other (hother.mem hothers) hothers)

/-- What is picked stands for both. -/
theorem Picks.tops_pair (hpicks : Picks beyond pick) (hranking : Ranking beyond) (x y : Float) :
    Tops beyond [pick x y] [x, y] := by
  have hself : ∀ z, z.isNaN = false → z.isNaN = false ∧ ¬beyond z z :=
    fun z hz => ⟨hz, hranking.refl z hz⟩
  cases hx : x.isNaN with
  | true =>
      rw [hpicks.left x y hx]
      refine .pair (.inr rfl) (fun hnumber => ?_) (hself y)
      rw [hx] at hnumber
      cases hnumber
  | false =>
      cases hy : y.isNaN with
      | true =>
          rw [hpicks.right x y hy]
          refine .pair (.inl rfl) (hself x) fun hnumber => ?_
          rw [hy] at hnumber
          cases hnumber
      | false =>
          rcases hpicks.either x y hx hy with ⟨hpick, hbeyond⟩ | ⟨hpick, hbeyond⟩
          · rw [hpick]
            exact .pair (.inl rfl) (hself x) fun _ => ⟨hx, hbeyond⟩
          · rw [hpick]
            exact .pair (.inr rfl) (fun _ => ⟨hy, hbeyond⟩) (hself y)

/-- A fold keeps a double that stands for all that it has gone over. -/
theorem Picks.tops_foldl (hpicks : Picks beyond pick) (hranking : Ranking beyond) (x : Float)
    (xs : List Float) : Tops beyond [xs.foldl pick x] (x :: xs) := by
  induction xs generalizing x with
  | nil => exact .refl hranking [x]
  | cons y rest ih =>
      have hpair : Tops beyond (pick x y :: rest) (x :: y :: rest) :=
        (hpicks.tops_pair hranking x y).append (.refl hranking rest)
      exact (ih (pick x y)).trans hranking hpair

end

/-- A function yields, for any arguments, a double that stands for them, and fails without any. -/
structure Extremizes (beyond : Float → Float → Prop) (call : List Float → Except Fault Float) :
    Prop where
  exists_value : ∀ x xs, ∃ value, call (x :: xs) = .ok value ∧ Tops beyond [value] (x :: xs)
  nil : ∀ value, call [] ≠ .ok value

section

variable {beyond : Float → Float → Prop} {pick : Float → Float → Float}
  {call : List Float → Except Fault Float} {xs ys : List Float} {value other : Float}
  {name : String}

namespace Extremizes

theorem exists_of_ne_nil (hcall : Extremizes beyond call) (hxs : xs ≠ []) :
    ∃ value, call xs = .ok value ∧ Tops beyond [value] xs := by
  obtain ⟨x, rest, rfl⟩ := List.exists_cons_of_ne_nil hxs
  exact hcall.exists_value x rest

theorem ne_nil (hcall : Extremizes beyond call) (hvalue : call xs = .ok value) : xs ≠ [] := by
  rintro rfl
  exact hcall.nil value hvalue

theorem tops (hcall : Extremizes beyond call) (hvalue : call xs = .ok value) :
    Tops beyond [value] xs := by
  obtain ⟨found, hfound, htops⟩ := hcall.exists_of_ne_nil (hcall.ne_nil hvalue)
  rw [hvalue] at hfound
  cases hfound
  exact htops

/-- Doubles that stand for others have the same extremum. -/
theorem same_of_tops (hcall : Extremizes beyond call) (hranking : Ranking beyond)
    (htops : Tops beyond xs ys) (hvalue : call xs = .ok value) (hother : call ys = .ok other) :
    SameUpToZero value other :=
  IsExtremum.unique hranking ((hcall.tops hvalue).trans hranking htops).isExtremum
    (hcall.tops hother).isExtremum

end Extremizes

/-- A built-in function that folds its arguments by picking one of two yields the extremum. -/
theorem Picks.extremizes (hpicks : Picks beyond pick) (hranking : Ranking beyond) (name : String) :
    Extremizes beyond fun args => Catalog.oneOrMoreArgs name args pick where
  exists_value x xs := ⟨_, rfl, hpicks.tops_foldl hranking x xs⟩
  nil value hvalue := by cases hvalue

end

namespace Tree

mutual

/-- What a tree comes to where a function is called: the arguments of its calls in place of the
calls.  A call without arguments stays one. -/
def leaves (name : String) : Tree → List Tree
  | .call title (arg :: rest) =>
      if title = name then arg.leaves name ++ allLeaves name rest else [.call title (arg :: rest)]
  | tree => [tree]

def allLeaves (name : String) : List Tree → List Tree
  | [] => []
  | tree :: rest => tree.leaves name ++ allLeaves name rest

end

variable {beyond : Float → Float → Prop} {scope : Scope Float} {name : String} {tree : Tree}
  {args : List Tree}

/-- The value of a tree stands for those of its leaves. -/
def LeavesTopped (beyond : Float → Float → Prop) (scope : Scope Float) (name : String)
    (tree : Tree) : Prop :=
  Agree (fun x ys => Tops beyond [x] ys) (tree.value scope) (values scope (tree.leaves name))

theorem leavesTopped_of_leaf (hranking : Ranking beyond) (hleaf : tree.leaves name = [tree]) :
    LeavesTopped beyond scope name tree := by
  rw [LeavesTopped, hleaf, values]
  cases tree.value scope with
  | error fault => exact rfl
  | ok x => exact Tops.refl hranking [x]

theorem allLeaves_topped (hranking : Ranking beyond)
    (hargs : ∀ arg ∈ args, LeavesTopped beyond scope name arg) :
    Agree (Tops beyond) (values scope args) (values scope (allLeaves name args)) := by
  induction args with
  | nil => exact Tops.refl hranking []
  | cons arg rest ih =>
      rw [values, allLeaves, values_append]
      apply (hargs arg List.mem_cons_self).bind
      intro x ys _ _ hfirst
      apply (ih fun other hother => hargs other (List.mem_cons_of_mem arg hother)).bind
      intro xs zs _ _ hrest
      exact hfirst.append hrest

theorem leavesTopped (hranking : Ranking beyond) (hcall : Extremizes beyond (scope.call name))
    (tree : Tree) : LeavesTopped beyond scope name tree := by
  induction tree with
  | literal x => exact leavesTopped_of_leaf hranking rfl
  | var title => exact leavesTopped_of_leaf hranking rfl
  | unary operator operand _ => exact leavesTopped_of_leaf hranking rfl
  | binary operator left right _ _ => exact leavesTopped_of_leaf hranking rfl
  | call title args ih =>
      cases args with
      | nil => exact leavesTopped_of_leaf hranking rfl
      | cons arg rest =>
          by_cases htitle : title = name
          · subst htitle
            have hall := allLeaves_topped hranking ih
            rw [LeavesTopped, value, leaves, if_pos rfl, ← allLeaves,
              ← bind_pure (values scope (allLeaves _ _))]
            apply hall.bind
            intro xs ys hxs _ htops
            obtain ⟨x, hx, htop⟩ := hcall.exists_of_ne_nil (values_ne_nil hxs)
            rw [hx]
            exact htop.trans hranking htops
          · exact leavesTopped_of_leaf hranking (by rw [leaves, if_neg htitle])

/-- A call and the call with its leaves as arguments have the same extremum, or fail alike. -/
theorem evaluate_leaves (hranking : Ranking beyond) (hcall : Extremizes beyond (scope.call name))
    (hargs : args ≠ []) (source text : Option String) :
    Agree SameUpToZero (((Tree.call name args).toExpr source).evaluate scope)
      (((Tree.call name (allLeaves name args)).toExpr text).evaluate scope) := by
  rw [evaluate_toExpr, evaluate_toExpr, value, value]
  apply (allLeaves_topped hranking fun arg _ => leavesTopped hranking hcall arg).bind
  intro xs ys hxs _ htops
  obtain ⟨arg, rest, rfl⟩ := List.exists_cons_of_ne_nil hargs
  have hne := values_ne_nil hxs
  obtain ⟨value, hvalue, -⟩ := hcall.exists_of_ne_nil hne
  obtain ⟨other, hother, -⟩ := hcall.exists_of_ne_nil (mt htops.nil hne)
  rw [hvalue, hother]
  exact hcall.same_of_tops hranking htops hvalue hother

end Tree

/-- What a built-in function does that yields an extremum of its arguments.  Only the numbers among
them count, neither their order nor how often they occur, and it can be taken of parts first, in
the arguments as in an expression. -/
structure Extremal (beyond : Float → Float → Prop) (name : String) : Prop where
  isExtremum : ∀ xs : List Float, xs ≠ [] →
    ∃ value, Catalog.call name xs = .ok value ∧ IsExtremum beyond xs value
  congr : ∀ (xs ys : List Float) (value other : Float),
    (∀ x, x.isNaN = false → (x ∈ xs ↔ x ∈ ys)) → Catalog.call name xs = .ok value →
    Catalog.call name ys = .ok other → SameUpToZero value other
  append : ∀ (xs ys : List Float) (first second : Float), Catalog.call name xs = .ok first →
    Catalog.call name ys = .ok second →
    ∃ whole nested, Catalog.call name (xs ++ ys) = .ok whole ∧
      Catalog.call name [first, second] = .ok nested ∧ SameUpToZero whole nested
  leaves : ∀ (scope : Scope Float) (args : List Tree) (source text : Option String),
    (∀ xs, scope.call name xs = Catalog.call name xs) → args ≠ [] →
    Agree SameUpToZero (((Tree.call name args).toExpr source).evaluate scope)
      (((Tree.call name (Tree.allLeaves name args)).toExpr text).evaluate scope)

theorem Extremizes.extremal {beyond : Float → Float → Prop} {name : String}
    (hcall : Extremizes beyond (Catalog.call name)) (hranking : Ranking beyond) :
    Extremal beyond name where
  isExtremum xs hxs := by
    obtain ⟨value, hvalue, htops⟩ := hcall.exists_of_ne_nil hxs
    exact ⟨value, hvalue, htops.isExtremum⟩
  congr xs ys value other hsame hvalue hother :=
    hcall.same_of_tops hranking
      (.of_same hranking (fun hys => absurd hys (hcall.ne_nil hother)) hsame) hvalue hother
  append xs ys first second hfirst hsecond := by
    have hparts : Tops beyond [first, second] (xs ++ ys) :=
      (hcall.tops hfirst).append (hcall.tops hsecond)
    obtain ⟨whole, hwhole, -⟩ :=
      hcall.exists_of_ne_nil (List.append_ne_nil_of_left_ne_nil (hcall.ne_nil hfirst) ys)
    obtain ⟨nested, hnested, -⟩ := hcall.exists_value first [second]
    exact ⟨whole, nested, hwhole, hnested,
      (hcall.same_of_tops hranking hparts hnested hwhole).symm⟩
  leaves scope args source text hscope hargs := by
    have hcalls : Extremizes beyond (scope.call name) := by
      rw [show scope.call name = Catalog.call name from funext hscope]
      exact hcall
    exact Tree.evaluate_leaves hranking hcalls hargs source text

/-- The largest and the smallest argument are extrema: not a number only if no argument is one, and
otherwise one of them that none exceeds or falls below. -/
theorem max_min_extremal :
    Extremal (fun x y => y < x) "max" ∧ Extremal (fun x y => x < y) "min" := by
  have hmax : Extremizes (fun x y => y < x) (Catalog.call "max") :=
    picks_larger.extremizes ranking_lt.flip "max"
  have hmin : Extremizes (fun x y => x < y) (Catalog.call "min") :=
    picks_smaller.extremizes ranking_lt "min"
  exact ⟨hmax.extremal ranking_lt.flip, hmin.extremal ranking_lt⟩

end Reckon
