import Reckon.Proofs.Expr.Origin
import Reckon.Proofs.Expr.Value

/-
The evaluation from the first node to the last against the recursion on references.  Values are
the same; an error of the evaluation that the recursion does not meet arises at a node that the
last one does not depend on.  In what is read from a text there is no such node, and the first
error is the same.
-/

namespace Reckon

/-- A node that means something: an operator in front of or behind its operand is one that takes
one operand, and an operator between operands is not. -/
def Node.Fits : Node Nat → Prop
  | .unary operator _ => operator.isUnary = true
  | .binary operator _ _ => operator.isUnary = false
  | .bare => False
  | _ => True

theorem Node.ComesFrom.fits {node : Node Nat} {word : List Token} (hnode : node.ComesFrom word) :
    node.Fits := by
  cases node with
  | literal value | var name | call name args => trivial
  | unary operator operand | binary operator left right => exact hnode
  | bare => exact hnode

/-- What is read has operators of the right kind. -/
theorem Derives.fits {phrase : Phrase} {word : List Token} {tree : Tree}
    (hphrase : Derives phrase word tree) (start : Nat) : ∀ node ∈ tree.listing start, node.Fits :=
  fun node hnode => (hphrase.comesFrom start node hnode).fits

namespace Expr

variable {V : Type} [Elementwise V] {expr : Expr} {scope : Scope V} {stop : Stop}
  {before : List (Node Nat)}

theorem getElem?_root {tree : Tree}
    (hnodes : before ++ tree.listing before.length <+: expr.nodes) :
    expr.nodes[tree.root before.length]? = some (tree.rootNode before.length) := by
  obtain ⟨after, hnodes⟩ := hnodes
  have hlast := tree.getLast?_listing before.length
  have hsize := tree.size_pos
  rw [List.getLast?_eq_getElem?, Tree.length_listing] at hlast
  have hroot : tree.root before.length = before.length + (tree.size - 1) := by
    rw [Tree.root]
    omega
  have hinside : tree.size - 1 < (tree.listing before.length).length := by
    rw [Tree.length_listing]
    omega
  rw [← hnodes, hroot, List.append_assoc, List.getElem?_append_right (Nat.le_add_right _ _),
    Nat.add_sub_cancel_left, List.getElem?_append_left hinside, hlast]

/-- The recursion on a tree meets the error at which the evaluation stops in its listing. -/
def Meets (expr : Expr) (scope : Scope V) (stop : Stop) (tree : Tree) : Prop :=
  ∀ before, before ++ tree.listing before.length <+: expr.nodes →
    (∀ node ∈ tree.listing before.length, node.Fits) →
    before.length ≤ stop.position → stop.position < before.length + tree.size →
    expr.valueAt scope (tree.root before.length) = .error stop

/-- A stop at the root of the tree is met there. -/
theorem FirstStop.meets_of_below (hstop : expr.FirstStop scope stop) {tree : Tree}
    (hbelow : ∀ before, before ++ tree.listing before.length <+: expr.nodes →
      (∀ node ∈ tree.listing before.length, node.Fits) →
      before.length ≤ stop.position → stop.position < tree.root before.length →
      expr.valueAt scope (tree.root before.length) = .error stop) :
    expr.Meets scope stop tree := by
  intro before hnodes hfits hlow hhigh
  by_cases hroot : stop.position = tree.root before.length
  · rw [← hroot]
    exact hstop.valueAt_eq
  · apply hbelow before hnodes hfits hlow
    rw [Tree.root] at hroot ⊢
    omega

theorem FirstStop.meets_unary (hstop : expr.FirstStop scope stop) {operator : Operator}
    {operand : Tree} (hoperand : expr.Meets scope stop operand) :
    expr.Meets scope stop (.unary operator operand) := by
  apply hstop.meets_of_below
  intro before hnodes hfits hlow hhigh
  have hunary : (operator.unary? : Option (V → V)).isSome = true := by
    rw [Operator.unary?_isSome]
    exact hfits _ (List.mem_append_right _ (List.mem_singleton_self _))
  obtain ⟨f, hf⟩ := Option.isSome_iff_exists.mp hunary
  have hroot := getElem?_root hnodes
  rw [Tree.listing, ← List.append_assoc] at hnodes
  have hinner : expr.valueAt scope (operand.root before.length) = .error stop :=
    hoperand before ((List.prefix_append _ _).trans hnodes)
      (fun node hnode => hfits node (List.mem_append_left _ hnode)) hlow
      (by simpa [Tree.root, Tree.size] using hhigh)
  rw [valueAt_unary hroot, hf, hinner]
  rfl

theorem FirstStop.meets_binary (hstop : expr.FirstStop scope stop) {operator : Operator}
    {left right : Tree} (hleft : expr.Meets scope stop left)
    (hright : expr.Meets scope stop right) :
    expr.Meets scope stop (.binary operator left right) := by
  apply hstop.meets_of_below
  intro before hnodes hfits hlow hhigh
  have hbinary : (operator.binary? : Option (V → V → V)).isSome = true := by
    have hkind : operator.isUnary = false :=
      hfits _ (List.mem_append_right _ (List.mem_singleton_self _))
    rw [Operator.binary?_isSome, hkind]
    rfl
  obtain ⟨f, hf⟩ := Option.isSome_iff_exists.mp hbinary
  rw [valueAt_binary (getElem?_root hnodes), hf]
  have hlength : (before ++ left.listing before.length).length = before.length + left.size := by
    simp
  rw [Tree.listing, ← hlength, ← List.append_assoc, ← List.append_assoc] at hnodes
  have hboth := (List.prefix_append _ _).trans hnodes
  by_cases hfirst : stop.position < before.length + left.size
  · have hinner : expr.valueAt scope (left.root before.length) = .error stop :=
      hleft before ((List.prefix_append _ _).trans hboth)
        (fun node hnode => hfits node (List.mem_append_left _ (List.mem_append_left _ hnode)))
        hlow hfirst
    simp only [hinner]
    rfl
  · have hroot := left.root_lt before.length
    obtain ⟨x, hx⟩ := hstop.before (left.root before.length) (by omega)
    have hinner : expr.valueAt scope (right.root (before.length + left.size)) =
        .error stop := by
      rw [← hlength]
      refine hright (before ++ left.listing before.length) hboth (fun node hnode => ?_)
        (by omega) ?_
      · rw [hlength] at hnode
        exact hfits node (List.mem_append_left _ (List.mem_append_right _ hnode))
      · simp only [Tree.root, Tree.size] at hhigh
        omega
    simp only [hx, hinner]
    rfl

/-- The arguments of a call are evaluated in their order up to the first error. -/
theorem FirstStop.mapM_roots (hstop : expr.FirstStop scope stop) {args : List Tree}
    (hargs : ∀ arg ∈ args, expr.Meets scope stop arg)
    (hnodes : before ++ Tree.listings args before.length <+: expr.nodes)
    (hfits : ∀ node ∈ Tree.listings args before.length, node.Fits)
    (hlow : before.length ≤ stop.position)
    (hhigh : stop.position < before.length + Tree.sizes args) :
    (Tree.roots args before.length).mapM (fun arg => expr.valueAt scope arg) = .error stop := by
  induction args generalizing before with
  | nil =>
      rw [Tree.sizes] at hhigh
      omega
  | cons arg rest ih =>
      have hlength : (before ++ arg.listing before.length).length =
          before.length + arg.size := by
        simp
      rw [Tree.roots, List.mapM_cons]
      rw [Tree.listings, ← hlength, ← List.append_assoc] at hnodes
      rw [Tree.listings, ← hlength] at hfits
      by_cases hfirst : stop.position < before.length + arg.size
      · have harg := hargs arg List.mem_cons_self before ((List.prefix_append _ _).trans hnodes)
          (fun node hnode => hfits node (List.mem_append_left _ hnode)) hlow hfirst
        simp only [harg]
        rfl
      · have hroot := arg.root_lt before.length
        obtain ⟨x, hx⟩ := hstop.before (arg.root before.length) (by omega)
        rw [Tree.sizes] at hhigh
        have hrest := ih (fun other hother => hargs other (List.mem_cons_of_mem arg hother))
          hnodes (fun node hnode => hfits node (List.mem_append_right _ hnode)) (by omega)
          (by omega)
        rw [hlength] at hrest
        simp only [hx, hrest]
        rfl

/-- The recursion on a tree meets the first error in its listing. -/
theorem FirstStop.meets (hstop : expr.FirstStop scope stop) (tree : Tree) :
    expr.Meets scope stop tree := by
  induction tree with
  | literal value =>
      apply hstop.meets_of_below
      intro before _ _ hlow hhigh
      simp only [Tree.root, Tree.size] at hhigh
      omega
  | var name =>
      apply hstop.meets_of_below
      intro before _ _ hlow hhigh
      simp only [Tree.root, Tree.size] at hhigh
      omega
  | unary operator operand ih => exact hstop.meets_unary ih
  | binary operator left right ihLeft ihRight => exact hstop.meets_binary ihLeft ihRight
  | call name args ih =>
      apply hstop.meets_of_below
      intro before hnodes hfits hlow hhigh
      have hroot := getElem?_root hnodes
      rw [Tree.listing, ← List.append_assoc] at hnodes
      have hargs := hstop.mapM_roots ih ((List.prefix_append _ _).trans hnodes)
        (fun node hnode => hfits node (List.mem_append_left _ hnode)) hlow
        (by simpa [Tree.root, Tree.size] using hhigh)
      rw [valueAt_call hroot, hargs]
      rfl

theorem exists_valueAt_of_run {values : Array V} (hrun : expr.run scope = .ok values) :
    ∃ value, slot values (expr.size - 1) = .ok value ∧
      expr.valueAt scope (expr.size - 1) = .ok value := by
  have hcases := run_cases expr scope
  rw [hrun] at hcases
  obtain ⟨hfilled, hsize⟩ := hcases
  have hpos := expr.size_pos
  exact hfilled.exists_value (by omega)

/-- What is read from a text stops exactly where the recursion from its last node does. -/
theorem run_eq_error_iff {source : String} (hparse : parse source = .ok expr) :
    expr.run scope = .error stop ↔ expr.valueAt scope (expr.size - 1) = .error stop := by
  obtain ⟨body, eof, tree, _, hexpr, rfl⟩ := exists_derives_of_parse hparse
  have hlast : (tree.toExpr (some source)).size - 1 = tree.root 0 := by
    simp [Tree.toExpr, size, Tree.root]
  have hmeets : ∀ first : Stop, (tree.toExpr (some source)).FirstStop scope first →
      (tree.toExpr (some source)).valueAt scope (tree.root 0) = .error first := by
    intro first hfirst
    have hinside := hfirst.position_lt
    refine hfirst.meets tree [] List.prefix_rfl (hexpr.fits 0) (Nat.zero_le _) ?_
    simpa [Tree.toExpr, size] using hinside
  have hcases := run_cases (tree.toExpr (some source)) scope
  rw [hlast]
  constructor
  · intro hrun
    rw [hrun] at hcases
    exact hmeets stop hcases
  · intro hvalue
    cases hrun : (tree.toExpr (some source)).run scope with
    | error first =>
        rw [hrun] at hcases
        rw [hmeets first hcases] at hvalue
        rw [Except.error.inj hvalue]
    | ok values =>
        obtain ⟨value, _, hok⟩ := exists_valueAt_of_run hrun
        rw [hlast, hvalue] at hok
        cases hok

/-- The evaluation from the first node to the last refines the recursion from the last node: it
finds the operands of every node it comes to; where it succeeds, the values are the same; where it
stops, the recursion fails in the same way at that node, which the last node does not depend on if
the recursion succeeds there; and on what is read from a text both stop at the same node with the
same fault. -/
theorem run_refines_valueAt (expr : Expr) (scope : Scope V) :
    (∀ before node after values, expr.nodes = before ++ node :: after →
      evaluateNodes scope #[] before = .ok values →
      ∀ operand ∈ node.operands, ∃ value, slot values operand = .ok value) ∧
    (∀ values, expr.run scope = .ok values →
      ∃ value, expr.evaluate scope = .ok value ∧
        expr.valueAt scope (expr.size - 1) = .ok value) ∧
    (∀ stop, expr.run scope = .error stop →
      stop.position < expr.size ∧ expr.valueAt scope stop.position = .error stop ∧
      ∀ value, expr.valueAt scope (expr.size - 1) = .ok value →
        ¬expr.Reaches (expr.size - 1) stop.position) ∧
    ∀ source, parse source = .ok expr → ∀ stop,
      expr.run scope = .error stop ↔ expr.valueAt scope (expr.size - 1) = .error stop := by
  refine ⟨?_, ?_, ?_, fun source hparse stop => run_eq_error_iff hparse⟩
  · intro before node after values hnodes hvalues operand hoperand
    have hsize := evaluateNodes_size hvalues
    have hnode : expr.nodes[before.length]? = some node := by simp [hnodes]
    have hbefore : operand < values.size := by
      rw [hsize]
      simpa using operand_lt hnode hoperand
    exact ⟨values[operand], slot_eq_ok hbefore⟩
  · intro values hrun
    obtain ⟨value, hslot, hvalue⟩ := exists_valueAt_of_run hrun
    exact ⟨value, by simp only [evaluate, hrun, hslot], hvalue⟩
  · intro stop hrun
    have hcases := run_cases expr scope
    rw [hrun] at hcases
    refine ⟨hcases.position_lt, hcases.valueAt_eq, ?_⟩
    intro value hvalue hreaches
    obtain ⟨found, hfound⟩ := exists_valueAt_of_reaches hvalue hreaches
    rw [hcases.valueAt_eq] at hfound
    cases hfound

end Expr

end Reckon
