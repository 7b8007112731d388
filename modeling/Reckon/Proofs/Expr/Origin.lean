import Reckon.Proofs.Expr.Parse

/-
Where the nodes of an expression come from.  The literals are the numbers among its tokens, the
names are the names among them, and every operator has as many operands as it takes.
-/

namespace Reckon

variable {word first second : List Token} {tree left right operand : Tree} {args : List Tree}
  {name : String} {operator : Operator} {node : Node Nat}

/-- The node stands for one of these tokens or is an operator that takes its operands. -/
def Node.ComesFrom (word : List Token) : Node Nat → Prop
  | .literal value => ∃ token ∈ word, token.kind = .number value
  | .var name => ∃ token ∈ word, token.kind = .name name
  | .unary operator _ => operator.isUnary = true
  | .binary operator _ _ => operator.isUnary = false
  | .call name _ => ∃ token ∈ word, token.kind = .name name
  | .bare => False

/-- All nodes of the tree come from these tokens, wherever it is listed. -/
def Tree.ComesFrom (word : List Token) (tree : Tree) : Prop :=
  ∀ start, ∀ node ∈ tree.listing start, node.ComesFrom word

theorem Node.ComesFrom.mono (hnode : node.ComesFrom first) (hsubset : first ⊆ second) :
    node.ComesFrom second := by
  cases node with
  | literal value | var name | call name args =>
      obtain ⟨token, htoken, hkind⟩ := hnode
      exact ⟨token, hsubset htoken, hkind⟩
  | unary operator operand | binary operator left right => exact hnode
  | bare => exact hnode

namespace Tree.ComesFrom

theorem mono (htree : tree.ComesFrom first) (hsubset : first ⊆ second) : tree.ComesFrom second :=
  fun start node hnode => (htree start node hnode).mono hsubset

theorem unary (hoperator : operator.isUnary = true) (hoperand : operand.ComesFrom word) :
    (Tree.unary operator operand).ComesFrom word := by
  intro start node hnode
  rcases List.mem_append.mp hnode with hnode | hnode
  · exact hoperand start node hnode
  · rw [List.mem_singleton.mp hnode]
    exact hoperator

theorem binary (hoperator : operator.isUnary = false) (hleft : left.ComesFrom word)
    (hright : right.ComesFrom word) : (Tree.binary operator left right).ComesFrom word := by
  intro start node hnode
  rcases List.mem_append.mp hnode with hnode | hnode
  · rcases List.mem_append.mp hnode with hnode | hnode
    · exact hleft start node hnode
    · exact hright _ node hnode
  · rw [List.mem_singleton.mp hnode]
    exact hoperator

theorem listings (hargs : ∀ arg ∈ args, arg.ComesFrom word) (start : Nat) :
    ∀ node ∈ Tree.listings args start, node.ComesFrom word := by
  induction args generalizing start with
  | nil =>
      intro node hnode
      cases hnode
  | cons arg rest ih =>
      intro node hnode
      rcases List.mem_append.mp hnode with hnode | hnode
      · exact hargs arg List.mem_cons_self start node hnode
      · exact ih (fun other hother => hargs other (List.mem_cons_of_mem arg hother)) _ node hnode

theorem call (hname : ∃ token ∈ word, token.kind = .name name)
    (hargs : ∀ arg ∈ args, arg.ComesFrom word) : (Tree.call name args).ComesFrom word := by
  intro start node hnode
  rcases List.mem_append.mp hnode with hnode | hnode
  · exact listings hargs start node hnode
  · rw [List.mem_singleton.mp hnode]
    exact hname

end Tree.ComesFrom

mutual

/-- The nodes of a phrase come from its tokens. -/
theorem Derives.comesFrom {phrase : Phrase} {word : List Token} {tree : Tree} :
    Derives phrase word tree → tree.ComesFrom word
  | .term hterm => hterm.comesFrom
  | .sum hfirst _ hoperator hsecond =>
      .binary (Operator.isUnary_of_binaryOf? (Operator.binaryOf?_of_additive hoperator).1)
        (hfirst.comesFrom.mono (by simp)) (hsecond.comesFrom.mono (by simp))
  | .signed hsigned => hsigned.comesFrom
  | .product hfirst _ hoperator hsecond =>
      .binary (Operator.isUnary_of_binaryOf? (Operator.binaryOf?_of_multiplicative hoperator).1)
        (hfirst.comesFrom.mono (by simp)) (hsecond.comesFrom.mono (by simp))
  | .sign _ hoperator hoperand =>
      .unary (Operator.isUnary_of_leadingOf? (Operator.leadingOf?_of_sign hoperator))
        (hoperand.comesFrom.mono (by simp))
  | .power hpower => hpower.comesFrom
  | .factorial hfactorial => hfactorial.comesFrom
  | .raise hbase _ hexponent =>
      .binary rfl (hbase.comesFrom.mono (by simp)) (hexponent.comesFrom.mono (by simp))
  | .primary hprimary => hprimary.comesFrom
  | .bang hoperand _ => .unary rfl (hoperand.comesFrom.mono (by simp))
  | .number hkind => fun _ _ hmem => by
      rw [List.mem_singleton.mp hmem]
      exact ⟨_, List.mem_cons_self, hkind⟩
  | .name hkind => fun _ _ hmem => by
      rw [List.mem_singleton.mp hmem]
      exact ⟨_, List.mem_cons_self, hkind⟩
  | .emptyCall hkind _ _ =>
      .call ⟨_, List.mem_cons_self, hkind⟩ fun _ harg => absurd harg List.not_mem_nil
  | .call hkind _ hargs _ =>
      .call ⟨_, List.mem_cons_self, hkind⟩ fun arg harg =>
        (hargs.comesFrom arg harg).mono fun _ hin => by simp [hin]
  | .group _ hexpr _ => hexpr.comesFrom.mono (by simp)

theorem DerivesArgs.comesFrom {word : List Token} {args : List Tree} :
    DerivesArgs word args → ∀ arg ∈ args, arg.ComesFrom word
  | .single hexpr => fun arg harg => by
      rw [List.mem_singleton.mp harg]
      exact hexpr.comesFrom
  | .more hargs _ hexpr => fun arg harg => by
      rcases List.mem_append.mp harg with harg | harg
      · exact (hargs.comesFrom arg harg).mono (by simp)
      · rw [List.mem_singleton.mp harg]
        exact hexpr.comesFrom.mono (by simp)

end

end Reckon
