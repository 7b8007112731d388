import Mathlib.Data.List.Basic
import Mathlib.Data.List.Perm.Basic
import Reckon.Expr.Basic

/-
Expressions as trees, and the list of nodes in which the operands of a node stand before it.  The
positions in the list follow from the sizes of the subtrees, so that a list of nodes has at most
one tree.
-/

namespace Reckon

inductive Tree
  | literal (value : Float)
  | var (name : String)
  | unary (operator : Operator) (operand : Tree)
  | binary (operator : Operator) (left right : Tree)
  | call (name : String) (args : List Tree)

namespace Tree

mutual

/-- Induction over trees; the arguments of a call have the property one by one. -/
@[elab_as_elim, induction_eliminator]
theorem induct {motive : Tree → Prop}
    (literal : ∀ value, motive (.literal value))
    (var : ∀ name, motive (.var name))
    (unary : ∀ operator operand, motive operand → motive (.unary operator operand))
    (binary : ∀ operator left right, motive left → motive right →
      motive (.binary operator left right))
    (call : ∀ name args, (∀ arg ∈ args, motive arg) → motive (.call name args)) :
    ∀ tree, motive tree
  | .literal value => literal value
  | .var name => var name
  | .unary operator operand =>
      unary operator operand (induct literal var unary binary call operand)
  | .binary operator left right =>
      binary operator left right (induct literal var unary binary call left)
        (induct literal var unary binary call right)
  | .call name args => call name args (inductArgs literal var unary binary call args)

theorem inductArgs {motive : Tree → Prop}
    (literal : ∀ value, motive (.literal value))
    (var : ∀ name, motive (.var name))
    (unary : ∀ operator operand, motive operand → motive (.unary operator operand))
    (binary : ∀ operator left right, motive left → motive right →
      motive (.binary operator left right))
    (call : ∀ name args, (∀ arg ∈ args, motive arg) → motive (.call name args)) :
    ∀ args : List Tree, ∀ arg ∈ args, motive arg
  | [], _, hmem => absurd hmem List.not_mem_nil
  | head :: rest, arg, hmem =>
      (List.mem_cons.mp hmem).elim
        (fun heq => heq ▸ induct literal var unary binary call head)
        (inductArgs literal var unary binary call rest arg)

end

mutual

/-- How many nodes the tree has. -/
def size : Tree → Nat
  | .literal _ => 1
  | .var _ => 1
  | .unary _ operand => operand.size + 1
  | .binary _ left right => left.size + right.size + 1
  | .call _ args => sizes args + 1

def sizes : List Tree → Nat
  | [] => 0
  | tree :: rest => tree.size + sizes rest

end

/-- The position of the last node, where the first one stands at `start`. -/
def root (tree : Tree) (start : Nat) : Nat := start + tree.size - 1

/-- The positions of the last nodes of trees that are listed one after the other. -/
def roots : List Tree → Nat → List Nat
  | [], _ => []
  | tree :: rest, start => tree.root start :: roots rest (start + tree.size)

mutual

/-- The nodes of the tree from position `start` on, every node behind its operands. -/
def listing : Tree → Nat → List (Node Nat)
  | .literal value, _ => [.literal value]
  | .var name, _ => [.var name]
  | .unary operator operand, start =>
      operand.listing start ++ [.unary operator (operand.root start)]
  | .binary operator left right, start =>
      left.listing start ++ right.listing (start + left.size) ++
        [.binary operator (left.root start) (right.root (start + left.size))]
  | .call name args, start => listings args start ++ [.call name (roots args start)]

def listings : List Tree → Nat → List (Node Nat)
  | [], _ => []
  | tree :: rest, start => tree.listing start ++ listings rest (start + tree.size)

end

/-- The last node of the listing. -/
def rootNode : Tree → Nat → Node Nat
  | .literal value, _ => .literal value
  | .var name, _ => .var name
  | .unary operator operand, start => .unary operator (operand.root start)
  | .binary operator left right, start =>
      .binary operator (left.root start) (right.root (start + left.size))
  | .call name args, start => .call name (roots args start)

theorem size_pos (tree : Tree) : 0 < tree.size := by
  cases tree <;> simp [size]

theorem root_lt (tree : Tree) (start : Nat) : tree.root start < start + tree.size := by
  have hsize := tree.size_pos
  simp only [root]
  omega

theorem size_eq_of_root_eq {tree other : Tree} {start : Nat}
    (hroot : tree.root start = other.root start) : tree.size = other.size := by
  have htree := tree.size_pos
  have hother := other.size_pos
  simp only [root] at hroot
  omega

theorem roots_append (first second : List Tree) (start : Nat) :
    roots (first ++ second) start = roots first start ++ roots second (start + sizes first) := by
  induction first generalizing start with
  | nil => simp [roots, sizes]
  | cons tree rest ih => simp only [List.cons_append, roots, sizes, ih, Nat.add_assoc]

theorem listings_append (first second : List Tree) (start : Nat) :
    listings (first ++ second) start =
      listings first start ++ listings second (start + sizes first) := by
  induction first generalizing start with
  | nil => simp [listings, sizes]
  | cons tree rest ih =>
      simp only [List.cons_append, listings, sizes, ih, Nat.add_assoc, List.append_assoc]

theorem length_listings {trees : List Tree}
    (htrees : ∀ tree ∈ trees, ∀ start, (tree.listing start).length = tree.size) (start : Nat) :
    (listings trees start).length = sizes trees := by
  induction trees generalizing start with
  | nil => rfl
  | cons tree rest ih =>
      rw [listings, List.length_append, htrees tree List.mem_cons_self,
        ih fun other hother => htrees other (List.mem_cons_of_mem tree hother)]
      rfl

@[simp] theorem length_listing (tree : Tree) (start : Nat) :
    (tree.listing start).length = tree.size := by
  induction tree generalizing start with
  | literal value => rfl
  | var name => rfl
  | unary operator operand ih => simp [listing, size, ih]
  | binary operator left right ihLeft ihRight =>
      simp [listing, size, ihLeft, ihRight, Nat.add_assoc]
  | call name args ih => simp [listing, size, length_listings ih]

theorem roots_lt {trees : List Tree} {start position : Nat}
    (hposition : position ∈ roots trees start) : position < start + sizes trees := by
  induction trees generalizing start with
  | nil => simp [roots] at hposition
  | cons tree rest ih =>
      rw [sizes]
      rcases List.mem_cons.mp hposition with rfl | hposition
      · have hroot := tree.root_lt start
        omega
      · have hrest := ih hposition
        omega

theorem operandsBefore_listings {trees : List Tree}
    (htrees : ∀ tree ∈ trees, ∀ start, OperandsBefore start (tree.listing start)) (start : Nat) :
    OperandsBefore start (listings trees start) := by
  induction trees generalizing start with
  | nil => trivial
  | cons tree rest ih =>
      rw [listings, operandsBefore_append, length_listing]
      exact ⟨htrees tree List.mem_cons_self start,
        ih (fun other hother => htrees other (List.mem_cons_of_mem tree hother)) _⟩

/-- Every operand in a listing stands before its node. -/
theorem operandsBefore_listing (tree : Tree) (start : Nat) :
    OperandsBefore start (tree.listing start) := by
  induction tree generalizing start with
  | literal value => simp [listing, OperandsBefore, Node.operands]
  | var name => simp [listing, OperandsBefore, Node.operands]
  | unary operator operand ih =>
      rw [listing, operandsBefore_append]
      refine ⟨ih start, ?_, trivial⟩
      simpa [Node.operands] using operand.root_lt start
  | binary operator left right ihLeft ihRight =>
      rw [listing, operandsBefore_append, operandsBefore_append, length_listing]
      refine ⟨⟨ihLeft start, ihRight _⟩, ?_, trivial⟩
      have hleft := left.root_lt start
      have hright := right.root_lt (start + left.size)
      simp only [Node.operands, List.mem_cons, List.not_mem_nil, or_false, List.length_append,
        length_listing]
      rintro position (rfl | rfl) <;> omega
  | call name args ih =>
      rw [listing, operandsBefore_append, length_listings fun arg _ => arg.length_listing]
      refine ⟨operandsBefore_listings ih start, ?_, trivial⟩
      intro position hposition
      exact roots_lt hposition

theorem operands_listings {trees : List Tree}
    (htrees : ∀ tree ∈ trees, ∀ start,
      ((tree.listing start).flatMap Node.operands ++ [tree.root start]).Perm
        (List.range' start tree.size)) (start : Nat) :
    ((listings trees start).flatMap Node.operands ++ roots trees start).Perm
      (List.range' start (sizes trees)) := by
  induction trees generalizing start with
  | nil => simp [listings, roots, sizes]
  | cons tree rest ih =>
      have htree := htrees tree List.mem_cons_self start
      have hrest := ih (fun other hother => htrees other (List.mem_cons_of_mem tree hother))
        (start + tree.size)
      rw [sizes, ← List.range'_append_1]
      refine List.Perm.trans ?_ (htree.append hrest)
      simp only [listings, roots, List.flatMap_append, List.append_assoc, List.singleton_append]
      exact List.perm_middle.append_left _

/-- The operands in a listing, with the root added, are all its positions, each once. -/
theorem operands_listing (tree : Tree) (start : Nat) :
    ((tree.listing start).flatMap Node.operands ++ [tree.root start]).Perm
      (List.range' start tree.size) := by
  induction tree generalizing start with
  | literal value => simp [listing, Node.operands, root, size]
  | var name => simp [listing, Node.operands, root, size]
  | unary operator operand ih =>
      rw [size, List.range'_1_concat, listing, List.flatMap_append]
      exact (ih start).append_right _
  | binary operator left right ihLeft ihRight =>
      have hboth := (ihLeft start).append (ihRight (start + left.size))
      rw [List.range'_append_1] at hboth
      rw [size, List.range'_1_concat]
      refine List.Perm.trans ?_ (hboth.append_right _)
      simp only [listing, List.flatMap_append, List.append_assoc]
      apply List.Perm.append_left _
      exact List.perm_middle
  | call name args ih =>
      rw [size, List.range'_1_concat, listing, List.flatMap_append]
      simpa [Node.operands, root, size] using
        (operands_listings ih start).append_right [start + sizes args]

theorem listings_injective {trees others : List Tree}
    (htrees : ∀ tree ∈ trees, ∀ other start, tree.listing start = other.listing start →
      tree = other) {start : Nat} (hlistings : listings trees start = listings others start)
    (hroots : roots trees start = roots others start) : trees = others := by
  induction trees generalizing others start with
  | nil =>
      cases others with
      | nil => rfl
      | cons other rest => simp [roots] at hroots
  | cons tree rest ih =>
      cases others with
      | nil => simp [roots] at hroots
      | cons other more =>
          simp only [roots, List.cons.injEq] at hroots
          have hsize := size_eq_of_root_eq hroots.1
          have hsplit := List.append_inj hlistings (by simp [hsize])
          rw [hsize] at hsplit hroots
          rw [htrees tree List.mem_cons_self other start hsplit.1,
            ih (fun tree htree => htrees tree (List.mem_cons_of_mem _ htree)) hsplit.2 hroots.2]

theorem getLast?_listing (tree : Tree) (start : Nat) :
    (tree.listing start).getLast? = some (tree.rootNode start) := by
  cases tree <;> simp [listing, rootNode]

theorem rootNode_eq_of_listing_eq {tree other : Tree} {start : Nat}
    (hlisting : tree.listing start = other.listing start) :
    tree.rootNode start = other.rootNode start := by
  have hlast := congrArg List.getLast? hlisting
  simpa [getLast?_listing] using hlast

/-- A list of nodes is the listing of one tree at most. -/
theorem listing_injective {tree other : Tree} {start : Nat}
    (hlisting : tree.listing start = other.listing start) : tree = other := by
  induction tree generalizing other start with
  | literal value =>
      have hnode := rootNode_eq_of_listing_eq hlisting
      cases other <;> simp_all [rootNode]
  | var name =>
      have hnode := rootNode_eq_of_listing_eq hlisting
      cases other <;> simp_all [rootNode]
  | unary operator operand ih =>
      have hnode := rootNode_eq_of_listing_eq hlisting
      cases other with
      | unary op inner =>
          simp only [rootNode, Node.unary.injEq] at hnode
          have hbelow := (List.append_inj' hlisting rfl).1
          rw [hnode.1, ih hbelow]
      | _ => simp [rootNode] at hnode
  | binary operator left right ihLeft ihRight =>
      have hnode := rootNode_eq_of_listing_eq hlisting
      cases other with
      | binary op first second =>
          simp only [rootNode, Node.binary.injEq] at hnode
          have hsize := size_eq_of_root_eq hnode.2.1
          have hbelow := (List.append_inj' hlisting rfl).1
          obtain ⟨hleft, hright⟩ := List.append_inj hbelow (by simp [hsize])
          rw [hsize] at hright
          rw [hnode.1, ihLeft hleft, ihRight hright]
      | _ => simp [rootNode] at hnode
  | call name args ih =>
      have hnode := rootNode_eq_of_listing_eq hlisting
      cases other with
      | call title params =>
          simp only [rootNode, Node.call.injEq] at hnode
          have hbelow := (List.append_inj' hlisting rfl).1
          rw [hnode.1, listings_injective (fun arg harg _ _ heq => ih arg harg heq) hbelow hnode.2]
      | _ => simp [rootNode] at hnode

end Tree

end Reckon
