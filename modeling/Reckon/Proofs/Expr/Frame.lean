import Reckon.Expr.Pending
import Reckon.Proofs.Expr.Tree

/-
The stacks of a reader, seen as frames that hold the trees of the operands they wait with.  What
is applied before a new operator is a collapse of the innermost frames around the latest operand.
-/

namespace Reckon

namespace Work

/-- The work after a whole tree has been read: its nodes, and its root as the latest operand. -/
def add (work : Work) (tree : Tree) : Work :=
  ⟨work.nodes ++ (tree.listing work.nodes.size).toArray,
    tree.root work.nodes.size :: work.operands⟩

/-- The work after the arguments of a call have been read, which are no operands any more. -/
def addArgs (work : Work) (args : List Tree) : Work :=
  ⟨work.nodes ++ (Tree.listings args work.nodes.size).toArray, work.operands⟩

theorem eq_of_toList_nodes {first second : Work}
    (hnodes : first.nodes.toList = second.nodes.toList)
    (hoperands : first.operands = second.operands) : first = second := by
  obtain ⟨nodes, operands⟩ := first
  obtain ⟨others, positions⟩ := second
  rw [Array.toList_inj] at hnodes
  subst hnodes hoperands
  rfl

@[simp] theorem toList_nodes_push (work : Work) (node : Node Nat) :
    (work.push node).nodes.toList = work.nodes.toList ++ [node] := by
  simp [push]

@[simp] theorem toList_nodes_add (work : Work) (tree : Tree) :
    (work.add tree).nodes.toList = work.nodes.toList ++ tree.listing work.nodes.size := by
  simp [add]

@[simp] theorem toList_nodes_addArgs (work : Work) (args : List Tree) :
    (work.addArgs args).nodes.toList =
      work.nodes.toList ++ Tree.listings args work.nodes.size := by
  simp [addArgs]

@[simp] theorem size_nodes_add (work : Work) (tree : Tree) :
    (work.add tree).nodes.size = work.nodes.size + tree.size := by
  simp [add]

@[simp] theorem size_nodes_addArgs (work : Work) (args : List Tree) :
    (work.addArgs args).nodes.size = work.nodes.size + Tree.sizes args := by
  simp [addArgs, Tree.length_listings fun arg _ => arg.length_listing]

theorem push_literal (work : Work) (value : Float) :
    work.push (.literal value) = work.add (.literal value) := by
  apply eq_of_toList_nodes <;> simp [push, add, Tree.listing, Tree.root, Tree.size]

theorem push_var (work : Work) (name : String) : work.push (.var name) = work.add (.var name) := by
  apply eq_of_toList_nodes <;> simp [push, add, Tree.listing, Tree.root, Tree.size]

/-- A call takes its arguments, the last of which is still an operand. -/
theorem push_call (work : Work) (name : String) (args : List Tree) :
    (work.addArgs args).push (.call name (Tree.roots args work.nodes.size)) =
      work.add (.call name args) := by
  apply eq_of_toList_nodes
  · simp [Tree.listing]
  · simp [push, add, addArgs, Tree.root, Tree.size,
      Tree.length_listings fun arg _ => arg.length_listing]

theorem apply_unary {operator : Operator} (hunary : operator.isUnary = true) (work : Work)
    (operand : Tree) :
    (work.add operand).apply operator = .ok (work.add (.unary operator operand)) := by
  rw [apply, if_pos hunary]
  change Except.ok (push ⟨(work.add operand).nodes, work.operands⟩ _) = _
  congr 1
  apply eq_of_toList_nodes <;> simp [push, add, Tree.listing, Tree.root, Tree.size]

theorem apply_binary {operator : Operator} (hbinary : operator.isUnary = false) (work : Work)
    (left right : Tree) :
    ((work.add left).add right).apply operator =
      .ok (work.add (.binary operator left right)) := by
  rw [apply, if_neg (by simp [hbinary])]
  change Except.ok (push ⟨((work.add left).add right).nodes, work.operands⟩ _) = _
  congr 1
  apply eq_of_toList_nodes
  · simp [Tree.listing]
  · simp only [push, add, Tree.root, Tree.size, Array.size_append, List.size_toArray,
      Tree.length_listing, List.cons.injEq, and_true]
    omega

end Work

/-- What waits for the text that follows, with the trees of the operands it has already. -/
inductive Frame
  | sign (operator : Operator) (hsign : operator = .neg ∨ operator = .pos)
  | binary (operator : Operator) (hbinary : operator.isUnary = false) (left : Tree)
  | group (opening : Token)
  | call (opening : Token) (name : String) (args : List Tree)

namespace Frame

/-- What has been read for these frames, the innermost of which comes first. -/
def work : List Frame → Work
  | [] => Work.start
  | .sign _ _ :: rest => work rest
  | .binary _ _ left :: rest => (work rest).add left
  | .group _ :: rest => work rest
  | .call _ _ args :: rest => (work rest).addArgs args

/-- The stack of the reader that these frames describe. -/
def entries : List Frame → List Entry
  | [] => []
  | .sign operator _ :: rest => .operator operator :: entries rest
  | .binary operator _ _ :: rest => .operator operator :: entries rest
  | .group opening :: rest => .group ⟨opening, none⟩ :: entries rest
  | .call opening name args :: rest =>
      .group ⟨opening, some (name, Tree.roots args (work rest).nodes.size)⟩ :: entries rest

/-- The operator of the innermost frame, if that is no open parenthesis. -/
def waiting? : List Frame → Option Operator
  | .sign operator _ :: _ => some operator
  | .binary operator _ _ :: _ => some operator
  | _ => none

/-- The innermost frames with an operator that binds take the latest operand, one after the
other. -/
def collapse (binds : Operator → Bool) : List Frame → Tree → List Frame × Tree
  | .sign operator hsign :: rest, tree =>
      if binds operator then collapse binds rest (.unary operator tree)
      else (.sign operator hsign :: rest, tree)
  | .binary operator hbinary left :: rest, tree =>
      if binds operator then collapse binds rest (.binary operator left tree)
      else (.binary operator hbinary left :: rest, tree)
  | frames, tree => (frames, tree)

/-- All frames collapse up to the innermost open parenthesis. -/
def collapseAll : List Frame → Tree → List Frame × Tree := collapse fun _ => true

variable {binds : Operator → Bool} {frames rest : List Frame} {tree : Tree}

theorem isUnary_of_sign {operator : Operator} (hsign : operator = .neg ∨ operator = .pos) :
    operator.isUnary = true := by
  rcases hsign with rfl | rfl <;> rfl

/-- What is left waiting does not bind. -/
theorem binds_of_waiting?_collapse {operator : Operator}
    (hwaiting : waiting? (collapse binds frames tree).1 = some operator) :
    binds operator = false := by
  induction frames generalizing tree with
  | nil => simp [collapse, waiting?] at hwaiting
  | cons frame rest ih =>
      cases frame with
      | sign other hsign =>
          by_cases hother : binds other = true
          · simp only [collapse, hother, ↓reduceIte] at hwaiting
            exact ih hwaiting
          · simp only [collapse, hother, waiting?] at hwaiting
            simp_all
      | binary other hbinary left =>
          by_cases hother : binds other = true
          · simp only [collapse, hother, ↓reduceIte] at hwaiting
            exact ih hwaiting
          · simp only [collapse, hother, waiting?] at hwaiting
            simp_all
      | group opening => simp [collapse, waiting?] at hwaiting
      | call opening name args => simp [collapse, waiting?] at hwaiting

theorem waiting?_collapseAll (frames : List Frame) (tree : Tree) :
    waiting? (collapseAll frames tree).1 = none := by
  cases hwaiting : waiting? (collapseAll frames tree).1 with
  | none => rfl
  | some operator => cases binds_of_waiting?_collapse hwaiting

/-- No operator that waits binds as tight as one behind its operand. -/
theorem precedence_of_waiting? {operator : Operator}
    (hwaiting : waiting? frames = some operator) : operator.precedence < 5 := by
  match frames, hwaiting with
  | .sign _ hsign :: _, rfl => rcases hsign with rfl | rfl <;> decide
  | .binary other hbinary _ :: _, rfl =>
      revert hbinary
      cases other <;> decide

/-- Nothing happens where the innermost operator does not bind. -/
theorem collapse_of_waiting?
    (hbinds : ∀ operator, waiting? frames = some operator → binds operator = false) :
    collapse binds frames tree = (frames, tree) := by
  match frames with
  | [] => rfl
  | .sign operator _ :: rest => simp [collapse, hbinds operator rfl]
  | .binary operator _ _ :: rest => simp [collapse, hbinds operator rfl]
  | .group _ :: rest => rfl
  | .call _ _ _ :: rest => rfl

end Frame

namespace Work

open Reckon.Frame

variable {frames rest : List Frame} {tree operand : Tree} {opening : Token} {name : String}
  {args : List Tree}

/-- Waiting operators are applied before a new one as the frames collapse. -/
theorem applyBefore_eq_collapse (new : Operator) (frames : List Frame) (tree : Tree) :
    ((Frame.work frames).add tree).applyBefore new (entries frames) =
      .ok ((Frame.work (collapse (bindsBefore · new) frames tree).1).add
          (collapse (bindsBefore · new) frames tree).2,
        entries (collapse (bindsBefore · new) frames tree).1) := by
  induction frames generalizing tree with
  | nil => rfl
  | cons frame rest ih =>
      cases frame with
      | sign operator hsign =>
          by_cases hbinds : bindsBefore operator new = true
          · simp only [entries, applyBefore, hbinds, ↓reduceIte, Frame.work,
              apply_unary (isUnary_of_sign hsign), collapse]
            exact ih _
          · simp [entries, applyBefore, hbinds, collapse]
      | binary operator hbinary left =>
          by_cases hbinds : bindsBefore operator new = true
          · simp only [entries, applyBefore, hbinds, ↓reduceIte, Frame.work,
              apply_binary hbinary, collapse]
            exact ih _
          · simp [entries, applyBefore, hbinds, collapse]
      | group opening => rfl
      | call opening name args => rfl

/-- A parenthesis is closed after the frames in it have collapsed. -/
theorem closeGroup_eq_collapseAll (frames : List Frame) (tree : Tree) :
    ((Frame.work frames).add tree).closeGroup (entries frames) =
      ((Frame.work (collapseAll frames tree).1).add (collapseAll frames tree).2).closeGroup
        (entries (collapseAll frames tree).1) := by
  induction frames generalizing tree with
  | nil => rfl
  | cons frame rest ih =>
      cases frame with
      | sign operator hsign =>
          simp only [entries, closeGroup, Frame.work, apply_unary (isUnary_of_sign hsign)]
          exact ih _
      | binary operator hbinary left =>
          simp only [entries, closeGroup, Frame.work, apply_binary hbinary]
          exact ih _
      | group opening => rfl
      | call opening name args => rfl

theorem closeGroup_of_nil (hcollapse : collapseAll frames tree = ([], operand)) :
    ((Frame.work frames).add tree).closeGroup (entries frames) =
      .ok (none, Work.start.add operand, []) := by
  rw [closeGroup_eq_collapseAll, hcollapse]
  rfl

theorem closeGroup_of_group
    (hcollapse : collapseAll frames tree = (.group opening :: rest, operand)) :
    ((Frame.work frames).add tree).closeGroup (entries frames) =
      .ok (some ⟨opening, none⟩, (Frame.work rest).add operand, entries rest) := by
  rw [closeGroup_eq_collapseAll, hcollapse]
  rfl

theorem closeGroup_of_call
    (hcollapse : collapseAll frames tree = (.call opening name args :: rest, operand)) :
    ((Frame.work frames).add tree).closeGroup (entries frames) =
      .ok (some ⟨opening, some (name, Tree.roots args (Frame.work rest).nodes.size)⟩,
        ((Frame.work rest).addArgs args).add operand, entries rest) := by
  rw [closeGroup_eq_collapseAll, hcollapse]
  rfl

theorem finish_eq_collapseAll (frames : List Frame) (tree : Tree) :
    ((Frame.work frames).add tree).finish (entries frames) =
      ((Frame.work (collapseAll frames tree).1).add (collapseAll frames tree).2).finish
        (entries (collapseAll frames tree).1) := by
  induction frames generalizing tree with
  | nil => rfl
  | cons frame rest ih =>
      cases frame with
      | sign operator hsign =>
          simp only [entries, finish, Frame.work, apply_unary (isUnary_of_sign hsign)]
          exact ih _
      | binary operator hbinary left =>
          simp only [entries, finish, Frame.work, apply_binary hbinary]
          exact ih _
      | group opening => rfl
      | call opening name args => rfl

theorem finish_of_nil (hcollapse : collapseAll frames tree = ([], operand)) :
    ((Frame.work frames).add tree).finish (entries frames) = .ok (Work.start.add operand) := by
  rw [finish_eq_collapseAll, hcollapse]
  rfl

theorem addArgs_concat (work : Work) (args : List Tree) (tree : Tree) :
    (⟨((work.addArgs args).add tree).nodes, work.operands⟩ : Work) =
      work.addArgs (args ++ [tree]) := by
  apply eq_of_toList_nodes
  · simp [Tree.listings_append, Tree.listings]
  · rfl

theorem roots_concat (work : Work) (args : List Tree) (tree : Tree) :
    Tree.roots args work.nodes.size ++ [tree.root (work.addArgs args).nodes.size] =
      Tree.roots (args ++ [tree]) work.nodes.size := by
  simp [Tree.roots_append, Tree.roots]

end Work

end Reckon
