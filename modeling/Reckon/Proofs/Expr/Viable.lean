import Reckon.Proofs.Expr.Soundness

/-
Beginnings of expressions.  Whatever the reader has read can be completed: if an operand is due, one
more token is that operand, and then every open parenthesis is closed.
-/

namespace Reckon

open ReadState Reckon.Frame

/-- Some continuation of these tokens is an expression. -/
def Viable (tokens : List Token) : Prop := ∃ more tree, Derives .expr (tokens ++ more) tree

theorem Viable.of_append {first second : List Token} (hviable : Viable (first ++ second)) :
    Viable first := by
  obtain ⟨more, tree, hexpr⟩ := hviable
  rw [List.append_assoc] at hexpr
  exact ⟨_, tree, hexpr⟩

/-- A collapse leaves no more frames than there were. -/
theorem Frame.length_collapse_le (binds : Operator → Bool) (frames : List Frame) (tree : Tree) :
    (collapse binds frames tree).1.length ≤ frames.length := by
  induction frames generalizing tree with
  | nil => exact Nat.le_refl _
  | cons frame rest ih =>
      cases frame with
      | sign operator hsign =>
          rw [collapse]
          split
          · exact Nat.le_succ_of_le (ih _)
          · exact Nat.le_refl _
      | binary operator hbinary left =>
          rw [collapse]
          split
          · exact Nat.le_succ_of_le (ih _)
          · exact Nat.le_refl _
      | group opening => exact Nat.le_refl _
      | call opening name args => exact Nat.le_refl _

namespace Token

/-- A closing parenthesis. -/
def closing : Token := ⟨.symbol .rightParen, ")", ⟨Location.origin, Location.origin⟩⟩

/-- A name as an operand. -/
def someOperand : Token := ⟨.name "x", "x", ⟨Location.origin, Location.origin⟩⟩

end Token

namespace Opened

variable {read word : List Token} {frames : List Frame} {tree : Tree}

/-- A closing parenthesis behind an operand makes one operand of the innermost group or call. -/
theorem close {frame : Frame} {rest : List Frame} {operand : Tree} (hopened : Opened read frames)
    (hword : Derives .factorial word tree)
    (hframes : collapseAll frames tree = (frame :: rest, operand)) :
    ∃ outer phrase whole, read ++ word ++ [Token.closing] = outer ++ phrase ∧
      Opened outer rest ∧ Derives .factorial phrase whole := by
  have hwaiting := waiting?_collapseAll frames tree
  obtain ⟨before, phrase, hread, hbefore, hexpr⟩ := hopened.splits_expr (.power (.factorial hword))
  rw [hframes] at hwaiting hbefore hexpr
  cases frame with
  | sign operator hsign => cases hwaiting
  | binary operator hbinary left => cases hwaiting
  | group opening =>
      cases hbefore with
      | group houter hopening =>
          refine ⟨_, opening :: phrase ++ [Token.closing], operand, ?_, houter,
            .primary (.group hopening hexpr rfl)⟩
          rw [hread]
          simp
  | call opening name args =>
      obtain ⟨first, title, arguments, hfirst, houter, htitle, hopening, hargs⟩ :=
        hbefore.argument hexpr
      refine ⟨first, title :: opening :: arguments ++ [Token.closing], _, ?_, houter,
        .primary (.call htitle hopening hargs rfl)⟩
      rw [hread, hfirst]
      simp

/-- Behind an operand it is enough to close the parentheses that are open. -/
theorem viable (hopened : Opened read frames) (hword : Derives .factorial word tree) :
    Viable (read ++ word) := by
  -- On the number of frames: those inside a parenthesis are gone once it is closed.
  induction hlength : frames.length using Nat.strongRecOn generalizing read word frames tree with
  | ind length ih =>
      match hframes : collapseAll frames tree with
      | ([], operand) =>
          obtain ⟨before, phrase, hread, hbefore, hexpr⟩ :=
            hopened.splits_expr (.power (.factorial hword))
          rw [hframes] at hbefore hexpr
          cases hbefore
          rw [hread]
          exact ⟨[], operand, by simpa using hexpr⟩
      | (frame :: rest, operand) =>
          obtain ⟨outer, phrase, whole, hread, houter, hwhole⟩ := hopened.close hword hframes
          have hfewer := length_collapse_le (fun _ => true) frames tree
          rw [← collapseAll, hframes, List.length_cons, hlength] at hfewer
          have hviable := ih rest.length hfewer houter hwhole rfl
          rw [← hread] at hviable
          exact hviable.of_append

/-- Where an operand is due, a name is one. -/
theorem viable_awaiting (hopened : Opened read frames) : Viable read := by
  have hname : Derives .factorial [Token.someOperand] (.var "x") := .primary (.name rfl)
  exact (hopened.viable hname).of_append

end Opened

/-- What has been read in a state of the reader can be completed. -/
theorem Standing.viable {body : List Token} {state : ReadState}
    (hstanding : Standing body state) : Viable (body.take state.position) := by
  cases hstanding with
  | awaiting hopened hread =>
      rw [ReadState.awaiting, ← List.prefix_iff_eq_take.mp hread]
      exact hopened.viable_awaiting
  | holding hopened hword hread =>
      rw [ReadState.holding, ← List.prefix_iff_eq_take.mp hread]
      exact hopened.viable hword

end Reckon
