import Reckon.Source
import Reckon.Text.Lines

/-
Lines against line numbers.  The number of a place counts line feeds alone, but the lines of a text
end at other characters too.  The two go together in front of a place as far as every break there
is a line feed, perhaps with a carriage return before it.
-/

namespace Reckon

variable {text before first second rest : List Char} {c : Char}

/-- How many lines of a text end without a line feed. -/
def strayBreaks : List Char → Nat
  | [] => 0
  | '\r' :: '\n' :: rest => strayBreaks rest
  | c :: rest => (if isLineBreak c = true ∧ c ≠ '\n' then 1 else 0) + strayBreaks rest

theorem textLines_crlf (rest : List Char) :
    textLines ('\r' :: '\n' :: rest) = [] :: textLines rest := by
  rw [textLines]

theorem textLines_break (hc : isLineBreak c = true)
    (hrest : ∀ more, c = '\r' → rest ≠ '\n' :: more) :
    textLines (c :: rest) = [] :: textLines rest := by
  rw [textLines, if_pos hc]
  exact fun more hcr hmore => hrest more hcr hmore

/-- A character that is no break stands on the line that follows it. -/
theorem textLines_cons (hc : isLineBreak c = false) (rest : List Char) :
    textLines (c :: rest) = (c :: (textLines rest).headD []) :: (textLines rest).tail := by
  have hcr : c ≠ '\r' := by
    rintro rfl
    cases hc
  rw [textLines]
  · rw [if_neg (by simp [hc])]
    cases textLines rest <;> rfl
  · exact fun _ hsame => absurd hsame hcr

theorem textLines_ne_nil (htext : text ≠ []) : textLines text ≠ [] := by
  fun_cases textLines text with
  | case1 => exact absurd rfl htext
  | _ => simp

theorem headD_textLines (text : List Char) :
    (textLines text).headD [] = text.takeWhile fun c => !isLineBreak c := by
  induction text using strayBreaks.induct with
  | case1 => rw [textLines_nil]; rfl
  | case2 rest ih => rw [textLines_crlf]; rfl
  | case3 c rest hcr ih =>
      cases hc : isLineBreak c with
      | true =>
          rw [textLines_break hc fun more hsame => hcr more hsame]
          simp [hc]
      | false =>
          rw [textLines_cons hc, List.takeWhile_cons_of_pos (by simp [hc]), ← ih]
          rfl

/-- The first line goes up to the first break. -/
theorem head?_textLines (htext : text ≠ []) :
    (textLines text).head? = some (text.takeWhile fun c => !isLineBreak c) := by
  rw [← headD_textLines]
  cases hlines : textLines text with
  | nil => exact absurd hlines (textLines_ne_nil htext)
  | cons line more => rfl

theorem strayBreaks_append (hsecond : '\n' ∉ second.head?) :
    strayBreaks (first ++ second) = strayBreaks first + strayBreaks second := by
  fun_induction strayBreaks first with
  | case1 => simp
  | case2 rest ih => simpa [strayBreaks] using ih
  | case3 c rest hcr ih =>
      rw [List.cons_append, strayBreaks, ih, Nat.add_assoc]
      intro more hsame hmore
      cases rest with
      | nil =>
          rw [List.nil_append] at hmore
          rw [hmore] at hsecond
          exact hsecond rfl
      | cons d rest =>
          cases hmore
          exact hcr rest hsame rfl

/-- Without line feeds every break is stray. -/
theorem strayBreaks_eq_zero_iff (htext : '\n' ∉ text) :
    strayBreaks text = 0 ↔ ∀ c ∈ text, isLineBreak c = false := by
  fun_induction strayBreaks text with
  | case1 => simp
  | case2 rest ih => simp at htext
  | case3 c rest hcr ih =>
      rw [List.mem_cons, not_or] at htext
      have hc : c ≠ '\n' := fun hsame => htext.1 hsame.symm
      simp [ih htext.2, hc]

theorem getLast?_of_cons {p : Char → Prop} (hlast : ∀ d ∈ (c :: rest).getLast?, p d) :
    ∀ d ∈ rest.getLast?, p d := by
  intro d hd
  apply hlast
  rw [List.getLast?_cons, Option.mem_def.mp hd]
  rfl

/-- Behind a line feed the lines begin anew, and those in front of it are as many as there are line
feeds and stray breaks. -/
theorem exists_textLines_append (hlast : ∀ c ∈ before.getLast?, c = '\n') (rest : List Char) :
    ∃ closed, closed.length = before.count '\n' + strayBreaks before ∧
      textLines (before ++ rest) = closed ++ textLines rest := by
  fun_induction strayBreaks before with
  | case1 => exact ⟨[], rfl, rfl⟩
  | case2 before ih =>
      obtain ⟨closed, hlength, hlines⟩ := ih (getLast?_of_cons (getLast?_of_cons hlast))
      refine ⟨[] :: closed, ?_, ?_⟩
      · simp [hlength]
        omega
      · rw [List.cons_append, List.cons_append, textLines_crlf, hlines, List.cons_append]
  | case3 c before hcr ih =>
      obtain ⟨closed, hlength, hlines⟩ := ih (getLast?_of_cons hlast)
      cases hc : isLineBreak c with
      | true =>
          have hopen : ∀ more, c = '\r' → before ++ rest ≠ '\n' :: more := by
            rintro more rfl hmore
            cases before with
            | nil => exact absurd (hlast '\r' rfl) (by decide)
            | cons d before =>
                cases hmore
                exact hcr before rfl rfl
          refine ⟨[] :: closed, ?_, ?_⟩
          · by_cases hfeed : c = '\n'
            · simp [hlength, hfeed]
              omega
            · simp [hlength, hfeed]
              omega
          · rw [List.cons_append, textLines_break hc hopen, hlines, List.cons_append]
      | false =>
          -- The line goes on, so that a closed one must come behind it.
          have hfeed : c ≠ '\n' := by
            rintro rfl
            cases hc
          have hmem : '\n' ∈ before := by
            cases hbefore : before.getLast? with
            | none =>
                rw [List.getLast?_eq_none_iff.mp hbefore] at hlast
                exact absurd (hlast c rfl) hfeed
            | some d =>
                rw [← getLast?_of_cons hlast d hbefore]
                exact List.mem_of_getLast? hbefore
          cases closed with
          | nil =>
              have hcount := List.count_pos_iff.mpr hmem
              rw [List.length_nil] at hlength
              omega
          | cons line closed =>
              refine ⟨(c :: line) :: closed, ?_, ?_⟩
              · simpa [hfeed] using hlength
              · rw [List.cons_append, textLines_cons hc, hlines]
                rfl

end Reckon
