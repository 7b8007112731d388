import Reckon.Proofs.Expr.Brackets
import Reckon.Proofs.Expr.Rejection

/-
Beginnings of expressions that end in the same token again and again.  A sign and an opening
parenthesis can stand behind themselves where an operand is due, an exclamation mark where none is;
a closing parenthesis can too, but only as often as one is open.  No other token can stand behind
itself.
-/

namespace Reckon

open ReadState Reckon.Frame

/-- An end of the input. -/
def Token.ending : Token := ⟨.eof, "", ⟨Location.origin, Location.origin⟩⟩

/-- The marks that can stand behind themselves without end. -/
def endlessMarks : List Symbol := [.plus, .minus, .leftParen, .bang]

/-- Tokens that end in this one, with so many more of it behind. -/
def repeating (front : List Token) (last : Token) (count : Nat) : List Token :=
  front ++ List.replicate (count + 1) last

section

variable {front : List Token} {last : Token} {count more : Nat}

@[simp] theorem length_repeating (front : List Token) (last : Token) (count : Nat) :
    (repeating front last count).length = front.length + count + 1 := by
  simp [repeating, Nat.add_assoc]

theorem lt_length_repeating (front : List Token) (last : Token) (position : Nat) :
    position + 1 < (repeating front last (position + 1)).length := by
  rw [length_repeating]
  omega

theorem repeating_succ (front : List Token) (last : Token) (count : Nat) :
    repeating front last (count + 1) = repeating front last count ++ [last] := by
  rw [repeating, List.replicate_succ', ← List.append_assoc]
  rfl

/-- There is always one of the token in front of those that are added. -/
theorem exists_repeating_eq (front : List Token) (last : Token) (count : Nat) :
    ∃ init, repeating front last count = init ++ [last] := by
  cases count with
  | zero => exact ⟨front, rfl⟩
  | succ count => exact ⟨_, repeating_succ front last count⟩

theorem prefix_repeating (hcount : count ≤ more) :
    repeating front last count <+: repeating front last more := by
  obtain ⟨rest, rfl⟩ := Nat.exists_eq_add_of_le hcount
  refine ⟨List.replicate rest last, ?_⟩
  rw [repeating, repeating, List.append_assoc, List.replicate_append_replicate,
    Nat.add_right_comm]

theorem kind_of_mem_repeating (htokens : ∀ token ∈ front ++ [last], token.kind ≠ .eof) :
    ∀ token ∈ repeating front last count, token.kind ≠ .eof := by
  intro token htoken
  apply htokens
  rcases List.mem_append.mp htoken with hmem | hmem
  · exact List.mem_append_left _ hmem
  · rw [List.eq_of_mem_replicate hmem]
    exact List.mem_concat_self

end

section

variable {body read word front more : List Token} {frames : List Frame} {tree : Tree}
  {token last closing : Token} {previous : Option Token}
  {outer : List Bracket}

/-- Nothing but the end of the input ends a reading with nodes. -/
theorem ReadState.step_ne_nodes {tokens : Array Token} {state : ReadState}
    (htoken : tokenAt? tokens state.position = some token) (hkind : token.kind ≠ .eof)
    (nodes : Array (Node Nat)) : step tokens state ≠ .ok (.inr nodes) := by
  have hmap : ∀ result : Except ParseFailure ReadState,
      result.map Sum.inl ≠ (.ok (.inr nodes) : Except ParseFailure (ReadState ⊕ _)) := by
    intro result
    cases result <;> simp [Except.map]
  simp only [step, htoken, isEof_eq_false hkind, Bool.false_eq_true, ↓reduceIte]
  cases state.expecting with
  | operand => exact hmap _
  | operator => exact hmap _

/-- Tokens are no beginning of an expression if a pass fails before their end. -/
theorem not_viable_of_error_within {eof : Token} {state : ReadState} {failure : ParseFailure}
    (hend : eof.kind = .eof) (hbody : ∀ token ∈ body, token.kind ≠ .eof)
    (hreaches : Reaches (body ++ [eof]).toArray ReadState.start state)
    (hposition : state.position < body.length)
    (hstep : step (body ++ [eof]).toArray state = .error failure) : ¬Viable body := by
  intro hviable
  have hlength : (body.take state.position).length = state.position :=
    List.length_take_of_le hposition.le
  have hsplit : body = body.take state.position ++
      body[state.position] :: body.drop (state.position + 1) := by simp
  apply not_viable_of_error hend hbody hsplit hreaches hlength.symm hstep
  rw [hsplit, List.append_cons] at hviable
  exact hviable.of_append

/-- The beginning of an expression is read up to its end. -/
theorem Viable.exists_standing (hbody : ∀ token ∈ body, token.kind ≠ .eof)
    (hviable : Viable body) :
    ∃ state, Standing body state ∧ state.position = body.length := by
  have hend : Token.ending.kind = .eof := rfl
  -- A pass that does not go on either rejects a token or stands at the end of the input.
  rcases run_passLimit hend hbody with ⟨error, hrun⟩ | ⟨tree, hexpr, -⟩
  · obtain ⟨state, hreaches, hstep⟩ := exists_reaches_of_run hrun
    have hstanding := standing_of_reaches hend hbody hreaches
    refine ⟨state, hstanding, ?_⟩
    apply hstanding.position_le.eq_of_not_lt
    intro hlt
    exact not_viable_of_error_within hend hbody hreaches hlt hstep hviable
  · obtain ⟨state, hreaches, -, hstep⟩ := hexpr.exists_finish hend
    have hstanding := standing_of_reaches hend hbody hreaches
    refine ⟨state, hstanding, ?_⟩
    apply hstanding.position_le.eq_of_not_lt
    intro hlt
    exact step_ne_nodes (tokenAt?_of_getElem? (getElem?_front hlt _))
      (hbody _ (List.getElem_mem hlt)) _ hstep

/-- Behind the beginning of an expression an operand is due, or it ends with one. -/
theorem Viable.cases (hbody : ∀ token ∈ body, token.kind ≠ .eof) (hviable : Viable body) :
    (∃ frames, Opened body frames) ∨
    ∃ read word frames tree, body = read ++ word ∧ Opened read frames ∧
      Derives .factorial word tree := by
  obtain ⟨state, hstanding, hposition⟩ := hviable.exists_standing hbody
  cases hstanding with
  | awaiting hopened hread =>
      rw [← hread.eq_of_length hposition]
      exact .inl ⟨_, hopened⟩
  | holding hopened hword hread =>
      exact .inr ⟨_, _, _, _, (hread.eq_of_length hposition).symm, hopened, hword⟩

/-- What leaves an operand due where one was due already is a sign or an opening parenthesis. -/
theorem Opened.mark_of_operandDue (hopened : Opened (read ++ [last]) frames)
    (hdue : Reckon.operandDue read.getLast? = true) :
    ∃ mark ∈ endlessMarks, last.kind = .symbol mark := by
  generalize hwhole : read ++ [last] = whole at hopened
  have hlast : ∀ {before mark}, read ++ [last] = before ++ [mark] →
      read = before ∧ last = mark := by
    intro before mark hsplit
    obtain ⟨hread, hmark⟩ := List.append_inj' hsplit rfl
    exact ⟨hread, List.singleton_inj.mp hmark⟩
  cases hopened with
  | start => simp at hwhole
  | sign _ hmark hoperator _ =>
      rw [(hlast hwhole).2]
      refine ⟨_, ?_, hmark⟩
      simp only [signs, List.mem_cons, Prod.mk.injEq, List.not_mem_nil, or_false] at hoperator
      rcases hoperator with ⟨rfl, -⟩ | ⟨rfl, -⟩ <;> decide
  | binary _ hleft _ _ _ _ =>
      rw [(hlast hwhole).1, operandDue_append _ hleft.operandDue] at hdue
      cases hdue
  | group _ hopening =>
      rw [(hlast hwhole).2]
      exact ⟨_, by decide, hopening⟩
  | call _ _ hopening =>
      rw [(hlast (hwhole.trans (List.append_cons _ _ _))).2]
      exact ⟨_, by decide, hopening⟩
  | @next before word _ title opening _ _ _ _ _ _ hargs _ =>
      have hword : Reckon.operandDue (title :: opening :: word).getLast? = false :=
        operandDue_append [title, opening] hargs.operandDue
      rw [(hlast hwhole).1, operandDue_append _ hword] at hdue
      cases hdue

/-- A factorial is one token, or ends with an exclamation mark or a closing parenthesis. -/
theorem Derives.last_of_factorial (hword : Derives .factorial word tree) :
    (∃ token, word = [token]) ∨
    ∃ init last, word = init ++ [last] ∧
      (last.kind = .symbol .bang ∨ last.kind = .symbol .rightParen) := by
  cases hword with
  | bang _ hmark => exact .inr ⟨_, _, rfl, .inl hmark⟩
  | primary hprimary =>
      cases hprimary with
      | number _ => exact .inl ⟨_, rfl⟩
      | name _ => exact .inl ⟨_, rfl⟩
      | emptyCall _ _ hclosing => exact .inr ⟨[_, _], _, rfl, .inr hclosing⟩
      | call _ _ _ hclosing => exact .inr ⟨_, _, rfl, .inr hclosing⟩
      | group _ _ hclosing => exact .inr ⟨_, _, rfl, .inr hclosing⟩

/-- What stands behind itself is one of the endless marks or a closing parenthesis. -/
theorem Viable.mark_of_twice (hbody : ∀ token ∈ front ++ [last] ++ [last], token.kind ≠ .eof)
    (hviable : Viable (front ++ [last] ++ [last])) :
    (∃ mark ∈ endlessMarks, last.kind = .symbol mark) ∨ last.kind = .symbol .rightParen := by
  rcases hviable.cases hbody with ⟨frames, hopened⟩ | ⟨read, word, frames, tree, hsplit, hopened,
    hword⟩
  · have hdue := hopened.operandDue
    rw [operandDue_concat] at hdue
    apply Or.inl
    apply hopened.mark_of_operandDue
    rwa [operandDue_concat]
  · have hdue := operandDue_append read hword.operandDue
    rw [← hsplit, operandDue_concat] at hdue
    rcases hword.last_of_factorial with ⟨token, rfl⟩ | ⟨init, final, rfl, hfinal⟩
    · -- The last token is the whole operand, and in front of it an operand is due.
      have hread := hopened.operandDue
      rw [← (List.append_inj' hsplit rfl).1, operandDue_concat, hdue] at hread
      cases hread
    · rw [← List.append_assoc] at hsplit
      rw [List.singleton_inj.mp (List.append_inj' hsplit rfl).2]
      exact hfinal.imp (fun hkind => ⟨_, by decide, hkind⟩) id

/-- An endless mark can stand behind itself once more. -/
theorem Viable.concat_last (hbody : ∀ token ∈ front ++ [last], token.kind ≠ .eof)
    (hviable : Viable (front ++ [last])) {mark : Symbol} (hmark : mark ∈ endlessMarks)
    (hkind : last.kind = .symbol mark) : Viable (front ++ [last] ++ [last]) := by
  simp only [endlessMarks, List.mem_cons, List.not_mem_nil, or_false] at hmark
  rcases hviable.cases hbody with ⟨frames, hopened⟩ | ⟨read, word, frames, tree, hsplit, hopened,
    hword⟩
  · rcases hmark with rfl | rfl | rfl | rfl
    · exact (hopened.sign hkind (by decide) (.inr rfl)).viable_awaiting
    · exact (hopened.sign hkind (by decide) (.inl rfl)).viable_awaiting
    · exact (hopened.group hkind).viable_awaiting
    · have hdue := hopened.operandDue
      rw [operandDue_concat, hkind] at hdue
      cases hdue
  · have hdue := operandDue_append read hword.operandDue
    rw [← hsplit, operandDue_concat, hkind] at hdue
    rcases hmark with rfl | rfl | rfl | rfl
    · cases hdue
    · cases hdue
    · cases hdue
    · rw [hsplit, List.append_assoc]
      exact hopened.viable (hword.bang hkind)

/-- No token opens more than one parenthesis. -/
theorem length_openFrom_le (previous : Option Token) (outer : List Bracket) (word : List Token) :
    (openFrom previous outer word).length ≤ outer.length + word.length := by
  induction word generalizing previous outer with
  | nil => exact Nat.le_refl _
  | cons token rest ih =>
      rw [openFrom, List.length_cons]
      split
      · refine (ih _ _).trans ?_
        rw [List.length_cons]
        omega
      · refine (ih _ _).trans ?_
        rw [List.length_tail]
        omega
      · refine (ih _ _).trans ?_
        omega

/-- A closing parenthesis after the other closes what is open. -/
theorem openFrom_replicate (hclosing : closing.kind = .symbol .rightParen) (count : Nat) :
    openFrom previous outer (List.replicate count closing) = outer.drop count := by
  induction count generalizing previous outer with
  | zero => rfl
  | succ count ih => rw [List.replicate_succ, openFrom_closing hclosing, ih, List.drop_tail]

/-- Tokens that are not many enough to open so many parentheses cannot have them closed. -/
theorem Viable.length_closings_le {count : Nat} (hclosing : closing.kind = .symbol .rightParen)
    (hviable : Viable (front ++ List.replicate count closing)) : count ≤ front.length := by
  apply Nat.le_of_not_lt
  intro hlt
  obtain ⟨more, tree, hexpr⟩ := hviable
  -- However many parentheses have been open in front, all are closed and none is opened again.
  have hclosed : ∀ outer : List Bracket, outer.length ≤ 1 →
      openFrom none outer (front ++ List.replicate count closing) = [] := by
    intro outer houter
    rw [openFrom_append, openFrom_replicate hclosing, List.drop_eq_nil_iff]
    refine (length_openFrom_le none outer front).trans ?_
    omega
  have hbalanced := hexpr.balanced
  have hsame : ∀ outer : List Bracket, outer.length ≤ 1 → outer = [] := by
    intro outer houter
    have hnone := hbalanced none []
    have hopen := hbalanced none outer
    rw [openFrom_append, hclosed _ houter] at hopen
    rw [openFrom_append, hclosed [] (Nat.zero_le 1)] at hnone
    exact hopen.symm.trans hnone
  cases hsame [⟨closing, false⟩] (Nat.le_refl 1)

end

section

variable {front : List Token} {last : Token} {count : Nat}

/-- A token that is repeated more often than there are tokens is an endless mark. -/
theorem mark_of_viable_repeating (htokens : ∀ token ∈ front ++ [last], token.kind ≠ .eof)
    (hcount : front.length < count) (hviable : Viable (repeating front last count)) :
    ∃ mark ∈ endlessMarks, last.kind = .symbol mark := by
  have hone : repeating front last 1 = front ++ [last] ++ [last] := repeating_succ front last 0
  have hbody : ∀ token ∈ repeating front last 1, token.kind ≠ .eof :=
    kind_of_mem_repeating htokens
  have htwice : Viable (repeating front last 1) := by
    obtain ⟨rest, hrest⟩ : repeating front last 1 <+: repeating front last count :=
      prefix_repeating (by omega)
    rw [← hrest] at hviable
    exact hviable.of_append
  rw [hone] at hbody htwice
  rcases htwice.mark_of_twice hbody with hmark | hclosing
  · exact hmark
  · have hclosings : count + 1 ≤ front.length := hviable.length_closings_le hclosing
    omega

/-- Tokens that end in an endless mark can be continued however often it is repeated, and tokens
that end in another one cannot. -/
theorem viable_repeating_iff (htokens : ∀ token ∈ front ++ [last], token.kind ≠ .eof) :
    (∀ count, Viable (repeating front last count)) ↔
      Viable (front ++ [last]) ∧ ∃ mark ∈ endlessMarks, last.kind = .symbol mark := by
  constructor
  · intro hviable
    exact ⟨hviable 0, mark_of_viable_repeating htokens (Nat.lt_succ_self _) (hviable _)⟩
  · rintro ⟨hviable, mark, hmark, hkind⟩ count
    induction count with
    | zero => exact hviable
    | succ count ih =>
        obtain ⟨init, hinit⟩ := exists_repeating_eq front last count
        have hbody : ∀ token ∈ repeating front last count, token.kind ≠ .eof :=
          kind_of_mem_repeating htokens
        rw [repeating_succ]
        rw [hinit] at ih hbody ⊢
        exact ih.concat_last hbody hmark hkind

end

end Reckon
