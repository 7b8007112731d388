import Reckon.Proofs.Expr.Blame
import Reckon.Proofs.Expr.Repetition

/-
Tokens with or without an end of the input.  Nothing behind the first end of the input counts.
Without one the last token is read again and again: the reader does what it would do if there were
as many more of it as it comes to read.
-/

namespace Reckon

open ReadState Reckon.Frame

/-- However many passes there are, the reading does not come to its end. -/
def ReadsForever (tokens : List Token) : Prop :=
  ∀ passes, ReadState.run tokens.toArray passes ReadState.start = none

section

variable {front : List Token} {last token eof : Token} {count index passes : Nat}
  {state : ReadState}

theorem tokenAt?_front (hindex : index < front.length) :
    tokenAt? (front ++ [last]).toArray index = some front[index] :=
  tokenAt?_of_getElem? (getElem?_front hindex [last])

/-- Behind the tokens there is the last one. -/
theorem tokenAt?_behind (hindex : front.length ≤ index) :
    tokenAt? (front ++ [last]).toArray index = some last := by
  rcases Nat.eq_or_lt_of_le hindex with rfl | hlt
  · simp [tokenAt?]
  · have hnone : (front ++ [last]).toArray[index]? = none := by simp; omega
    simp [tokenAt?, hnone]

/-- A token that is read is the one that stands there if the last one is repeated. -/
theorem getElem?_repeating (hindex : index < (repeating front last count).length) (eof : Token) :
    (repeating front last count ++ [eof]).toArray[index]? =
      tokenAt? (front ++ [last]).toArray index := by
  rw [getElem?_front hindex]
  rcases Nat.lt_or_ge index front.length with hlt | hge
  · rw [tokenAt?_front hlt]
    simp only [repeating, List.getElem_append_left hlt]
  · rw [tokenAt?_behind hge]
    simp only [repeating, List.getElem_append_right hge, List.getElem_replicate]

theorem tokenAt?_repeating (hindex : index < (repeating front last count).length) (eof : Token) :
    tokenAt? (front ++ [last]).toArray index =
      tokenAt? (repeating front last count ++ [eof]).toArray index := by
  have htoken := getElem?_front hindex [eof]
  rw [← getElem?_repeating hindex eof, tokenAt?_of_getElem? htoken, htoken]

/-- Where an operand is due behind a token that has been read again, it is a sign or an opening
parenthesis. -/
theorem Standing.mark_of_awaiting (hstanding : Standing (repeating front last count) state)
    (hexpecting : state.expecting = .operand) (hposition : front.length + 1 < state.position) :
    ∃ mark ∈ endlessMarks, last.kind = .symbol mark ∧ last.kind.awaitsOperand = true := by
  cases hstanding with
  | holding _ _ _ => cases hexpecting
  | @awaiting read frames hopened hread =>
      obtain ⟨more, hmore⟩ := Nat.exists_eq_add_of_lt hposition
      have hlength : read.length = front.length + 1 + more + 1 := hmore
      have hcount : more + 1 ≤ count := by
        have hle := hread.length_le
        rw [length_repeating] at hle
        omega
      have hsame : read = repeating front last more ++ [last] := by
        rw [← repeating_succ]
        apply (List.prefix_of_prefix_length_le hread (prefix_repeating hcount) _).eq_of_length
        all_goals
          rw [length_repeating]
          omega
      obtain ⟨init, hinit⟩ := exists_repeating_eq front last more
      have hdue := hopened.operandDue
      rw [hsame, operandDue_concat] at hdue
      rw [hsame, hinit] at hopened
      obtain ⟨mark, hmark, hkind⟩ :=
        hopened.mark_of_operandDue (by rw [operandDue_concat, hdue])
      exact ⟨mark, hmark, hkind, hdue⟩

/-- Where an operand is due, a sign or an opening parenthesis is taken for itself. -/
theorem takeOperand_mark {tokens others : Array Token} {mark : Symbol}
    (hmark : mark ∈ endlessMarks) (hkind : token.kind = .symbol mark)
    (hdue : token.kind.awaitsOperand = true) :
    takeOperand tokens state token = takeOperand others state token := by
  rw [takeOperand, takeOperand]
  simp only [endlessMarks, List.mem_cons, List.not_mem_nil, or_false] at hmark
  rcases hmark with rfl | rfl | rfl | rfl
  · simp only [hkind]
    rfl
  · simp only [hkind]
    rfl
  · simp only [hkind]
  · rw [hkind] at hdue
    cases hdue

/-- An operand is taken as it is if the last token is repeated. -/
theorem takeOperand_repeating (hstanding : Standing (repeating front last count) state)
    (hexpecting : state.expecting = .operand)
    (hwithin : state.position + 1 < (repeating front last count).length) (eof : Token)
    (htoken : tokenAt? (front ++ [last]).toArray state.position = some token) :
    takeOperand (front ++ [last]).toArray { state with position := state.position + 1 } token =
      takeOperand (repeating front last count ++ [eof]).toArray
        { state with position := state.position + 1 } token := by
  rcases Nat.lt_or_ge (front.length + 1) state.position with hbehind | hinside
  · -- The token before is not among the tokens any more, but it does not matter.
    obtain ⟨mark, hmark, hkind, hdue⟩ := hstanding.mark_of_awaiting hexpecting hbehind
    rw [tokenAt?_behind (by omega), Option.some_inj] at htoken
    rw [htoken] at hkind hdue
    exact takeOperand_mark hmark hkind hdue
  · apply takeOperand_congr
    · have hbefore : state.position - 1 < (front ++ [last]).length := by simp; omega
      change (front ++ [last]).toArray[state.position - 1]? =
        (repeating front last count ++ [eof]).toArray[state.position - 1]?
      rw [getElem?_repeating (by omega) eof, tokenAt?, List.getElem?_toArray,
        List.getElem?_eq_getElem hbefore]
    · intro _ _
      exact tokenAt?_repeating hwithin eof

/-- Behind the end the reader does what it does if the last token is repeated. -/
theorem step_repeating (htokens : ∀ token ∈ front ++ [last], token.kind ≠ .eof)
    (hstanding : Standing (repeating front last count) state)
    (hwithin : state.position + 1 < (repeating front last count).length) (eof : Token) :
    step (front ++ [last]).toArray state =
      step (repeating front last count ++ [eof]).toArray state := by
  have hhere : state.position < (repeating front last count).length := Nat.lt_of_succ_lt hwithin
  have htoken : tokenAt? (front ++ [last]).toArray state.position =
      some (repeating front last count)[state.position] := by
    rw [← getElem?_repeating hhere eof, getElem?_front hhere]
  have heof : (repeating front last count)[state.position].isEof = false :=
    isEof_eq_false (kind_of_mem_repeating htokens _ (List.getElem_mem hhere))
  simp only [step, ← tokenAt?_repeating hhere eof, htoken, heof, Bool.false_eq_true, ↓reduceIte]
  cases hexpecting : state.expecting with
  | operator => rfl
  | operand =>
      have htaken := takeOperand_repeating hstanding hexpecting hwithin eof htoken
      rw [hexpecting] at htaken
      exact congrArg (Except.map Sum.inl) htaken

/-- A pass without an end of the input rejects its token or goes on. -/
theorem Standing.step_cases (htokens : ∀ token ∈ front ++ [last], token.kind ≠ .eof)
    (hstanding : Standing (repeating front last count) state)
    (hwithin : state.position + 1 < (repeating front last count).length) :
    (∃ error, step (front ++ [last]).toArray state = .error (.rejected error)) ∨
    ∃ next, step (front ++ [last]).toArray state = .ok (.inl next) ∧
      state.position < next.position := by
  have hbody : ∀ token ∈ repeating front last count, token.kind ≠ .eof :=
    kind_of_mem_repeating htokens
  have hhere : state.position < (repeating front last count).length := Nat.lt_of_succ_lt hwithin
  have houtcome := hstanding.outcome (show Token.ending.kind = .eof from rfl) hbody
  rw [← step_repeating htokens hstanding hwithin] at houtcome
  cases hstep : step (front ++ [last]).toArray state with
  | error failure =>
      rw [hstep] at houtcome
      obtain ⟨error, rfl⟩ := houtcome
      exact .inl ⟨error, rfl⟩
  | ok result =>
      rw [hstep] at houtcome
      cases result with
      | inl next => exact .inr ⟨next, rfl, houtcome.2⟩
      | inr nodes =>
          rw [step_repeating htokens hstanding hwithin .ending] at hstep
          exact absurd hstep (step_ne_nodes (tokenAt?_of_getElem? (getElem?_front hhere _))
            (hbody _ (List.getElem_mem hhere)) nodes)

/-- The states of a reading are those with the last token repeated often enough. -/
theorem reaches_repeating (htokens : ∀ token ∈ front ++ [last], token.kind ≠ .eof)
    (hreaches : Reaches (front ++ [last]).toArray ReadState.start state) (count : Nat)
    (hwithin : state.position + 1 < (repeating front last count).length) :
    Reaches (repeating front last count ++ [Token.ending]).toArray ReadState.start state := by
  have hend : Token.ending.kind = .eof := rfl
  induction hreaches generalizing count with
  | refl => exact .refl
  | @tail first next _ hstep ih =>
      -- With enough tokens the step from the first state shows that it stands in front of the next.
      have hlonger := lt_length_repeating front last first.position
      have hfirst := standing_of_reaches hend (kind_of_mem_repeating htokens) (ih _ hlonger)
      have hposition : first.position < next.position := by
        rcases hfirst.step_cases htokens hlonger with ⟨error, herror⟩ | ⟨other, hother, hlt⟩
        · rw [hstep] at herror
          cases herror
        · rw [hstep] at hother
          cases hother
          exact hlt
      have hbefore : first.position + 1 < (repeating front last count).length := by omega
      have hthere := ih count hbefore
      have hstanding := standing_of_reaches hend (kind_of_mem_repeating htokens) hthere
      apply hthere.tail
      rw [← step_repeating htokens hstanding hbefore, hstep]

theorem standing_repeating (htokens : ∀ token ∈ front ++ [last], token.kind ≠ .eof)
    (hreaches : Reaches (front ++ [last]).toArray ReadState.start state)
    (hwithin : state.position + 1 < (repeating front last count).length) :
    Standing (repeating front last count) state :=
  standing_of_reaches rfl (kind_of_mem_repeating htokens)
    (reaches_repeating htokens hreaches count hwithin)

/-- However many passes there are, they reject a token, or come to a state as far behind. -/
theorem run_cases (htokens : ∀ token ∈ front ++ [last], token.kind ≠ .eof)
    (hreaches : Reaches (front ++ [last]).toArray ReadState.start state) (passes : Nat) :
    (∃ error, ReadState.run (front ++ [last]).toArray passes state =
      some (.error (.rejected error))) ∨
    ReadState.run (front ++ [last]).toArray passes state = none ∧
      ∃ next, Reaches (front ++ [last]).toArray ReadState.start next ∧
        state.position + passes ≤ next.position := by
  induction passes generalizing state with
  | zero => exact .inr ⟨rfl, state, hreaches, Nat.le_refl _⟩
  | succ passes ih =>
      have hwithin := lt_length_repeating front last state.position
      have hstanding := standing_repeating htokens hreaches hwithin
      simp only [ReadState.run]
      rcases hstanding.step_cases htokens hwithin with ⟨error, hstep⟩ | ⟨next, hstep, hlt⟩
      · exact .inl ⟨error, by rw [hstep]⟩
      · rw [hstep]
        rcases ih (hreaches.tail hstep) with hrejected | ⟨hrun, final, hfinal, hle⟩
        · exact .inl hrejected
        · exact .inr ⟨hrun, final, hfinal, by omega⟩

/-- What is read behind the end can be continued. -/
theorem viable_of_reaches (htokens : ∀ token ∈ front ++ [last], token.kind ≠ .eof)
    (hreaches : Reaches (front ++ [last]).toArray ReadState.start state)
    (hposition : (repeating front last count).length ≤ state.position) :
    Viable (repeating front last count) := by
  have hwithin := lt_length_repeating front last state.position
  have hstanding := standing_repeating htokens hreaches hwithin
  obtain ⟨rest, hrest⟩ : repeating front last count <+:
      (repeating front last (state.position + 1)).take state.position := by
    rw [List.prefix_take_iff]
    refine ⟨prefix_repeating ?_, hposition⟩
    rw [length_repeating] at hposition
    omega
  have hviable := hstanding.viable
  rw [← hrest] at hviable
  exact hviable.of_append

/-- If a token is rejected, the last one cannot be repeated so often that it is read. -/
theorem not_viable_of_run (htokens : ∀ token ∈ front ++ [last], token.kind ≠ .eof)
    {failure : ParseFailure}
    (hrun : ReadState.run (front ++ [last]).toArray passes ReadState.start =
      some (.error failure)) : ∃ count, ¬Viable (repeating front last count) := by
  obtain ⟨state, hreaches, hstep⟩ := exists_reaches_of_run hrun
  have hwithin := lt_length_repeating front last state.position
  have hstanding := standing_repeating htokens hreaches hwithin
  rw [step_repeating htokens hstanding hwithin .ending] at hstep
  exact ⟨_, not_viable_of_error_within rfl (kind_of_mem_repeating htokens)
    (reaches_repeating htokens hreaches _ hwithin) (Nat.lt_of_succ_lt hwithin) hstep⟩

/-- The reading goes on for ever if the tokens can be continued by the last one for ever. -/
theorem readsForever_iff_viable (htokens : ∀ token ∈ front ++ [last], token.kind ≠ .eof) :
    ReadsForever (front ++ [last]) ↔ ∀ count, Viable (repeating front last count) := by
  constructor
  · intro hforever count
    rcases run_cases htokens .refl (repeating front last count).length with
      ⟨error, hrun⟩ | ⟨-, state, hreaches, hposition⟩
    · rw [hforever] at hrun
      cases hrun
    · apply viable_of_reaches htokens hreaches
      exact (Nat.le_add_left _ _).trans hposition
  · intro hviable passes
    rcases run_cases htokens .refl passes with ⟨error, hrun⟩ | ⟨hrun, -⟩
    · obtain ⟨count, hrefused⟩ := not_viable_of_run htokens hrun
      exact absurd (hviable count) hrefused
    · exact hrun

/-- A reading that has not come to its end after the passes that are allowed for never does. -/
theorem readsForever_of_run (htokens : ∀ token ∈ front ++ [last], token.kind ≠ .eof)
    (hrun : ReadState.run (front ++ [last]).toArray (passLimit (front ++ [last]).toArray)
      ReadState.start = none) : ReadsForever (front ++ [last]) := by
  rcases run_cases htokens .refl (passLimit (front ++ [last]).toArray) with
    ⟨error, herror⟩ | ⟨-, state, hreaches, hposition⟩
  · rw [hrun] at herror
    cases herror
  · have hfar : 2 * front.length + 5 ≤ state.position := by
      simp only [passLimit, List.size_toArray, List.length_append, List.length_singleton]
        at hposition
      omega
    have hviable : ∀ count ≤ front.length + 1, Viable (repeating front last count) := by
      intro count hcount
      apply viable_of_reaches htokens hreaches
      rw [length_repeating]
      omega
    rw [readsForever_iff_viable htokens, viable_repeating_iff htokens]
    exact ⟨hviable 0 (Nat.zero_le _),
      mark_of_viable_repeating htokens (Nat.lt_succ_self _) (hviable _ (Nat.le_refl _))⟩

/-- Tokens without an end of the input are read for ever or rejected. -/
theorem parseTokens_of_no_eof (htokens : ∀ token ∈ front ++ [last], token.kind ≠ .eof)
    (source : Option String) :
    ReadsForever (front ++ [last]) ∧
      parseTokens (front ++ [last]) source = .error .endless ∨
    ¬ReadsForever (front ++ [last]) ∧
      ∃ error, parseTokens (front ++ [last]) source = .error (.rejected error) := by
  rcases run_cases htokens .refl (passLimit (front ++ [last]).toArray) with
    ⟨error, hrun⟩ | ⟨hrun, -⟩
  · refine .inr ⟨?_, ?_⟩
    · intro hforever
      rw [hforever] at hrun
      cases hrun
    · rw [parseTokens, hrun]
      exact ⟨_, rfl⟩
  · refine .inl ⟨readsForever_of_run htokens hrun, ?_⟩
    rw [parseTokens, hrun]

end

/-- Any tokens, with the end of the input anywhere or nowhere.  If it is there, the reading ends
after at most as many passes as there are tokens up to its first place, and the result is that of
these tokens alone.  If it is not there, no pass fails but for an error of the text and none ends
the reading with an expression; the reading goes on for ever exactly if the tokens are the beginning
of an expression and their last one is an endless mark. -/
theorem parseTokens_ends_iff (tokens : List Token) (source : Option String) (hne : tokens ≠ []) :
    ((∃ token ∈ tokens, token.kind = .eof) →
      ∃ body eof rest, tokens = body ++ eof :: rest ∧ eof.kind = .eof ∧
        (∀ token ∈ body, token.kind ≠ .eof) ∧
        (∃ result, ReadState.run tokens.toArray (body.length + 1) ReadState.start = some result) ∧
        parseTokens tokens source = parseTokens (body ++ [eof]) source ∧
        ((∃ expr, parseTokens tokens source = .ok expr) ∨
          ∃ error, parseTokens tokens source = .error (.rejected error))) ∧
    ((∀ token ∈ tokens, token.kind ≠ .eof) →
      (∀ passes result, ReadState.run tokens.toArray passes ReadState.start = some result →
        ∃ error, result = .error (.rejected error)) ∧
      (ReadsForever tokens ↔
        Viable tokens ∧ ∃ last ∈ tokens.getLast?, ∃ mark ∈ endlessMarks,
          last.kind = .symbol mark) ∧
      (parseTokens tokens source = .error .endless ↔ ReadsForever tokens) ∧
      (¬ReadsForever tokens → ∃ error, parseTokens tokens source = .error (.rejected error))) := by
  constructor
  · intro heof
    obtain ⟨body, eof, rest, rfl, hend, hbody⟩ := exists_split_eof heof
    have hsame := parseTokens_behind_eof hend hbody rest source
    refine ⟨body, eof, rest, rfl, hend, hbody, ?_, hsame, ?_⟩
    · rw [run_behind_eof hend hbody (Standing.start body)]
      rcases (Standing.start body).run hend hbody (body.length + 1) (by omega) with
        ⟨error, hrun⟩ | ⟨tree, -, hrun⟩
      · exact ⟨_, hrun⟩
      · exact ⟨_, hrun⟩
    · rw [hsame]
      rcases parseTokens_cases hend hbody source with ⟨error, hparse⟩ | ⟨tree, -, hparse⟩
      · exact .inr ⟨error, hparse⟩
      · exact .inl ⟨_, hparse⟩
  · intro htokens
    obtain ⟨front, last, rfl⟩ := (List.eq_nil_or_concat' tokens).resolve_left hne
    refine ⟨?_, ?_, ?_, ?_⟩
    · intro passes result hresult
      rcases run_cases htokens .refl passes with ⟨error, hrun⟩ | ⟨hrun, -⟩
      · rw [hrun] at hresult
        exact ⟨error, (Option.some_inj.mp hresult).symm⟩
      · rw [hrun] at hresult
        cases hresult
    · simp only [readsForever_iff_viable htokens, viable_repeating_iff htokens,
        List.getLast?_concat, Option.mem_some_iff, exists_eq_left']
    · rcases parseTokens_of_no_eof htokens source with ⟨hforever, hparse⟩ | ⟨hends, error, hparse⟩
      · exact iff_of_true hparse hforever
      · refine iff_of_false ?_ hends
        rw [hparse]
        simp
    · intro hends
      rcases parseTokens_of_no_eof htokens source with ⟨hforever, -⟩ | ⟨-, hrejected⟩
      · exact absurd hforever hends
      · exact hrejected

/-- The tokens of `a!`. -/
def bareFactorial : List Token :=
  [⟨.name "a", "a", placeOf 0⟩, ⟨.symbol .bang, "!", placeOf 1⟩]

theorem parseTokens_bareFactorial :
    ReadsForever bareFactorial ∧ parseTokens bareFactorial none = .error .endless := by
  have hword : Derives .factorial bareFactorial (.unary .fact (.var "a")) :=
    .bang (.primary (.name rfl)) rfl
  obtain ⟨-, hwithout⟩ := parseTokens_ends_iff bareFactorial none (by decide)
  obtain ⟨-, hforever, hendless, -⟩ := hwithout (by decide)
  have hreads : ReadsForever bareFactorial :=
    hforever.mpr ⟨Opened.start.viable hword, _, rfl, .bang, by decide, rfl⟩
  exact ⟨hreads, hendless.mpr hreads⟩

end Reckon
