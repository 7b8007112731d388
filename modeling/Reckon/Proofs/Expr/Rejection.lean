import Reckon.Proofs.Expr.Parse
import Reckon.Proofs.Expr.Viable

/-
Rejected tokens.  The reader looks no further than one token ahead, and only behind a name, which is
always accepted where an operand is due.  So it would reject a token whatever came behind it, and
the tokens up to a rejected one are the beginning of no expression.
-/

namespace Reckon

open ReadState Reckon.Frame

/-- If the text is rejected then this token is. -/
def RejectsAt {α : Type} (token : Token) (result : Except ParseFailure α) : Prop :=
  ∀ error, result = .error (.rejected error) → error.span = token.span

namespace RejectsAt

variable {α β : Type} {token : Token}

theorem ok (token : Token) (value : α) : RejectsAt token (.ok value) := by
  intro error herror
  cases herror

theorem noOperand (token : Token) :
    RejectsAt token (.error .noOperand : Except ParseFailure α) := by
  intro error herror
  cases herror

theorem bind {first : Except ParseFailure α} {next : α → Except ParseFailure β}
    (hfirst : RejectsAt token first) (hnext : ∀ value, RejectsAt token (next value)) :
    RejectsAt token (first >>= next) := by
  intro error herror
  cases first with
  | ok value => exact hnext value error herror
  | error failure =>
      cases herror
      exact hfirst error rfl

theorem map {result : Except ParseFailure α} (hresult : RejectsAt token result) (f : α → β) :
    RejectsAt token (result.map f) := by
  intro error herror
  cases result with
  | ok value => cases herror
  | error failure =>
      cases herror
      exact hresult error rfl

theorem reject (cause : SyntaxError.Cause) (token : Token) :
    RejectsAt token (ReadState.reject cause token : Except ParseFailure α) := by
  intro error herror
  cases herror
  rfl

theorem rejectUnexpected (expected : Expectation) (token : Token) :
    RejectsAt token (ReadState.rejectUnexpected expected token : Except ParseFailure α) := by
  rw [ReadState.rejectUnexpected]
  split
  · exact reject _ _
  · exact reject _ _

theorem pop (token : Token) (work : Work) : RejectsAt token work.pop := by
  rw [Work.pop]
  split
  · exact ok _ _
  · exact noOperand _

theorem apply (token : Token) (work : Work) (operator : Operator) :
    RejectsAt token (work.apply operator) := by
  rw [Work.apply]
  split
  · exact (pop token work).bind fun _ => ok _ _
  · exact (pop token work).bind fun _ => (pop token _).bind fun _ => ok _ _

theorem closeGroup (token : Token) (work : Work) (stack : List Entry) :
    RejectsAt token (work.closeGroup stack) := by
  induction stack generalizing work with
  | nil => exact ok _ _
  | cons entry rest ih =>
      cases entry with
      | group group => exact ok _ _
      | operator operator => exact (apply token work operator).bind ih

theorem applyBefore (token : Token) (work : Work) (new : Operator) (stack : List Entry) :
    RejectsAt token (work.applyBefore new stack) := by
  induction stack generalizing work with
  | nil => exact ok _ _
  | cons entry rest ih =>
      cases entry with
      | group group => exact ok _ _
      | operator waiting =>
          rw [Work.applyBefore]
          split
          · exact (apply token work waiting).bind ih
          · exact ok _ _

theorem tokenBefore? (token : Token) (tokens : Array Token) (state : ReadState) :
    RejectsAt token (ReadState.tokenBefore? tokens state) := by
  rw [ReadState.tokenBefore?]
  split
  · exact ok _ _
  · split
    · exact ok _ _
    · intro error herror
      cases herror

theorem takeMisplaced (tokens : Array Token) (state : ReadState) (token : Token) :
    RejectsAt token (ReadState.takeMisplaced tokens state token) := by
  refine (tokenBefore? token tokens state).bind fun before => ?_
  dsimp only
  split
  · split
    · exact ok _ _
    · split
      · exact reject _ _
      · exact rejectUnexpected _ _
  · split
    · exact reject _ _
    · exact rejectUnexpected _ _
  · split
    · exact reject _ _
    · exact rejectUnexpected _ _
  · exact rejectUnexpected _ _

theorem takeOperand (tokens : Array Token) (state : ReadState) (token : Token) :
    RejectsAt token (ReadState.takeOperand tokens state token) := by
  rw [ReadState.takeOperand]
  split
  · exact ok _ _
  · split
    · split
      · exact ok _ _
      · exact ok _ _
    · exact ok _ _
  · exact ok _ _
  · split
    · exact ok _ _
    · exact takeMisplaced _ _ _
  · exact rejectUnexpected _ _

theorem takeOperator (state : ReadState) (token : Token) :
    RejectsAt token (state.takeOperator token) := by
  rw [ReadState.takeOperator]
  split
  · refine (closeGroup token _ _).bind fun closed => ?_
    split
    · exact reject _ _
    · exact ok _ _
    · exact (pop token _).bind fun _ => ok _ _
  · refine (closeGroup token _ _).bind fun closed => ?_
    split
    · exact (pop token _).bind fun _ => ok _ _
    · exact rejectUnexpected _ _
  · split
    · exact (apply token _ _).bind fun _ => ok _ _
    · exact (applyBefore token _ _ _).bind fun _ => ok _ _
    · exact rejectUnexpected _ _
  · exact rejectUnexpected _ _

/-- A pass rejects nothing but its token, if that is not the end of the input. -/
theorem step {tokens : Array Token} {state : ReadState}
    (htoken : tokens[state.position]? = some token) (hkind : token.kind ≠ .eof) :
    RejectsAt token (ReadState.step tokens state) := by
  rw [ReadState.step, tokenAt?_of_getElem? htoken]
  dsimp only
  split
  · exact (takeOperand _ _ _).map _
  · rw [if_neg (by simp [isEof_eq_false hkind])]
    exact (takeOperator _ _).map _

end RejectsAt

namespace ReadState

variable {tokens others : Array Token} {state : ReadState} {token : Token}

/-- Where an operand is due, the reader looks at the token before, and behind a name at the next
one. -/
theorem takeOperand_congr
    (hbefore : tokens[state.position - 2]? = others[state.position - 2]?)
    (hnext : ∀ name, token.kind = .name name →
      tokenAt? tokens state.position = tokenAt? others state.position) :
    takeOperand tokens state token = takeOperand others state token := by
  have hmisplaced : takeMisplaced tokens state token = takeMisplaced others state token := by
    rw [takeMisplaced, takeMisplaced, tokenBefore?, tokenBefore?, hbefore]
  rw [takeOperand, takeOperand, hmisplaced]
  cases hkind : token.kind with
  | name name => rw [hnext name hkind]
  | number value => rfl
  | symbol mark => cases mark <;> rfl
  | eof => rfl

/-- A pass depends on its token, on the one before it, and behind a name on the next one. -/
theorem step_congr (htoken : tokens[state.position]? = some token)
    (hother : others[state.position]? = some token) (hkind : token.kind ≠ .eof)
    (hbefore : tokens[state.position - 1]? = others[state.position - 1]?)
    (hnext : ∀ name, state.expecting = .operand → token.kind = .name name →
      tokenAt? tokens (state.position + 1) = tokenAt? others (state.position + 1)) :
    step tokens state = step others state := by
  simp only [step, tokenAt?_of_getElem? htoken, tokenAt?_of_getElem? hother,
    isEof_eq_false hkind, Bool.false_eq_true, ↓reduceIte]
  cases hexpecting : state.expecting with
  | operator => rfl
  | operand =>
      dsimp only
      rw [takeOperand_congr hbefore fun name => hnext name hexpecting]

theorem getElem?_front {front : List Token} {index : Nat} (hindex : index < front.length)
    (rest : List Token) : (front ++ rest).toArray[index]? = some front[index] := by
  simp [List.getElem?_append_left hindex]

/-- Tokens in front of the others decide a pass, if its own token is one of them, and the next one
too where it is looked at. -/
theorem step_front {front rest other : List Token}
    (hfront : ∀ token ∈ front, token.kind ≠ .eof) (hposition : state.position < front.length)
    (hnext : state.expecting = .operand → (∃ name, front[state.position].kind = .name name) →
      state.position + 1 < front.length) :
    step (front ++ rest).toArray state = step (front ++ other).toArray state := by
  refine step_congr (getElem?_front hposition rest) (getElem?_front hposition other)
    (hfront _ (List.getElem_mem hposition)) ?_ ?_
  · have hbefore : state.position - 1 < front.length := by omega
    rw [getElem?_front hbefore, getElem?_front hbefore]
  · intro name hexpecting hname
    have hlt := hnext hexpecting ⟨name, hname⟩
    rw [tokenAt?_of_getElem? (getElem?_front hlt rest),
      tokenAt?_of_getElem? (getElem?_front hlt other)]

/-- Where an operand is due, a name is always accepted. -/
theorem step_name {name : String} (htoken : tokens[state.position]? = some token)
    (hexpecting : state.expecting = .operand) (hkind : token.kind = .name name) :
    ∃ next, step tokens state = .ok (.inl next) := by
  have heof : token.isEof = false := isEof_eq_false (by simp [hkind])
  simp only [step, tokenAt?_of_getElem? htoken, hexpecting, heof, takeOperand, hkind]
  split
  · split
    · exact ⟨_, rfl⟩
    · exact ⟨_, rfl⟩
  · exact ⟨_, rfl⟩

/-- The passes end in one state. -/
theorem Reaches.eq_of_ends {first second : ReadState} (hfirst : Reaches tokens start first)
    (hsecond : Reaches tokens start second)
    (hfirstEnds : ∀ next, step tokens first ≠ .ok (.inl next))
    (hsecondEnds : ∀ next, step tokens second ≠ .ok (.inl next)) : first = second := by
  have hunique : Relator.RightUnique fun state next => step tokens state = .ok (.inl next) := by
    intro state next other hnext hother
    rw [hnext] at hother
    cases hother
    rfl
  rcases Relation.ReflTransGen.total_of_right_unique hunique hfirst hsecond with hpath | hpath
  · rcases hpath.cases_head with rfl | ⟨next, hnext, _⟩
    · rfl
    · exact absurd hnext (hfirstEnds next)
  · rcases hpath.cases_head with rfl | ⟨next, hnext, _⟩
    · rfl
    · exact absurd hnext (hsecondEnds next)

/-- A reading that fails does so in a state that it reaches. -/
theorem exists_reaches_of_run {passes : Nat} {failure : ParseFailure}
    (hrun : run tokens passes state = some (.error failure)) :
    ∃ last, Reaches tokens state last ∧ step tokens last = .error failure := by
  induction passes generalizing state with
  | zero => cases hrun
  | succ passes ih =>
      rw [run] at hrun
      split at hrun
      · rename_i other hstep
        cases hrun
        exact ⟨state, .refl, hstep⟩
      · cases hrun
      · rename_i next hstep
        obtain ⟨last, hreaches, hlast⟩ := ih hrun
        exact ⟨last, (Reaches.single hstep).trans hreaches, hlast⟩

end ReadState

section

variable {body front rest other : List Token} {token eof : Token} {state : ReadState}

/-- The states up to a token are reached whatever comes behind it. -/
theorem reaches_front (hend : eof.kind = .eof) (hbody : ∀ token ∈ body, token.kind ≠ .eof)
    (hsplit : body ++ [eof] = front ++ rest) (hfront : ∀ token ∈ front, token.kind ≠ .eof)
    (hreaches : Reaches (front ++ rest).toArray ReadState.start state)
    (hposition : state.position < front.length) :
    Reaches (front ++ other).toArray ReadState.start state := by
  induction hreaches with
  | refl => exact .refl
  | @tail first next hreaches hstep ih =>
      rw [← hsplit] at hreaches hstep
      have houtcome := (standing_of_reaches hend hbody hreaches).outcome hend hbody
      rw [hstep] at houtcome
      have hlt : first.position + 1 < front.length := Nat.lt_of_le_of_lt houtcome.2 hposition
      have hfirst : first.position < front.length := Nat.lt_of_succ_lt hlt
      refine (ih hfirst).tail ?_
      rw [← hstep, hsplit]
      exact step_front hfront hfirst fun _ _ => hlt

/-- Tokens of which a pass fails are not derived. -/
theorem not_derives_of_error {failure : ParseFailure} (hend : eof.kind = .eof)
    (hreaches : Reaches (body ++ [eof]).toArray ReadState.start state)
    (hstep : step (body ++ [eof]).toArray state = .error failure) :
    ¬∃ tree, Derives .expr body tree := by
  rintro ⟨tree, hexpr⟩
  obtain ⟨last, hlast, _, hfinish⟩ := hexpr.exists_finish hend
  have hsame : state = last := by
    apply hreaches.eq_of_ends hlast
    · simp [hstep]
    · simp [hfinish]
  rw [hsame, hfinish] at hstep
  cases hstep

/-- A token at which a pass fails is refused by every continuation. -/
theorem not_viable_of_error {before after : List Token} {failure : ParseFailure}
    (hend : eof.kind = .eof) (hbody : ∀ token ∈ body, token.kind ≠ .eof)
    (hsplit : body = before ++ token :: after)
    (hreaches : Reaches (body ++ [eof]).toArray ReadState.start state)
    (hposition : state.position = before.length)
    (hstep : step (body ++ [eof]).toArray state = .error failure) :
    ¬Viable (before ++ [token]) := by
  rintro ⟨more, tree, hexpr⟩
  have hall : body ++ [eof] = (before ++ [token]) ++ (after ++ [eof]) := by simp [hsplit]
  have hfront : ∀ other ∈ before ++ [token], other.kind ≠ .eof := by
    intro other hother
    apply hbody
    rw [hsplit, List.append_cons]
    exact List.mem_append_left after hother
  have hlt : state.position < (before ++ [token]).length := by simp [hposition]
  rw [hall] at hreaches hstep
  have hreachesMore :
      Reaches (before ++ [token] ++ more ++ [eof]).toArray ReadState.start state := by
    rw [List.append_assoc]
    exact reaches_front hend hbody hall hfront hreaches hlt
  have hstepMore : step (before ++ [token] ++ more ++ [eof]).toArray state = .error failure := by
    rw [List.append_assoc, ← hstep]
    apply step_front hfront hlt
    -- Behind a name the pass would look further, but a name is not rejected here.
    rintro hexpecting ⟨name, hname⟩
    obtain ⟨next, hnext⟩ :=
      step_name (getElem?_front hlt (after ++ [eof])) hexpecting hname
    rw [hnext] at hstep
    cases hstep
  exact not_derives_of_error hend hreachesMore hstepMore ⟨tree, hexpr⟩

/-- A failure is that of a pass in a state that is reached, with the line of the source added. -/
theorem exists_pass_of_parseTokens {source : Option String} {failure : ParseFailure}
    (hend : eof.kind = .eof) (hbody : ∀ token ∈ body, token.kind ≠ .eof)
    (hparse : parseTokens (body ++ [eof]) source = .error failure) :
    ∃ state error reported, Reaches (body ++ [eof]).toArray ReadState.start state ∧
      step (body ++ [eof]).toArray state = .error (.rejected error) ∧
      failure = .rejected reported ∧ reported.cause = error.cause ∧
      reported.span = error.span := by
  rcases run_passLimit hend hbody with ⟨error, hrun⟩ | ⟨tree, hexpr, _⟩
  · obtain ⟨state, hreaches, hstep⟩ := exists_reaches_of_run hrun
    rw [parseTokens, hrun] at hparse
    have hfailure := (Except.error.inj hparse).symm
    refine ⟨state, error, _, hreaches, hstep, hfailure, ?_⟩
    cases source <;> exact ⟨rfl, rfl⟩
  · rw [parseTokens_of_derives hend hbody source hexpr] at hparse
    cases hparse

end

/-- Errors stand at the earliest token.  If reading tokens fails, a pass fails in a state that is
reached.  A pass that fails before the end of the input rejects its token: what stands before it can
be continued to an expression, and with it no longer.  One that fails at the end of the input
leaves tokens that can be continued but are no expression.  What has been read in a state that is
reached can always be continued. -/
theorem parseTokens_rejects_earliest (body : List Token) (eof : Token) (source : Option String)
    (hend : eof.kind = .eof) (hbody : ∀ token ∈ body, token.kind ≠ .eof) :
    (∀ failure, parseTokens (body ++ [eof]) source = .error failure →
      ∃ state error reported, Reaches (body ++ [eof]).toArray ReadState.start state ∧
        step (body ++ [eof]).toArray state = .error (.rejected error) ∧
        failure = .rejected reported ∧ reported.cause = error.cause ∧
        reported.span = error.span) ∧
    (∀ state failure, Reaches (body ++ [eof]).toArray ReadState.start state →
      step (body ++ [eof]).toArray state = .error failure →
      (∃ before token after error, body = before ++ token :: after ∧
        state.position = before.length ∧ failure = .rejected error ∧ error.span = token.span ∧
        Viable before ∧ ¬Viable (before ++ [token])) ∨
      state.position = body.length ∧ Viable body ∧ ¬∃ tree, Derives .expr body tree) ∧
    ∀ state, Reaches (body ++ [eof]).toArray ReadState.start state →
      Viable (body.take state.position) := by
  refine ⟨fun failure => exists_pass_of_parseTokens hend hbody, ?_, ?_⟩
  · intro state failure hreaches hstep
    have hstanding := standing_of_reaches hend hbody hreaches
    have hviable := hstanding.viable
    rcases Nat.lt_or_eq_of_le hstanding.position_le with hlt | heq
    · have htake : (body.take state.position).length = state.position :=
        List.length_take_of_le hstanding.position_le
      have hsplit : body = body.take state.position ++
          body[state.position] :: body.drop (state.position + 1) := by simp
      have htoken : (body ++ [eof]).toArray[state.position]? = some body[state.position] :=
        getElem?_front hlt [eof]
      obtain ⟨error, rfl⟩ := rejected_of_reaches hend hbody hreaches hstep
      exact .inl ⟨_, _, _, error, hsplit, htake.symm, rfl,
        RejectsAt.step htoken (hbody _ (List.getElem_mem hlt)) error hstep, hviable,
        not_viable_of_error hend hbody hsplit hreaches htake.symm hstep⟩
    · rw [heq, List.take_length] at hviable
      exact .inr ⟨heq, hviable, not_derives_of_error hend hreaches hstep⟩
  · intro state hreaches
    exact (standing_of_reaches hend hbody hreaches).viable

/-- The place of a character in the first line. -/
def placeOf (offset : Nat) : Span :=
  ⟨⟨1, offset + 1, offset⟩, ⟨1, offset + 2, offset + 1⟩⟩

/-- The tokens of `f(a,)`. -/
def danglingComma : List Token :=
  [⟨.name "f", "f", placeOf 0⟩, ⟨.symbol .leftParen, "(", placeOf 1⟩, ⟨.name "a", "a", placeOf 2⟩,
    ⟨.symbol .comma, ",", placeOf 3⟩, ⟨.symbol .rightParen, ")", placeOf 4⟩]

def endOfLine : Token := ⟨.eof, "", placeOf 5⟩

theorem parseTokens_danglingComma :
    parseTokens (danglingComma ++ [endOfLine]) none =
      .error (.rejected ⟨.missingArgument, placeOf 4, none⟩) ∧
    Viable (danglingComma.take 4) ∧ ¬Viable danglingComma := by
  obtain ⟨_, hpass, hcompletes⟩ :=
    parseTokens_rejects_earliest danglingComma endOfLine none rfl (by decide)
  let call : Frame := .call ⟨.symbol .leftParen, "(", placeOf 1⟩ "f" []
  have hreaches : Reaches (danglingComma ++ [endOfLine]).toArray ReadState.start
      (awaiting 4 [.call ⟨.symbol .leftParen, "(", placeOf 1⟩ "f" [.var "a"]]) := by
    refine .head (b := awaiting 2 [call]) rfl ?_
    refine .head (b := holding 3 [call] (.var "a")) rfl ?_
    exact .single rfl
  refine ⟨rfl, hcompletes _ hreaches, ?_⟩
  rcases hpass _ _ hreaches rfl with
    ⟨before, token, after, _, hsplit, hposition, _, _, _, hrefused⟩ | ⟨hlength, _⟩
  · have hlast : after = [] := by
      have hlength : 5 = before.length + (after.length + 1) := by
        rw [← List.length_cons, ← List.length_append, ← hsplit]
        rfl
      have hfour : before.length = 4 := hposition.symm
      exact List.length_eq_zero_iff.mp (by omega)
    rwa [hsplit, hlast]
  · cases hlength

end Reckon
