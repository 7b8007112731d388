import Reckon.Proofs.Expr.Brackets
import Reckon.Proofs.Expr.Rejection

/-
What is said of rejected tokens.  The error follows from the token, from the one before it and from
the parentheses that are open in front of it; nothing else of what has been read counts.
-/

namespace Reckon

open ReadState Reckon.Frame

/-- What is said of a token that no expression has behind these, with the token that the error
points to. -/
def blame (before : List Token) (token : Token) : SyntaxError.Cause × Token :=
  if operandDue before.getLast? then
    if token.kind = .eof then (.unexpectedEnd .operand, token)
    else (misplacedCause (before.getLast?.map Token.kind) token, token)
  else
    match token.kind, openBrackets before with
    | .eof, bracket :: _ => (.unclosedParenthesis, bracket.opening)
    | .symbol .rightParen, [] => (.unmatchedParenthesis, token)
    | .symbol .comma, _ => (.unexpectedToken .operatorOrClosing token.describe, token)
    | _, _ => (.unexpectedToken .operator token.describe, token)

/-- The error of a token behind these. -/
def blamed (before : List Token) (token : Token) : SyntaxError :=
  ⟨(blame before token).1, (blame before token).2.span, none⟩

/-- What ends something in its place: a call without arguments, what some parenthesis has opened, an
argument, or the whole input. -/
inductive InPlace (before : List Token) (token : Token) : Prop
  | emptyCall {front : List Token} {title opening : Token}
      (hkind : token.kind = .symbol .rightParen) (hbefore : before = front ++ [title] ++ [opening])
      (htitle : title.kind.isName = true) (hopening : opening.kind = .symbol .leftParen) :
      InPlace before token
  | closing (hkind : token.kind = .symbol .rightParen)
      (hdue : operandDue before.getLast? = false) (hopen : openBrackets before ≠ []) :
      InPlace before token
  | comma (hkind : token.kind = .symbol .comma) (hdue : operandDue before.getLast? = false)
      {bracket : Bracket} (hopen : bracket ∈ (openBrackets before).head?)
      (hname : bracket.behindName = true) : InPlace before token
  | finish (hkind : token.kind = .eof) (hdue : operandDue before.getLast? = false)
      (hopen : openBrackets before = []) : InPlace before token

section

variable {tokens : List Token} {before after read word : List Token} {frames : List Frame}
  {tree : Tree} {token eof : Token} {failure : ParseFailure}

theorem InPlace.kind_cases (hplace : InPlace before token) :
    token.kind = .symbol .rightParen ∨ token.kind = .symbol .comma ∨ token.kind = .eof := by
  cases hplace with
  | emptyCall hkind _ _ _ => exact .inl hkind
  | closing hkind _ _ => exact .inl hkind
  | comma hkind _ _ _ => exact .inr (.inl hkind)
  | finish hkind _ _ => exact .inr (.inr hkind)

/-- Where an operand is due, nothing but a call without arguments can end. -/
theorem InPlace.of_operandDue (hplace : InPlace before token)
    (hdue : operandDue before.getLast? = true) :
    token.kind = .symbol .rightParen ∧ ∃ front title opening,
      before = front ++ [title] ++ [opening] ∧ title.kind.isName = true ∧
        opening.kind = .symbol .leftParen := by
  cases hplace with
  | emptyCall hkind hbefore htitle hopening => exact ⟨hkind, _, _, _, hbefore, htitle, hopening⟩
  | closing _ hfalse _ => simp [hdue] at hfalse
  | comma _ hfalse _ _ => simp [hdue] at hfalse
  | finish _ hfalse _ => simp [hdue] at hfalse

theorem getElem?_behind (hsplit : tokens = before ++ token :: after) :
    tokens.toArray[before.length]? = some token := by
  simp [hsplit]

theorem tokenBefore?_awaiting (hsplit : tokens = before ++ token :: after) :
    tokenBefore? tokens.toArray (ReadState.awaiting (before.length + 1) frames) =
      .ok before.getLast? := by
  rcases List.eq_nil_or_concat' before with rfl | ⟨front, last, rfl⟩
  · rfl
  · have hlast : tokens.toArray[front.length]? = some last := by simp [hsplit]
    rw [List.length_append, List.length_singleton, tokenBefore?_succ hlast, List.getLast?_concat]

/-- A pass that fails over a mark which begins no operand says that it is misplaced. -/
theorem misplaced_of_mark (hopened : Opened before frames)
    (hsplit : tokens = before ++ token :: after) {mark : Symbol}
    (hkind : token.kind = .symbol mark) (hleading : Operator.leadingOf? mark = none)
    (hparen : mark ≠ .leftParen)
    (hstep : step tokens.toArray (ReadState.awaiting before.length frames) = .error failure) :
    failure = .rejected ⟨misplacedCause (before.getLast?.map Token.kind) token, token.span, none⟩ ∧
      ¬InPlace before token := by
  have htoken := getElem?_behind hsplit
  have hno : ∀ front last opening name args rest, before = front ++ [last] →
      last.kind = .symbol .leftParen → frames = .call opening name args :: rest →
      mark ≠ .rightParen := by
    rintro front last opening name args rest rfl hlast rfl rfl
    obtain ⟨rfl, -⟩ := hopened.emptyCall hlast
    have hbefore : tokens.toArray[front.length]? = some last := by simp [hsplit]
    rw [List.length_append, List.length_singleton] at htoken hstep
    rw [step_emptyCall hbefore hlast htoken hkind] at hstep
    cases hstep
  constructor
  · rw [step_misplaced htoken hkind hleading hparen (tokenBefore?_awaiting hsplit)] at hstep
    · exact (Except.error.inj hstep).symm
    · intro hmark hlast opening name args rest hframes
      obtain ⟨last, hlast, hopening⟩ := Option.map_eq_some_iff.mp hlast
      obtain ⟨front, rfl⟩ := List.getLast?_eq_some_iff.mp hlast
      exact hno front last opening name args rest rfl hopening hframes hmark
  · intro hplace
    obtain ⟨hclosing, front, title, opening, rfl, htitle, hopening⟩ :=
      hplace.of_operandDue hopened.operandDue
    obtain ⟨name, args, rest, hframes⟩ := hopened.exists_call htitle hopening
    rw [hclosing] at hkind
    cases hkind
    exact hno _ opening _ _ _ _ rfl hopening hframes rfl

/-- What a pass says that fails where an operand is due. -/
theorem blamed_of_awaiting (hopened : Opened before frames)
    (hsplit : tokens = before ++ token :: after)
    (hstep : step tokens.toArray (ReadState.awaiting before.length frames) = .error failure) :
    failure = .rejected (blamed before token) ∧ ¬InPlace before token := by
  have htoken := getElem?_behind hsplit
  have hdue := hopened.operandDue
  by_cases heof : token.kind = .eof
  · rw [step_awaiting_eof htoken heof] at hstep
    constructor
    · rw [← Except.error.inj hstep, blamed, blame, if_pos hdue, if_pos heof]
    · intro hplace
      have hclosing := (hplace.of_operandDue hdue).1
      rw [heof] at hclosing
      cases hclosing
  · rw [blamed, blame, if_pos hdue, if_neg heof]
    cases hkind : token.kind with
    | number value =>
        rw [step_number htoken hkind] at hstep
        cases hstep
    | name name =>
        obtain ⟨next, hnext⟩ :=
          step_name htoken (show (ReadState.awaiting before.length frames).expecting = _ from rfl)
            hkind
        rw [hnext] at hstep
        cases hstep
    | symbol mark =>
        by_cases hparen : mark = .leftParen
        · subst hparen
          rw [step_group htoken hkind] at hstep
          cases hstep
        · cases hleading : Operator.leadingOf? mark with
          | none => exact misplaced_of_mark hopened hsplit hkind hleading hparen hstep
          | some operator =>
              have hsign : operator = .neg ∨ operator = .pos := by
                cases mark <;> simp_all [Operator.leadingOf?]
              rw [step_sign htoken hkind hleading hsign] at hstep
              cases hstep
    | eof => exact absurd hkind heof

/-- Behind an operand the parentheses that are open are those outside of it. -/
theorem openBrackets_collapseAll (hopened : Opened read frames)
    (hword : Derives .factorial word tree) :
    openBrackets (read ++ word) = brackets (collapseAll frames tree).1 := by
  rw [openBrackets_append hword.balanced, hopened.openBrackets_eq, collapseAll,
    brackets_collapse]

/-- At the end of the input the innermost parenthesis that is open is at fault. -/
theorem unclosed_of_finish (hopened : Opened read frames) (hword : Derives .factorial word tree)
    (hsplit : tokens = read ++ word ++ token :: after) (hkind : token.kind = .eof)
    (hstep : step tokens.toArray (ReadState.holding (read ++ word).length frames tree) =
      .error failure) :
    ∃ bracket outer, openBrackets (read ++ word) = bracket :: outer ∧
      failure = .rejected ⟨.unclosedParenthesis, bracket.opening.span, none⟩ := by
  have htoken := getElem?_behind hsplit
  have hopen := openBrackets_collapseAll hopened hword
  obtain ⟨operand, hframes | ⟨opening, outer, hframes⟩ | ⟨opening, name, args, outer, hframes⟩⟩ :=
    collapseAll_cases frames tree
  · rw [step_finish htoken hkind hframes] at hstep
    cases hstep
  · rw [step_holding_eof htoken hkind, Work.finish_eq_collapseAll, hframes] at hstep
    rw [hframes] at hopen
    exact ⟨_, _, hopen, (Except.error.inj hstep).symm⟩
  · rw [step_holding_eof htoken hkind, Work.finish_eq_collapseAll, hframes] at hstep
    rw [hframes] at hopen
    exact ⟨_, _, hopen, (Except.error.inj hstep).symm⟩

/-- A closing parenthesis behind an operand is at fault only if none is open. -/
theorem unmatched_of_closing (hopened : Opened read frames) (hword : Derives .factorial word tree)
    (hsplit : tokens = read ++ word ++ token :: after) (hkind : token.kind = .symbol .rightParen)
    (hstep : step tokens.toArray (ReadState.holding (read ++ word).length frames tree) =
      .error failure) :
    openBrackets (read ++ word) = [] ∧
      failure = .rejected ⟨.unmatchedParenthesis, token.span, none⟩ := by
  have htoken := getElem?_behind hsplit
  have hopen := openBrackets_collapseAll hopened hword
  obtain ⟨operand, hframes | ⟨opening, outer, hframes⟩ | ⟨opening, name, args, outer, hframes⟩⟩ :=
    collapseAll_cases frames tree
  · rw [step_unmatched htoken hkind hframes] at hstep
    rw [hframes] at hopen
    exact ⟨hopen, (Except.error.inj hstep).symm⟩
  · rw [step_closeGroup htoken hkind hframes] at hstep
    cases hstep
  · rw [step_closeCall htoken hkind hframes] at hstep
    cases hstep

/-- A comma behind an operand is at fault only outside the parentheses of a call. -/
theorem unexpected_of_comma (hopened : Opened read frames) (hword : Derives .factorial word tree)
    (hsplit : tokens = read ++ word ++ token :: after) (hkind : token.kind = .symbol .comma)
    (hstep : step tokens.toArray (ReadState.holding (read ++ word).length frames tree) =
      .error failure) :
    (∀ bracket ∈ (openBrackets (read ++ word)).head?, bracket.behindName = false) ∧
      failure =
        .rejected ⟨.unexpectedToken .operatorOrClosing token.describe, token.span, none⟩ := by
  have htoken := getElem?_behind hsplit
  have hno : ∀ opening name args outer operand,
      collapseAll frames tree ≠ (.call opening name args :: outer, operand) := by
    intro opening name args outer operand hframes
    rw [step_comma htoken hkind hframes] at hstep
    cases hstep
  rw [step_comma_misplaced htoken hkind hno] at hstep
  refine ⟨?_, (Except.error.inj hstep).symm⟩
  rw [openBrackets_collapseAll hopened hword]
  obtain ⟨operand, hframes | ⟨opening, outer, hframes⟩ | ⟨opening, name, args, outer, hframes⟩⟩ :=
    collapseAll_cases frames tree
  · simp [hframes, brackets]
  · simp [hframes, brackets]
  · exact absurd hframes (hno _ _ _ _ _)

/-- What a pass says that fails where an operator is due. -/
theorem blamed_of_holding (hopened : Opened read frames) (hword : Derives .factorial word tree)
    (hsplit : tokens = read ++ word ++ token :: after)
    (hstep : step tokens.toArray (ReadState.holding (read ++ word).length frames tree) =
      .error failure) :
    failure = .rejected (blamed (read ++ word) token) ∧ ¬InPlace (read ++ word) token := by
  have htoken := getElem?_behind hsplit
  have hdue : operandDue (read ++ word).getLast? = false := operandDue_append read hword.operandDue
  have hoperator : ∀ mark operator, token.kind = .symbol mark →
      Operator.binaryOf? mark ≠ some operator := by
    intro mark operator hkind hbinary
    rw [step_binary htoken hkind hbinary rfl] at hstep
    cases hstep
  have hplain : token.kind ≠ .symbol .rightParen → token.kind ≠ .symbol .comma →
      token.kind ≠ .eof → ¬InPlace (read ++ word) token := by
    intro hright hcomma heof hplace
    exact hplace.kind_cases.elim hright fun hkind => hkind.elim hcomma heof
  simp only [blamed, blame, hdue, Bool.false_eq_true, ↓reduceIte]
  match hkind : token.kind with
  | .eof =>
      obtain ⟨bracket, outer, hopen, hfailure⟩ :=
        unclosed_of_finish hopened hword hsplit hkind hstep
      rw [hopen]
      refine ⟨hfailure, fun hplace => ?_⟩
      cases hplace <;> simp_all
  | .symbol .rightParen =>
      obtain ⟨hopen, hfailure⟩ := unmatched_of_closing hopened hword hsplit hkind hstep
      rw [hopen]
      refine ⟨hfailure, fun hplace => ?_⟩
      cases hplace with
      | emptyCall _ hbefore _ hopening =>
          rw [hbefore, operandDue_concat, hopening] at hdue
          cases hdue
      | closing _ _ hnonempty => exact hnonempty hopen
      | comma hother _ _ _ => simp [hkind] at hother
      | finish hother _ _ => simp [hkind] at hother
  | .symbol .comma =>
      obtain ⟨hbracket, hfailure⟩ := unexpected_of_comma hopened hword hsplit hkind hstep
      refine ⟨hfailure, fun hplace => ?_⟩
      cases hplace with
      | emptyCall hother _ _ _ => simp [hkind] at hother
      | closing hother _ _ => simp [hkind] at hother
      | comma _ _ hmem hname =>
          rw [hbracket _ hmem] at hname
          cases hname
      | finish hother _ _ => simp [hkind] at hother
  | .symbol .bang =>
      rw [step_bang htoken hkind] at hstep
      cases hstep
  | .number value =>
      rw [step_holding_misplaced htoken (.inr (.inl ⟨value, hkind⟩))] at hstep
      exact ⟨(Except.error.inj hstep).symm,
        hplain (by simp [hkind]) (by simp [hkind]) (by simp [hkind])⟩
  | .name name =>
      rw [step_holding_misplaced htoken (.inr (.inr ⟨name, hkind⟩))] at hstep
      exact ⟨(Except.error.inj hstep).symm,
        hplain (by simp [hkind]) (by simp [hkind]) (by simp [hkind])⟩
  | .symbol .leftParen =>
      rw [step_holding_misplaced htoken (.inl hkind)] at hstep
      exact ⟨(Except.error.inj hstep).symm,
        hplain (by simp [hkind]) (by simp [hkind]) (by simp [hkind])⟩
  | .symbol .plus => exact absurd rfl (hoperator _ _ hkind)
  | .symbol .minus => exact absurd rfl (hoperator _ _ hkind)
  | .symbol .star => exact absurd rfl (hoperator _ _ hkind)
  | .symbol .slash => exact absurd rfl (hoperator _ _ hkind)
  | .symbol .percent => exact absurd rfl (hoperator _ _ hkind)
  | .symbol .caret => exact absurd rfl (hoperator _ _ hkind)

end

section

variable {body rest : List Token} {eof : Token} {source : Option String}

/-- A pass does not look behind the end of the input. -/
theorem step_behind_eof {state : ReadState} (hend : eof.kind = .eof)
    (hbody : ∀ token ∈ body, token.kind ≠ .eof) (hstanding : Standing body state)
    (rest : List Token) :
    step (body ++ eof :: rest).toArray state = step (body ++ [eof]).toArray state := by
  have hget : ∀ index ≤ body.length,
      (body ++ eof :: rest).toArray[index]? = (body ++ [eof]).toArray[index]? := by
    intro index hindex
    rcases Nat.lt_or_eq_of_le hindex with hlt | rfl
    · rw [getElem?_front hlt, getElem?_front hlt]
    · simp
  rcases Nat.lt_or_eq_of_le hstanding.position_le with hlt | hposition
  · have hnext : tokenAt? (body ++ eof :: rest).toArray (state.position + 1) =
        tokenAt? (body ++ [eof]).toArray (state.position + 1) := by
      have hthere : state.position + 1 < (body ++ [eof]).toArray.size := by simpa using hlt
      rw [tokenAt?, tokenAt?, hget _ hlt, Array.getElem?_eq_getElem hthere]
    exact step_congr (getElem?_front hlt _) (getElem?_front hlt _)
      (hbody _ (List.getElem_mem hlt)) (hget _ (by omega)) fun _ _ _ => hnext
  · have htoken : (body ++ eof :: rest).toArray[state.position]? = some eof := by
      simp [hposition]
    have hother : (body ++ [eof]).toArray[state.position]? = some eof := by simp [hposition]
    cases hstanding with
    | awaiting _ _ =>
        exact (step_awaiting_eof htoken hend).trans (step_awaiting_eof hother hend).symm
    | holding _ _ _ =>
        exact (step_holding_eof htoken hend).trans (step_holding_eof hother hend).symm

theorem run_behind_eof {state : ReadState} (hend : eof.kind = .eof)
    (hbody : ∀ token ∈ body, token.kind ≠ .eof) (hstanding : Standing body state)
    (rest : List Token) (passes : Nat) :
    ReadState.run (body ++ eof :: rest).toArray passes state =
      ReadState.run (body ++ [eof]).toArray passes state := by
  induction passes generalizing state with
  | zero => rfl
  | succ passes ih =>
      have houtcome := hstanding.outcome hend hbody
      rw [ReadState.run, ReadState.run, step_behind_eof hend hbody hstanding]
      cases hstep : step (body ++ [eof]).toArray state with
      | error failure => rfl
      | ok result =>
          cases result with
          | inr nodes => rfl
          | inl next =>
              rw [hstep] at houtcome
              exact ih houtcome.1

/-- Nothing behind the end of the input is read. -/
theorem parseTokens_behind_eof (hend : eof.kind = .eof)
    (hbody : ∀ token ∈ body, token.kind ≠ .eof) (rest : List Token) (source : Option String) :
    parseTokens (body ++ eof :: rest) source = parseTokens (body ++ [eof]) source := by
  have hrun : ReadState.run (body ++ eof :: rest).toArray
        (passLimit (body ++ eof :: rest).toArray) ReadState.start =
      ReadState.run (body ++ [eof]).toArray (passLimit (body ++ [eof]).toArray)
        ReadState.start := by
    have hlimit : passLimit (body ++ eof :: rest).toArray =
        passLimit (body ++ [eof]).toArray + 2 * rest.length := by
      simp [passLimit]
      omega
    rw [run_behind_eof hend hbody (Standing.start body), hlimit]
    rcases run_passLimit hend hbody with ⟨error, hrun⟩ | ⟨tree, -, hrun⟩
    · rw [run_add hrun, hrun]
    · rw [run_add hrun, hrun]
  simp only [parseTokens, hrun]

/-- A pass that fails says what its token is blamed for. -/
theorem Standing.blamed {state : ReadState} {before after : List Token} {token : Token}
    {failure : ParseFailure} (hstanding : Standing body state)
    (hsplit : body ++ [eof] = before ++ token :: after) (hposition : state.position = before.length)
    (hstep : step (body ++ [eof]).toArray state = .error failure) :
    failure = .rejected (blamed before token) ∧ ¬InPlace before token := by
  have hbefore : ∀ {read : List Token}, read <+: body → read.length = before.length →
      read = before := by
    rintro read ⟨more, rfl⟩ hlength
    rw [List.append_assoc] at hsplit
    exact (List.append_inj hsplit hlength).1
  cases hstanding with
  | awaiting hopened hread =>
      cases hbefore hread hposition
      exact blamed_of_awaiting hopened hsplit hstep
  | holding hopened hword hread =>
      cases hbefore hread hposition
      exact blamed_of_holding hopened hword hsplit hstep

/-- A reading that fails does so at a token that no expression has there, and says what the token
is blamed for. -/
theorem exists_blamed_of_parseTokens {failure : ParseFailure} (hend : eof.kind = .eof)
    (hbody : ∀ token ∈ body, token.kind ≠ .eof)
    (hparse : parseTokens (body ++ [eof]) source = .error failure) :
    ∃ before token after error, body ++ [eof] = before ++ token :: after ∧
      failure = .rejected error ∧ error.cause = (blame before token).1 ∧
      error.span = (blame before token).2.span ∧ Viable before ∧
      (token.kind ≠ .eof → ¬Viable (before ++ [token])) ∧
      (token.kind = .eof → before = body ∧ ¬∃ tree, Derives .expr body tree) ∧
      ¬InPlace before token := by
  obtain ⟨state, error, reported, hreaches, hstep, hfailure, hcause, hspan⟩ :=
    exists_pass_of_parseTokens hend hbody hparse
  have hstanding := standing_of_reaches hend hbody hreaches
  have hviable := hstanding.viable
  have hlength : (body.take state.position).length = state.position :=
    List.length_take_of_le hstanding.position_le
  rcases Nat.lt_or_eq_of_le hstanding.position_le with hlt | heq
  · have hkind := hbody _ (List.getElem_mem hlt)
    have hsplit : body = body.take state.position ++
        body[state.position] :: body.drop (state.position + 1) := by simp
    have hall : body ++ [eof] = body.take state.position ++
        body[state.position] :: (body.drop (state.position + 1) ++ [eof]) := by
      rw [← List.cons_append, ← List.append_assoc, ← hsplit]
    obtain ⟨hrejected, hplace⟩ := hstanding.blamed hall hlength.symm hstep
    cases hrejected
    exact ⟨_, _, _, reported, hall, hfailure, hcause, hspan, hviable,
      fun _ => not_viable_of_error hend hbody hsplit hreaches hlength.symm hstep,
      fun heof => absurd heof hkind, hplace⟩
  · rw [heq, List.take_length] at hviable
    obtain ⟨hrejected, hplace⟩ := hstanding.blamed rfl heq hstep
    cases hrejected
    exact ⟨body, eof, [], reported, rfl, hfailure, hcause, hspan, hviable,
      fun hkind => absurd hend hkind,
      fun _ => ⟨rfl, not_derives_of_error hend hreaches hstep⟩, hplace⟩

end

/-- A closing parenthesis or a comma directly behind an opening parenthesis or a comma. -/
def LacksArgument (before : List Token) (token : Token) : Prop :=
  (token.kind = .symbol .rightParen ∨ token.kind = .symbol .comma) ∧
    ∃ previous ∈ before.getLast?,
      previous.kind = .symbol .leftParen ∨ previous.kind = .symbol .comma

/-- The error of a rejected token, by the token, the one before it and the open parentheses. -/
structure Blames (before : List Token) (token : Token) (error : SyntaxError) : Prop where
  missingOperand : token.kind = .eof → operandDue before.getLast? = true →
    error.cause = .unexpectedEnd .operand ∧ error.span = token.span
  unclosed : token.kind = .eof → operandDue before.getLast? = false →
    error.cause = .unclosedParenthesis ∧
      ∃ bracket ∈ (openBrackets before).head?, error.span = bracket.opening.span
  unmatched : token.kind = .symbol .rightParen → operandDue before.getLast? = false →
    openBrackets before = [] ∧ error.cause = .unmatchedParenthesis ∧ error.span = token.span
  missingArgument : LacksArgument before token →
    error.cause = .missingArgument ∧ error.span = token.span
  unexpected : token.kind ≠ .eof →
    ¬(token.kind = .symbol .rightParen ∧ operandDue before.getLast? = false) →
    ¬LacksArgument before token →
    (∃ expected, error.cause = .unexpectedToken expected ("'" ++ token.lexeme ++ "'")) ∧
      error.span = token.span

section

variable {before : List Token} {token : Token} {error : SyntaxError}

/-- An operand is due where an argument is lacking. -/
theorem LacksArgument.operandDue (hlacks : LacksArgument before token) :
    operandDue before.getLast? = true := by
  obtain ⟨-, previous, hprevious, hkind⟩ := hlacks
  rw [Option.mem_def.mp hprevious, Reckon.operandDue, Option.all_some]
  rcases hkind with hkind | hkind <;> rw [hkind] <;> rfl

theorem lacksArgument_iff : LacksArgument before token ↔
    (token.kind = .symbol .rightParen ∨ token.kind = .symbol .comma) ∧
      (before.getLast?.map Token.kind = some (.symbol .leftParen) ∨
        before.getLast?.map Token.kind = some (.symbol .comma)) := by
  rw [LacksArgument]
  cases before.getLast? <;> simp

/-- A token that closes nothing and leaves no argument out is unexpected. -/
theorem exists_blame_unexpected (heof : token.kind ≠ .eof)
    (hright : ¬(token.kind = .symbol .rightParen ∧ operandDue before.getLast? = false))
    (hlacks : ¬LacksArgument before token) :
    ∃ expected, blame before token =
      (.unexpectedToken expected ("'" ++ token.lexeme ++ "'"), token) := by
  have hdescribe : token.describe = "'" ++ token.lexeme ++ "'" := if_neg heof
  rw [← hdescribe]
  cases hdue : operandDue before.getLast? with
  | true =>
      rw [blame, if_pos hdue, if_neg heof, misplacedCause, if_neg (mt lacksArgument_iff.mpr hlacks)]
      exact ⟨_, rfl⟩
  | false =>
      rw [blame, if_neg (by simp [hdue])]
      split
      · rename_i hkind _
        exact absurd hkind heof
      · rename_i hkind _
        exact absurd ⟨hkind, hdue⟩ hright
      · exact ⟨_, rfl⟩
      · exact ⟨_, rfl⟩

/-- What a token is blamed for that is not in its place. -/
theorem blames_blame (hplace : ¬InPlace before token)
    (hcause : error.cause = (blame before token).1)
    (hspan : error.span = (blame before token).2.span) : Blames before token error := by
  refine ⟨?_, ?_, ?_, ?_, ?_⟩
  · intro heof hdue
    rw [blame, if_pos hdue, if_pos heof] at hcause hspan
    exact ⟨hcause, hspan⟩
  · intro heof hdue
    cases hopen : openBrackets before with
    | nil => exact absurd (.finish heof hdue hopen) hplace
    | cons bracket outer =>
        simp only [blame, hdue, heof, hopen, Bool.false_eq_true, ↓reduceIte] at hcause hspan
        exact ⟨hcause, bracket, rfl, hspan⟩
  · intro hright hdue
    cases hopen : openBrackets before with
    | nil =>
        simp only [blame, hdue, hright, hopen, Bool.false_eq_true, ↓reduceIte] at hcause hspan
        exact ⟨rfl, hcause, hspan⟩
    | cons bracket outer => exact absurd (.closing hright hdue (by simp [hopen])) hplace
  · intro hlacks
    have heof : token.kind ≠ .eof := by
      rcases hlacks.1 with hkind | hkind <;> simp [hkind]
    rw [blame, if_pos hlacks.operandDue, if_neg heof, misplacedCause,
      if_pos (lacksArgument_iff.mp hlacks)] at hcause
    rw [blame, if_pos hlacks.operandDue, if_neg heof] at hspan
    exact ⟨hcause, hspan⟩
  · intro heof hright hlacks
    obtain ⟨expected, hblame⟩ := exists_blame_unexpected heof hright hlacks
    rw [hblame] at hcause hspan
    exact ⟨⟨expected, hcause⟩, hspan⟩

/-- An error before the end of the input stands at its token. -/
theorem Blames.span_eq (hblames : Blames before token error)
    (hkind : token.kind ≠ .eof) : error.span = token.span := by
  by_cases hright : token.kind = .symbol .rightParen ∧ operandDue before.getLast? = false
  · exact (hblames.unmatched hright.1 hright.2).2.2
  · by_cases hlacks : LacksArgument before token
    · exact (hblames.missingArgument hlacks).2
    · exact (hblames.unexpected hkind hright hlacks).2

end

/-- Tokens with an end of the input are some tokens in front of its first one, and more behind. -/
theorem exists_split_eof {tokens : List Token} (heof : ∃ token ∈ tokens, token.kind = .eof) :
    ∃ body eof rest, tokens = body ++ eof :: rest ∧ eof.kind = .eof ∧
      ∀ token ∈ body, token.kind ≠ .eof := by
  have hfound : (tokens.find? Token.isEof).isSome = true := by
    simpa [List.find?_isSome, Token.isEof] using heof
  obtain ⟨eof, hfound⟩ := Option.isSome_iff_exists.mp hfound
  obtain ⟨hkind, body, rest, hsplit, hbody⟩ := List.find?_eq_some_iff_append.mp hfound
  exact ⟨body, eof, rest, hsplit, by simpa [Token.isEof] using hkind,
    fun token htoken => by simpa [Token.isEof] using hbody token htoken⟩

/-- The error of rejected tokens.  It stands at the earliest token that no expression has behind the
ones before it, and follows from this token, the one before it and the parentheses that are open in
front of it.  A token that ends something in its place, such as a closing parenthesis behind a name
and an opening one, is never at fault. -/
theorem parseTokens_blames (tokens : List Token) (source : Option String) (failure : ParseFailure)
    (heof : ∃ token ∈ tokens, token.kind = .eof)
    (hparse : parseTokens tokens source = .error failure) :
    ∃ before token after error, tokens = before ++ token :: after ∧
      failure = .rejected error ∧ Viable before ∧
      (token.kind ≠ .eof → ¬Viable (before ++ [token])) ∧
      (token.kind = .eof → ¬∃ tree, Derives .expr before tree) ∧
      ¬InPlace before token ∧ Blames before token error := by
  obtain ⟨body, eof, rest, rfl, hend, hbody⟩ := exists_split_eof heof
  rw [parseTokens_behind_eof hend hbody] at hparse
  obtain ⟨before, token, after, error, hsplit, hfailure, hcause, hspan, hviable, hrefused, hlast,
    hplace⟩ := exists_blamed_of_parseTokens hend hbody hparse
  refine ⟨before, token, after ++ rest, error, ?_, hfailure, hviable, hrefused, ?_, hplace,
    blames_blame hplace hcause hspan⟩
  · rw [List.append_cons, hsplit, List.append_assoc, List.cons_append]
  · intro hkind
    obtain ⟨rfl, hnone⟩ := hlast hkind
    exact hnone

/-- The tokens of `f((a)`. -/
def unclosedCall : List Token :=
  [⟨.name "f", "f", placeOf 0⟩, ⟨.symbol .leftParen, "(", placeOf 1⟩,
    ⟨.symbol .leftParen, "(", placeOf 2⟩, ⟨.name "a", "a", placeOf 3⟩,
    ⟨.symbol .rightParen, ")", placeOf 4⟩, endOfLine]

theorem parseTokens_unclosedCall :
    parseTokens unclosedCall none = .error (.rejected ⟨.unclosedParenthesis, placeOf 1, none⟩) ∧
      ∃ before token after error, unclosedCall = before ++ token :: after ∧
        ParseFailure.rejected ⟨.unclosedParenthesis, placeOf 1, none⟩ = .rejected error ∧
        Viable before ∧ (token.kind ≠ .eof → ¬Viable (before ++ [token])) ∧
        (token.kind = .eof → ¬∃ tree, Derives .expr before tree) ∧
        ¬InPlace before token ∧ Blames before token error :=
  ⟨rfl, parseTokens_blames unclosedCall none _
    ⟨endOfLine, List.mem_of_getLast? rfl, rfl⟩ rfl⟩

end Reckon
