import Reckon.Proofs.Expr.Passes

/-
The reader accepts nothing but derivations.  What has been read stands for the frames of the
reader, with a derivation for every operand in them; a collapse of frames puts these derivations
together and reads no further.
-/

namespace Reckon

open ReadState Reckon.Frame

/-- These tokens have been read for these frames, and an operand is due behind them. -/
inductive Opened : List Token → List Frame → Prop
  | start : Opened [] []
  | sign {read : List Token} {frames : List Frame} {mark : Token} {symbol : Symbol}
      {operator : Operator} (hopened : Opened read frames) (hmark : mark.kind = .symbol symbol)
      (hoperator : (symbol, operator) ∈ signs) (hsign : operator = .neg ∨ operator = .pos) :
      Opened (read ++ [mark]) (.sign operator hsign :: frames)
  | binary {read word : List Token} {frames : List Frame} {left : Tree} {mark : Token}
      {symbol : Symbol} {operator : Operator} (hopened : Opened read frames)
      (hleft : Derives operator.leftPhrase word left) (hmark : mark.kind = .symbol symbol)
      (hoperator : Operator.binaryOf? symbol = some operator)
      (hbinary : operator.isUnary = false)
      (hwaiting : ∀ waiting, waiting? frames = some waiting →
        Work.bindsBefore waiting operator = false) :
      Opened (read ++ word ++ [mark]) (.binary operator hbinary left :: frames)
  | group {read : List Token} {frames : List Frame} {opening : Token}
      (hopened : Opened read frames) (hopening : opening.kind = .symbol .leftParen) :
      Opened (read ++ [opening]) (.group opening :: frames)
  | call {read : List Token} {frames : List Frame} {token opening : Token} {name : String}
      (hopened : Opened read frames) (hkind : token.kind = .name name)
      (hopening : opening.kind = .symbol .leftParen) :
      Opened (read ++ [token, opening]) (.call opening name [] :: frames)
  | next {read word : List Token} {frames : List Frame} {token opening comma : Token}
      {name : String} {args : List Tree} (hopened : Opened read frames)
      (hkind : token.kind = .name name) (hopening : opening.kind = .symbol .leftParen)
      (hargs : DerivesArgs word args) (hcomma : comma.kind = .symbol .comma) :
      Opened (read ++ (token :: opening :: word) ++ [comma]) (.call opening name args :: frames)

namespace Frame

/-- A collapse can be interrupted by one in which less binds. -/
theorem collapse_collapse {binds binds' : Operator → Bool}
    (hbinds : ∀ operator, binds operator = true → binds' operator = true) (frames : List Frame)
    (tree : Tree) :
    collapse binds' (collapse binds frames tree).1 (collapse binds frames tree).2 =
      collapse binds' frames tree := by
  induction frames generalizing tree with
  | nil => rfl
  | cons frame rest ih =>
      cases frame with
      | sign operator hsign =>
          by_cases hoperator : binds operator = true
          · simp only [collapse, hoperator, hbinds operator hoperator, ↓reduceIte]
            exact ih _
          · simp only [collapse, hoperator]
            rfl
      | binary operator hbinary left =>
          by_cases hoperator : binds operator = true
          · simp only [collapse, hoperator, hbinds operator hoperator, ↓reduceIte]
            exact ih _
          · simp only [collapse, hoperator]
            rfl
      | group opening => rfl
      | call opening name args => rfl

end Frame

/-- The tokens fall into those that stand for the frames and a phrase that spells the tree. -/
def Splits (phrase : Phrase) (tokens : List Token) (held : List Frame × Tree) : Prop :=
  ∃ read word, tokens = read ++ word ∧ Opened read held.1 ∧ Derives phrase word held.2

namespace Opened

variable {read word : List Token} {frames : List Frame} {tree : Tree}

/-- Once all tight operators are applied, the latest operand is a term. -/
theorem splits_term {binds : Operator → Bool}
    (hbinds : ∀ operator, binds operator = decide (2 ≤ operator.precedence))
    (hopened : Opened read frames) (hword : Derives .signed word tree) :
    Splits .term (read ++ word) (collapse binds frames tree) := by
  induction hopened generalizing word tree with
  | start => exact ⟨[], word, rfl, .start, .signed hword⟩
  | @sign read frames mark symbol operator hopened hmark hoperator hsign ih =>
      have hoperand := ih (hword.sign hmark hoperator)
      have htight : binds operator = true := by
        rw [hbinds]
        rcases hsign with rfl | rfl <;> decide
      simpa [collapse, htight] using hoperand
  | @binary read first frames left mark symbol operator hopened hleft hmark hoperator hbinary
      hwaiting ih =>
      rcases Operator.mem_of_binaryOf? hoperator with hadd | hmul | ⟨rfl, rfl⟩
      · have hloose : binds operator = false := by
          rw [hbinds, (Operator.binaryOf?_of_additive hadd).2]
          rfl
        refine ⟨read ++ first ++ [mark], word, rfl, ?_, ?_⟩
        · simpa [collapse, hloose] using
            Opened.binary hopened hleft hmark hoperator hbinary hwaiting
        · simpa [collapse, hloose] using hword.signed
      · have htwo := (Operator.binaryOf?_of_multiplicative hmul).2
        have htight : binds operator = true := by
          rw [hbinds, htwo]
          rfl
        have hrest : ∀ waiting, waiting? frames = some waiting → binds waiting = false := by
          intro waiting hframes
          have hbefore := hwaiting waiting hframes
          rw [hbinds]
          revert hbefore htwo
          cases operator <;> cases waiting <;> decide
        have hterm : Derives .term first left := by
          revert hleft htwo
          cases operator <;> simp [Operator.leftPhrase, Operator.precedence]
        refine ⟨read, first ++ mark :: word, by simp, ?_, ?_⟩
        · simpa [collapse, htight, collapse_of_waiting? hrest] using hopened
        · simpa [collapse, htight, collapse_of_waiting? hrest] using
            hterm.product hmark hmul hword
      · have htight : binds .pow = true := by
          rw [hbinds]
          rfl
        have hoperand := ih (.power (.raise hleft hmark hword))
        simpa [collapse, htight] using hoperand
  | group hopened hopening => exact ⟨_, word, rfl, hopened.group hopening, .signed hword⟩
  | call hopened hkind hopening =>
      exact ⟨_, word, rfl, hopened.call hkind hopening, .signed hword⟩
  | next hopened hkind hopening hargs hcomma =>
      exact ⟨_, word, rfl, hopened.next hkind hopening hargs hcomma, .signed hword⟩

/-- Behind a term at most one operator waits, and applying it gives an expression. -/
theorem splits_of_term (hopened : Opened read frames)
    (hwaiting : ∀ operator, waiting? frames = some operator → operator.precedence = 1)
    (hword : Derives .term word tree) : Splits .expr (read ++ word) (collapseAll frames tree) := by
  cases hopened with
  | start => exact ⟨[], word, rfl, .start, .term hword⟩
  | sign hopened hmark hoperator hsign =>
      have hone := hwaiting _ rfl
      rcases hsign with rfl | rfl <;> cases hone
  | @binary read first frames left mark symbol operator hopened hleft hmark hoperator hbinary
      hbefore =>
      have hone := hwaiting operator rfl
      have hrest : ∀ waiting, waiting? frames = some waiting → (fun _ => true) waiting = false := by
        intro waiting hframes
        have hfalse := hbefore waiting hframes
        revert hfalse hone
        cases operator <;> cases waiting <;> decide
      have hadd : (symbol, operator) ∈ additive := by
        revert hoperator hone
        cases symbol <;> cases operator <;> decide
      have hexpr : Derives .expr first left := by
        revert hleft hone
        cases operator <;> simp [Operator.leftPhrase, Operator.precedence]
      refine ⟨read, first ++ mark :: word, by simp, ?_, ?_⟩
      · simpa [collapseAll, collapse, collapse_of_waiting? hrest] using hopened
      · simpa [collapseAll, collapse, collapse_of_waiting? hrest] using
          hexpr.sum hmark hadd hword
  | group hopened hopening => exact ⟨_, word, rfl, hopened.group hopening, .term hword⟩
  | call hopened hkind hopening =>
      exact ⟨_, word, rfl, hopened.call hkind hopening, .term hword⟩
  | next hopened hkind hopening hargs hcomma =>
      exact ⟨_, word, rfl, hopened.next hkind hopening hargs hcomma, .term hword⟩

/-- Once all operators are applied, the latest operand is an expression. -/
theorem splits_expr (hopened : Opened read frames) (hword : Derives .signed word tree) :
    Splits .expr (read ++ word) (collapseAll frames tree) := by
  obtain ⟨before, phrase, hsplit, hbefore, hterm⟩ :=
    hopened.splits_term (fun operator => rfl) hword
  rw [hsplit, collapseAll, ← collapse_collapse fun _ _ => rfl]
  refine hbefore.splits_of_term ?_ hterm
  intro operator hwaiting
  have hloose := binds_of_waiting?_collapse hwaiting
  revert hloose
  cases operator <;> decide

/-- Before a new operator the latest operand becomes what may stand to the left of it. -/
theorem splits_left {symbol : Symbol} {operator : Operator} (hopened : Opened read frames)
    (hword : Derives .factorial word tree)
    (hoperator : Operator.binaryOf? symbol = some operator) :
    Splits operator.leftPhrase (read ++ word)
      (collapse (Work.bindsBefore · operator) frames tree) := by
  have hsigned : Derives .signed word tree := .power (.factorial hword)
  rcases Operator.mem_of_binaryOf? hoperator with hadd | hmul | ⟨rfl, rfl⟩
  · have hone := (Operator.binaryOf?_of_additive hadd).2
    have hall : (Work.bindsBefore · operator) = fun _ => true := by
      funext waiting
      revert hone
      cases operator <;> cases waiting <;> decide
    have hleft : operator.leftPhrase = .expr := by
      revert hone
      cases operator <;> decide
    rw [hall, hleft]
    exact hopened.splits_expr hsigned
  · have htwo := (Operator.binaryOf?_of_multiplicative hmul).2
    have hleft : operator.leftPhrase = .term := by
      revert htwo hoperator
      cases operator <;> cases symbol <;> decide
    rw [hleft]
    refine hopened.splits_term (fun waiting => ?_) hsigned
    revert htwo
    cases operator <;> cases waiting <;> decide
  · rw [collapse_of_waiting?]
    · exact ⟨read, word, rfl, hopened, hword⟩
    · intro waiting hwaiting
      have htight := precedence_of_waiting? hwaiting
      revert htight
      cases waiting <;> decide

/-- An expression behind an open call is its next argument. -/
theorem argument {opening : Token} {name : String} {args : List Tree}
    (hopened : Opened read (.call opening name args :: frames))
    (hword : Derives .expr word tree) :
    ∃ before token arguments, read ++ word = before ++ token :: opening :: arguments ∧
      Opened before frames ∧ token.kind = .name name ∧ opening.kind = .symbol .leftParen ∧
      DerivesArgs arguments (args ++ [tree]) := by
  cases hopened with
  | call hopened hkind hopening =>
      exact ⟨_, _, word, by simp, hopened, hkind, hopening, .single hword⟩
  | next hopened hkind hopening hargs hcomma =>
      exact ⟨_, _, _, by simp, hopened, hkind, hopening, hargs.more hcomma hword⟩

/-- A call whose parenthesis has just been opened has no arguments yet. -/
theorem emptyCall {opening last : Token} {name : String} {args : List Tree}
    (hopened : Opened (read ++ [last]) (.call opening name args :: frames))
    (hlast : last.kind = .symbol .leftParen) :
    args = [] ∧ ∃ before token, read = before ++ [token] ∧ Opened before frames ∧
      token.kind = .name name := by
  generalize hread : read ++ [last] = whole at hopened
  cases hopened with
  | @call before frames token opening name hopened hkind hopening =>
      have hsplit : read ++ [last] = (before ++ [token]) ++ [opening] := by simp [hread]
      exact ⟨rfl, before, token, (List.append_inj' hsplit rfl).1, hopened, hkind⟩
  | @next before arguments frames token opening comma name args hopened hkind hopening hargs
      hcomma =>
      have hsame := (List.append_inj' hread rfl).2
      simp only [List.cons.injEq, and_true] at hsame
      rw [hsame, hcomma] at hlast
      cases hlast

/-- What is left at the end of the input is an expression, or a parenthesis is open. -/
theorem finish (hopened : Opened read frames) (hword : Derives .factorial word tree) :
    (∃ error, ((Frame.work frames).add tree).finish (entries frames) =
      .error (.rejected error)) ∨
    ∃ operand, Derives .expr (read ++ word) operand ∧
      ((Frame.work frames).add tree).finish (entries frames) =
        .ok (Work.start.add operand) := by
  have hsplits := hopened.splits_expr (.power (.factorial hword))
  have hwaiting := waiting?_collapseAll frames tree
  match hframes : collapseAll frames tree with
  | ([], operand) =>
      rw [hframes] at hsplits
      obtain ⟨before, phrase, hsplit, hbefore, hexpr⟩ := hsplits
      cases hbefore
      rw [hsplit]
      exact .inr ⟨operand, hexpr, Work.finish_of_nil hframes⟩
  | (.group opening :: rest, operand) =>
      refine .inl ⟨⟨.unclosedParenthesis, opening.span, none⟩, ?_⟩
      rw [Work.finish_eq_collapseAll, hframes]
      rfl
  | (.call opening name args :: rest, operand) =>
      refine .inl ⟨⟨.unclosedParenthesis, opening.span, none⟩, ?_⟩
      rw [Work.finish_eq_collapseAll, hframes]
      rfl
  | (.sign operator hsign :: rest, operand) => simp [hframes, waiting?] at hwaiting
  | (.binary operator hbinary left :: rest, operand) => simp [hframes, waiting?] at hwaiting

end Opened

/-- The states of the reader on its way through these tokens. -/
inductive Standing (body : List Token) : ReadState → Prop
  | awaiting {read : List Token} {frames : List Frame} (hopened : Opened read frames)
      (hread : read <+: body) : Standing body (awaiting read.length frames)
  | holding {read word : List Token} {frames : List Frame} {tree : Tree}
      (hopened : Opened read frames) (hword : Derives .factorial word tree)
      (hread : read ++ word <+: body) : Standing body (holding (read ++ word).length frames tree)

/-- A pass either goes on with the next tokens, or rejects them, or ends in the nodes of a
derivation. -/
def Outcome (body : List Token) (state : ReadState) :
    Except ParseFailure (ReadState ⊕ Array (Node Nat)) → Prop
  | .error failure => ∃ error, failure = .rejected error
  | .ok (.inl next) => Standing body next ∧ state.position < next.position
  | .ok (.inr nodes) => ∃ tree, Derives .expr body tree ∧ nodes = (tree.listing 0).toArray

namespace Standing

variable {body read word rest : List Token} {frames : List Frame} {tree : Tree}
  {eof token next : Token}

theorem start (body : List Token) : Standing body ReadState.start :=
  .awaiting .start List.nil_prefix

theorem position_le {state : ReadState} (hstanding : Standing body state) :
    state.position ≤ body.length := by
  cases hstanding with
  | awaiting hopened hread => exact hread.length_le
  | holding hopened hword hread => exact hread.length_le

theorem outcome_reject (state : ReadState) (cause : SyntaxError.Cause) (token : Token) :
    Outcome body state (reject cause token) :=
  ⟨_, rfl⟩

/-- The token behind what has been read. -/
theorem getElem?_length (hsplit : body = read ++ token :: rest) :
    (body ++ [eof]).toArray[read.length]? = some token := by
  simp [hsplit]

theorem getElem?_end (hsplit : body = read) :
    (body ++ [eof]).toArray[read.length]? = some eof := by
  simp [hsplit]

/-- Behind a token there is another one, and one that is no end of the input belongs to the
body. -/
theorem exists_next (hend : eof.kind = .eof) (hsplit : body = read ++ token :: rest) :
    ∃ next, (body ++ [eof]).toArray[read.length + 1]? = some next ∧
      (next.kind ≠ .eof → ∃ more, rest = next :: more) := by
  cases rest with
  | nil => exact ⟨eof, by simp [hsplit], fun hnext => absurd hend hnext⟩
  | cons next more => exact ⟨next, by simp [hsplit], fun _ => ⟨more, rfl⟩⟩

/-- The state behind an operand that ends with the token just read. -/
theorem outcome_operand {before after : List Token} {outer : List Frame} {operand : Tree}
    {state : ReadState} (hsplit : body = read ++ token :: rest)
    (hposition : state.position ≤ read.length) (hopened : Opened before outer)
    (hword : Derives .factorial after operand) (hread : before ++ after = read ++ [token]) :
    Outcome body state (.ok (.inl (ReadState.holding (read.length + 1) outer operand))) := by
  have hlength : read.length + 1 = (before ++ after).length := by simp [hread]
  have hbody : before ++ after <+: body := ⟨rest, by simp [hread, hsplit]⟩
  refine ⟨?_, Nat.lt_succ_of_le hposition⟩
  rw [hlength]
  exact .holding hopened hword hbody

/-- The state behind a token that opens a frame. -/
theorem outcome_opened {outer : List Frame} {state : ReadState}
    (hsplit : body = read ++ token :: rest) (hposition : state.position ≤ read.length)
    (hopened : Opened (read ++ [token]) outer) :
    Outcome body state (.ok (.inl (ReadState.awaiting (read.length + 1) outer))) := by
  have hlength : read.length + 1 = (read ++ [token]).length := by simp
  refine ⟨?_, Nat.lt_succ_of_le hposition⟩
  rw [hlength]
  exact .awaiting hopened ⟨rest, by simp [hsplit]⟩

/-- A mark that begins no operand ends a call without arguments, or is rejected. -/
theorem outcome_mark (hopened : Opened read frames) (hsplit : body = read ++ token :: rest)
    {mark : Symbol} (hkind : token.kind = .symbol mark)
    (hleading : Operator.leadingOf? mark = none) (hparen : mark ≠ .leftParen) :
    Outcome body (ReadState.awaiting read.length frames)
      (step (body ++ [eof]).toArray (ReadState.awaiting read.length frames)) := by
  have htoken : (body ++ [eof]).toArray[read.length]? = some token := getElem?_length hsplit
  rcases List.eq_nil_or_concat' read with rfl | ⟨before, last, rfl⟩
  · rw [step_misplaced htoken hkind hleading hparen tokenBefore?_zero fun _ hcall => by cases hcall]
    exact outcome_reject _ _ _
  · have hlength : (before ++ [last]).length = before.length + 1 := by simp
    have hlast : (body ++ [eof]).toArray[before.length]? = some last := by simp [hsplit]
    have hbefore : tokenBefore? (body ++ [eof]).toArray
        (ReadState.awaiting ((before ++ [last]).length + 1) frames) = .ok (some last) := by
      rw [hlength]
      exact tokenBefore?_succ hlast
    by_cases hcall : mark = .rightParen ∧ last.kind = .symbol .leftParen ∧
        ∃ opening name args outer, frames = .call opening name args :: outer
    · obtain ⟨rfl, hlastKind, opening, name, args, outer, rfl⟩ := hcall
      obtain ⟨rfl, first, title, rfl, houter, htitle⟩ := hopened.emptyCall hlastKind
      rw [hlength] at htoken ⊢
      rw [step_emptyCall hlast hlastKind htoken hkind]
      have hcall : Derives .factorial [title, last, token] (.call name []) :=
        .primary (.emptyCall htitle hlastKind hkind)
      have houtcome : Outcome body
          (ReadState.awaiting (first ++ [title] ++ [last]).length (.call opening name [] :: outer))
          (.ok (.inl (ReadState.holding ((first ++ [title] ++ [last]).length + 1) outer
            (.call name [])))) :=
        outcome_operand hsplit (Nat.le_refl _) houter hcall (by simp)
      rwa [hlength] at houtcome
    · rw [step_misplaced htoken hkind hleading hparen hbefore]
      · exact outcome_reject _ _ _
      · intro hmark hlastKind opening name args outer hframes
        exact hcall ⟨hmark, by simpa using hlastKind, opening, name, args, outer, hframes⟩

/-- Where an operand is due, every token leads to a state or is rejected. -/
theorem outcome_awaiting (hend : eof.kind = .eof) (hopened : Opened read frames)
    (hsplit : body = read ++ token :: rest) (hkind : token.kind ≠ .eof) :
    Outcome body (ReadState.awaiting read.length frames)
      (step (body ++ [eof]).toArray (ReadState.awaiting read.length frames)) := by
  have htoken : (body ++ [eof]).toArray[read.length]? = some token := getElem?_length hsplit
  cases hcase : token.kind with
  | number value =>
      rw [step_number htoken hcase]
      exact outcome_operand hsplit (Nat.le_refl _) hopened (.primary (.number hcase)) rfl
  | name name =>
      obtain ⟨next, hnext, hmore⟩ := exists_next hend hsplit
      by_cases hparen : next.kind = .symbol .leftParen
      · obtain ⟨more, rfl⟩ := hmore (by simp [hparen])
        rw [step_call htoken hcase hnext hparen]
        have hread : body = (read ++ [token]) ++ next :: more := by simp [hsplit]
        have hcall : Opened ((read ++ [token]) ++ [next]) (.call next name [] :: frames) := by
          simpa using hopened.call hcase hparen
        have hlength : read.length + 2 = (read ++ [token]).length + 1 := by simp
        rw [hlength]
        exact outcome_opened hread (by simp [ReadState.awaiting]) hcall
      · rw [step_var htoken hcase hnext hparen]
        exact outcome_operand hsplit (Nat.le_refl _) hopened (.primary (.name hcase)) rfl
  | symbol mark =>
      by_cases hparen : mark = .leftParen
      · subst hparen
        rw [step_group htoken hcase]
        exact outcome_opened hsplit (Nat.le_refl _) (hopened.group hcase)
      · cases hleading : Operator.leadingOf? mark with
        | none => exact outcome_mark hopened hsplit hcase hleading hparen
        | some operator =>
            have hsigns := Operator.sign_of_leadingOf? hleading
            have hsign : operator = .neg ∨ operator = .pos := by
              revert hsigns
              cases mark <;> cases operator <;> decide
            rw [step_sign htoken hcase hleading hsign]
            exact outcome_opened hsplit (Nat.le_refl _) (hopened.sign hcase hsigns hsign)
  | eof => exact absurd hcase hkind

/-- A closing parenthesis ends the innermost group or call, or is rejected. -/
theorem outcome_closing (hsplit : body = read ++ token :: rest)
    (hkind : token.kind = .symbol .rightParen)
    (hsplits : Splits .expr read (collapseAll frames tree)) :
    Outcome body (ReadState.holding read.length frames tree)
      (step (body ++ [eof]).toArray (ReadState.holding read.length frames tree)) := by
  have htoken : (body ++ [eof]).toArray[read.length]? = some token := getElem?_length hsplit
  have hwaiting := waiting?_collapseAll frames tree
  obtain ⟨before, phrase, hread, hopened, hexpr⟩ := hsplits
  match hframes : collapseAll frames tree with
  | ([], operand) =>
      rw [step_unmatched htoken hkind hframes]
      exact outcome_reject _ _ _
  | (.group opening :: outer, operand) =>
      rw [step_closeGroup htoken hkind hframes]
      rw [hframes] at hopened hexpr
      cases hopened with
      | group houter hopening =>
          exact outcome_operand hsplit (Nat.le_refl _) houter
            (.primary (.group hopening hexpr hkind)) (by simp [hread])
  | (.call opening name args :: outer, operand) =>
      rw [step_closeCall htoken hkind hframes]
      rw [hframes] at hopened hexpr
      obtain ⟨first, title, arguments, hfirst, houter, htitle, hparen, hargs⟩ :=
        hopened.argument hexpr
      rw [← hread] at hfirst
      exact outcome_operand hsplit (Nat.le_refl _) houter
        (.primary (.call htitle hparen hargs hkind)) (by simp [hfirst])
  | (.sign operator hsign :: outer, operand) => simp [hframes, waiting?] at hwaiting
  | (.binary operator hbinary left :: outer, operand) => simp [hframes, waiting?] at hwaiting

/-- A comma ends an argument of the innermost call, or is rejected. -/
theorem outcome_comma (hsplit : body = read ++ token :: rest)
    (hkind : token.kind = .symbol .comma)
    (hsplits : Splits .expr read (collapseAll frames tree)) :
    Outcome body (ReadState.holding read.length frames tree)
      (step (body ++ [eof]).toArray (ReadState.holding read.length frames tree)) := by
  have htoken : (body ++ [eof]).toArray[read.length]? = some token := getElem?_length hsplit
  obtain ⟨before, phrase, hread, hopened, hexpr⟩ := hsplits
  by_cases hcall : ∃ opening name args outer operand,
      collapseAll frames tree = (.call opening name args :: outer, operand)
  · obtain ⟨opening, name, args, outer, operand, hframes⟩ := hcall
    rw [step_comma htoken hkind hframes]
    rw [hframes] at hopened hexpr
    obtain ⟨first, title, arguments, hfirst, houter, htitle, hparen, hargs⟩ :=
      hopened.argument hexpr
    rw [← hread] at hfirst
    apply outcome_opened hsplit (Nat.le_refl _)
    rw [hfirst]
    exact houter.next htitle hparen hargs hkind
  · rw [step_comma_misplaced htoken hkind fun opening name args outer operand hframes =>
      hcall ⟨opening, name, args, outer, operand, hframes⟩]
    exact outcome_reject _ _ _

/-- An operator between operands takes what binds before it as its left one. -/
theorem outcome_binary (hopened : Opened read frames) (hword : Derives .factorial word tree)
    (hsplit : body = read ++ word ++ token :: rest) {symbol : Symbol} {operator : Operator}
    (hkind : token.kind = .symbol symbol)
    (hoperator : Operator.binaryOf? symbol = some operator) :
    Outcome body (ReadState.holding (read ++ word).length frames tree)
      (step (body ++ [eof]).toArray (ReadState.holding (read ++ word).length frames tree)) := by
  have htoken : (body ++ [eof]).toArray[(read ++ word).length]? = some token :=
    getElem?_length hsplit
  obtain ⟨before, phrase, hread, houter, hleft⟩ := hopened.splits_left hword hoperator
  rw [step_binary htoken hkind hoperator rfl]
  apply outcome_opened hsplit (Nat.le_refl _)
  rw [hread]
  exact houter.binary hleft hkind hoperator _ fun waiting => binds_of_waiting?_collapse

/-- Where an operator is due, every token leads to a state or is rejected. -/
theorem outcome_holding (hopened : Opened read frames) (hword : Derives .factorial word tree)
    (hsplit : body = read ++ word ++ token :: rest) (hkind : token.kind ≠ .eof) :
    Outcome body (ReadState.holding (read ++ word).length frames tree)
      (step (body ++ [eof]).toArray (ReadState.holding (read ++ word).length frames tree)) := by
  have htoken : (body ++ [eof]).toArray[(read ++ word).length]? = some token :=
    getElem?_length hsplit
  have hexpr := hopened.splits_expr (.power (.factorial hword))
  match hcase : token.kind with
  | .number value =>
      rw [step_holding_misplaced htoken (.inr (.inl ⟨value, hcase⟩))]
      exact outcome_reject _ _ _
  | .name name =>
      rw [step_holding_misplaced htoken (.inr (.inr ⟨name, hcase⟩))]
      exact outcome_reject _ _ _
  | .symbol .leftParen =>
      rw [step_holding_misplaced htoken (.inl hcase)]
      exact outcome_reject _ _ _
  | .symbol .rightParen => exact outcome_closing hsplit hcase hexpr
  | .symbol .comma => exact outcome_comma hsplit hcase hexpr
  | .symbol .bang =>
      rw [step_bang htoken hcase]
      exact outcome_operand hsplit (Nat.le_refl _) hopened (hword.bang hcase) (by simp)
  | .symbol .plus => exact outcome_binary hopened hword hsplit hcase rfl
  | .symbol .minus => exact outcome_binary hopened hword hsplit hcase rfl
  | .symbol .star => exact outcome_binary hopened hword hsplit hcase rfl
  | .symbol .slash => exact outcome_binary hopened hword hsplit hcase rfl
  | .symbol .percent => exact outcome_binary hopened hword hsplit hcase rfl
  | .symbol .caret => exact outcome_binary hopened hword hsplit hcase rfl
  | .eof => exact absurd hcase hkind

/-- Every pass on the way through the tokens ends as it should. -/
theorem outcome {state : ReadState} (hend : eof.kind = .eof)
    (hbody : ∀ token ∈ body, token.kind ≠ .eof) (hstanding : Standing body state) :
    Outcome body state (step (body ++ [eof]).toArray state) := by
  cases hstanding with
  | @awaiting read frames hopened hread =>
      obtain ⟨rest, hsplit⟩ := hread
      cases rest with
      | nil =>
          rw [List.append_nil] at hsplit
          rw [step_awaiting_eof (getElem?_end hsplit.symm) hend]
          exact outcome_reject _ _ _
      | cons token rest =>
          have hmem : token ∈ body := by simp [← hsplit]
          exact outcome_awaiting hend hopened hsplit.symm (hbody token hmem)
  | @holding read word frames tree hopened hword hread =>
      obtain ⟨rest, hsplit⟩ := hread
      cases rest with
      | nil =>
          rw [List.append_nil] at hsplit
          have htoken : (body ++ [eof]).toArray[(read ++ word).length]? = some eof :=
            getElem?_end hsplit.symm
          rw [step_holding_eof htoken hend]
          rcases hopened.finish hword with ⟨error, hfinish⟩ | ⟨operand, hexpr, hfinish⟩
          · rw [hfinish]
            exact ⟨error, rfl⟩
          · rw [hfinish]
            exact ⟨operand, hsplit ▸ hexpr, by simp [Work.add, Work.start]⟩
      | cons token rest =>
          have hmem : token ∈ body := by simp [← hsplit]
          exact outcome_holding hopened hword hsplit.symm (hbody token hmem)

/-- With as many passes as there are tokens the reading ends, in an error of the text or in the
nodes of a derivation. -/
theorem run {state : ReadState} (hend : eof.kind = .eof)
    (hbody : ∀ token ∈ body, token.kind ≠ .eof) (hstanding : Standing body state)
    (passes : Nat) (hpasses : body.length < state.position + passes) :
    (∃ error, ReadState.run (body ++ [eof]).toArray passes state =
      some (.error (.rejected error))) ∨
    ∃ tree, Derives .expr body tree ∧
      ReadState.run (body ++ [eof]).toArray passes state =
        some (.ok (tree.listing 0).toArray) := by
  induction passes generalizing state with
  | zero => exact absurd hstanding.position_le (Nat.not_le_of_lt hpasses)
  | succ passes ih =>
      have houtcome := hstanding.outcome hend hbody
      simp only [ReadState.run]
      cases hstep : step (body ++ [eof]).toArray state with
      | error failure =>
          rw [hstep] at houtcome
          obtain ⟨error, rfl⟩ := houtcome
          exact .inl ⟨error, rfl⟩
      | ok result =>
          rw [hstep] at houtcome
          cases result with
          | inr nodes =>
              obtain ⟨tree, hexpr, rfl⟩ := houtcome
              exact .inr ⟨tree, hexpr, rfl⟩
          | inl next =>
              obtain ⟨hnext, hposition⟩ := houtcome
              exact ih hnext (by omega)

end Standing

end Reckon
