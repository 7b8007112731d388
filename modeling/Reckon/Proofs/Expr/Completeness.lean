import Mathlib.Logic.Relation
import Reckon.Proofs.Expr.Passes

/-
The reader follows every derivation.  Reading a phrase within some frames may leave operators of
the phrase waiting; what counts is that the frames collapse then as the old ones do around the
tree of the phrase.
-/

namespace Reckon

namespace ReadState

/-- Passes lead from one state to another without ending the reading. -/
def Reaches (tokens : Array Token) : ReadState → ReadState → Prop :=
  Relation.ReflTransGen fun state next => step tokens state = .ok (.inl next)

/-- From this position on there are these tokens. -/
def Ahead (tokens : Array Token) (position : Nat) (rest : List Token) : Prop :=
  tokens.toList.drop position = rest

variable {tokens : Array Token} {position : Nat}

namespace Ahead

theorem getElem? {token : Token} {rest : List Token}
    (hahead : Ahead tokens position (token :: rest)) : tokens[position]? = some token := by
  have hhead := congrArg (fun list => list[0]?) hahead
  simpa using hhead

theorem append {word rest : List Token} (hahead : Ahead tokens position (word ++ rest)) :
    Ahead tokens (position + word.length) rest := by
  rw [Ahead, ← List.drop_drop, hahead, List.drop_left]

theorem tail {token : Token} {rest : List Token}
    (hahead : Ahead tokens position (token :: rest)) : Ahead tokens (position + 1) rest :=
  append (show Ahead tokens position ([token] ++ rest) from hahead)

end Ahead

theorem Reaches.single {state next : ReadState} (hstep : step tokens state = .ok (.inl next)) :
    Reaches tokens state next :=
  Relation.ReflTransGen.single hstep

end ReadState

open ReadState Reckon.Frame

/-- The frames that a phrase can stand in: their innermost operator binds looser than what the
phrase consists of. -/
def Phrase.Admits (phrase : Phrase) (frames : List Frame) : Prop :=
  match phrase with
  | .expr => waiting? frames = none
  | .term => ∀ operator, waiting? frames = some operator → operator.precedence = 1
  | _ => True

/-- Whether all operators that reading the phrase may leave waiting are bound. -/
def Phrase.Closes (phrase : Phrase) (binds : Operator → Bool) : Prop :=
  match phrase with
  | .expr => ∀ operator, binds operator = true
  | .term => ∀ operator, 2 ≤ operator.precedence → binds operator = true
  | .signed | .power => ∀ operator, 3 ≤ operator.precedence → binds operator = true
  | .factorial | .primary => True

/-- Reading the phrase leaves frames that collapse like the old ones around its tree. -/
def Reads (phrase : Phrase) (word : List Token) (tree : Tree) : Prop :=
  ∀ ⦃tokens : Array Token⦄ ⦃position : Nat⦄ ⦃frames : List Frame⦄ ⦃next : Token⦄
    ⦃after : List Token⦄, Ahead tokens position (word ++ next :: after) →
    next.kind ≠ .symbol .leftParen → phrase.Admits frames →
    ∃ inner operand,
      Reaches tokens (awaiting position frames) (holding (position + word.length) inner operand) ∧
        ∀ binds, phrase.Closes binds → collapse binds inner operand = collapse binds frames tree

/-- Reading arguments leaves frames in which all but the last argument belong to the call. -/
def ReadsArgs (word : List Token) (args : List Tree) : Prop :=
  ∀ ⦃tokens : Array Token⦄ ⦃position : Nat⦄ ⦃next : Token⦄ ⦃after : List Token⦄,
    Ahead tokens position (word ++ next :: after) → next.kind ≠ .symbol .leftParen →
    ∀ (frames : List Frame) (opening : Token) (name : String),
      ∃ inner operand init last,
      Reaches tokens (awaiting position (.call opening name [] :: frames))
        (holding (position + word.length) inner operand) ∧
      args = init ++ [last] ∧
      collapseAll inner operand = (.call opening name init :: frames, last)

namespace Reads

variable {word first second : List Token} {tree left right : Tree} {mark : Token}
  {symbol : Symbol} {operator : Operator}

/-- A phrase of one kind as one of another, if it fits into as many frames and is closed as
often. -/
theorem weaken {phrase other : Phrase} (hword : Reads phrase word tree)
    (hadmits : ∀ frames, other.Admits frames → phrase.Admits frames)
    (hcloses : ∀ binds, other.Closes binds → phrase.Closes binds) : Reads other word tree := by
  intro tokens position frames next after hahead hnext hframes
  obtain ⟨inner, operand, hreach, hcollapse⟩ := hword hahead hnext (hadmits frames hframes)
  exact ⟨inner, operand, hreach, fun binds hbinds => hcollapse binds (hcloses binds hbinds)⟩

/-- An operator between two operands. -/
theorem binary {outer inside behind : Phrase} (hleft : Reads inside first left)
    (hright : Reads behind second right) (hmark : mark.kind = .symbol symbol)
    (hoperator : Operator.binaryOf? symbol = some operator)
    (hadmits : ∀ frames, outer.Admits frames → inside.Admits frames ∧
      ∀ waiting, waiting? frames = some waiting → Work.bindsBefore waiting operator = false)
    (hinside : inside.Closes (Work.bindsBefore · operator))
    (hbehind : ∀ frames, waiting? frames = some operator → behind.Admits frames)
    (hcloses : ∀ binds, outer.Closes binds → behind.Closes binds ∧ binds operator = true) :
    Reads outer (first ++ mark :: second) (.binary operator left right) := by
  intro tokens position frames next after hahead hnext hframes
  obtain ⟨hadmitsLeft, hwaiting⟩ := hadmits frames hframes
  rw [List.append_assoc, List.cons_append] at hahead
  have hparen : mark.kind ≠ .symbol .leftParen := by
    rw [hmark]
    rintro hsymbol
    cases hsymbol
    simp [Operator.binaryOf?] at hoperator
  obtain ⟨inner, operand, hreach, hcollapse⟩ := hleft hahead hparen hadmitsLeft
  have hmarkAhead := hahead.append
  have hleftDone : collapse (Work.bindsBefore · operator) inner operand = (frames, left) := by
    rw [hcollapse _ hinside, collapse_of_waiting? hwaiting]
  have hstep := step_binary hmarkAhead.getElem? hmark hoperator hleftDone
  obtain ⟨innerRight, operandRight, hreachRight, hcollapseRight⟩ :=
    hright hmarkAhead.tail hnext
      (hbehind (.binary operator (Operator.isUnary_of_binaryOf? hoperator) left :: frames) rfl)
  refine ⟨innerRight, operandRight, ?_, ?_⟩
  · have hlength : position + (first ++ mark :: second).length =
        position + first.length + 1 + second.length := by
      simp only [List.length_append, List.length_cons]
      omega
    rw [hlength]
    exact (hreach.trans (Reaches.single hstep)).trans hreachRight
  · intro binds hbinds
    obtain ⟨hbindsRight, hbindsOperator⟩ := hcloses binds hbinds
    rw [hcollapseRight binds hbindsRight]
    simp [collapse, hbindsOperator]

theorem sum (hleft : Reads .expr first left) (hright : Reads .term second right)
    (hmark : mark.kind = .symbol symbol) (hoperator : (symbol, operator) ∈ additive) :
    Reads .expr (first ++ mark :: second) (.binary operator left right) := by
  obtain ⟨hbinary, hprecedence⟩ := Operator.binaryOf?_of_additive hoperator
  refine hleft.binary hright hmark hbinary ?_ ?_ ?_ ?_
  · intro frames hframes
    refine ⟨hframes, fun waiting hwaiting => ?_⟩
    rw [show waiting? frames = none from hframes] at hwaiting
    cases hwaiting
  · intro waiting
    revert hprecedence
    cases operator <;> cases waiting <;> decide
  · intro frames hwaiting other hother
    rw [hwaiting] at hother
    cases hother
    exact hprecedence
  · intro binds hbinds
    exact ⟨fun other _ => hbinds other, hbinds operator⟩

theorem product (hleft : Reads .term first left) (hright : Reads .signed second right)
    (hmark : mark.kind = .symbol symbol) (hoperator : (symbol, operator) ∈ multiplicative) :
    Reads .term (first ++ mark :: second) (.binary operator left right) := by
  obtain ⟨hbinary, hprecedence⟩ := Operator.binaryOf?_of_multiplicative hoperator
  refine hleft.binary hright hmark hbinary ?_ ?_ ?_ ?_
  · intro frames hframes
    refine ⟨hframes, fun waiting hwaiting => ?_⟩
    have hloose := hframes waiting hwaiting
    revert hloose hprecedence
    cases operator <;> cases waiting <;> decide
  · intro waiting
    revert hprecedence
    cases operator <;> cases waiting <;> decide
  · intro frames hwaiting
    trivial
  · intro binds hbinds
    exact ⟨fun other hother => hbinds other (Nat.le_of_succ_le hother),
      hbinds operator (Nat.le_of_eq hprecedence.symm)⟩

theorem raise (hleft : Reads .factorial first left) (hright : Reads .signed second right)
    (hmark : mark.kind = .symbol .caret) :
    Reads .power (first ++ mark :: second) (.binary .pow left right) := by
  refine hleft.binary hright hmark rfl ?_ ?_ ?_ ?_
  · intro frames _
    refine ⟨trivial, fun waiting hwaiting => ?_⟩
    have htight := precedence_of_waiting? hwaiting
    revert htight
    cases waiting <;> decide
  · trivial
  · intro frames hwaiting
    trivial
  · intro binds hbinds
    exact ⟨hbinds, hbinds .pow (by decide)⟩

/-- An operator in front of its operand waits without anything being applied. -/
theorem sign (hoperand : Reads .signed word tree) (hmark : mark.kind = .symbol symbol)
    (hoperator : (symbol, operator) ∈ signs) :
    Reads .signed (mark :: word) (.unary operator tree) := by
  have hsign : operator = .neg ∨ operator = .pos := by
    revert hoperator
    cases symbol <;> cases operator <;> decide
  intro tokens position frames next after hahead hnext _
  have hstep : step tokens (awaiting position frames) = .ok (.inl _) :=
    step_sign hahead.getElem? hmark (Operator.leadingOf?_of_sign hoperator) hsign
  have hwithin : Phrase.signed.Admits (.sign operator hsign :: frames) := trivial
  obtain ⟨inner, operand, hreach, hcollapse⟩ := hoperand hahead.tail hnext hwithin
  refine ⟨inner, operand, ?_, ?_⟩
  · have hlength : position + (mark :: word).length = position + 1 + word.length := by
      rw [List.length_cons]
      omega
    rw [hlength]
    exact (Reaches.single hstep).trans hreach
  · intro binds hbinds
    have hprecedence : 3 ≤ operator.precedence := by
      rcases hsign with rfl | rfl <;> decide
    rw [hcollapse binds hbinds]
    simp [collapse, hbinds operator hprecedence]

/-- Nothing of a factorial is left waiting, so the frames are the old ones. -/
theorem holding (hword : Reads .factorial word tree) {tokens : Array Token} {position : Nat}
    {next : Token} {after : List Token} (hahead : Ahead tokens position (word ++ next :: after))
    (hnext : next.kind ≠ .symbol .leftParen) (frames : List Frame) :
    Reaches tokens (awaiting position frames)
      (ReadState.holding (position + word.length) frames tree) := by
  have hwithin : Phrase.factorial.Admits frames := trivial
  obtain ⟨inner, operand, hreach, hcollapse⟩ := hword hahead hnext hwithin
  have hsame := hcollapse (fun _ => false) trivial
  rw [collapse_of_waiting? fun _ _ => rfl, collapse_of_waiting? fun _ _ => rfl] at hsame
  cases hsame
  exact hreach

theorem bang (hoperand : Reads .factorial word tree) (hmark : mark.kind = .symbol .bang) :
    Reads .factorial (word ++ [mark]) (.unary .fact tree) := by
  intro tokens position frames next after hahead hnext _
  rw [List.append_assoc, List.singleton_append] at hahead
  have hreach := hoperand.holding hahead (by simp [hmark]) frames
  refine ⟨frames, .unary .fact tree, ?_, fun _ _ => rfl⟩
  rw [List.length_append, List.length_singleton, ← Nat.add_assoc]
  exact hreach.trans (Reaches.single (step_bang hahead.append.getElem? hmark))

/-- Between its parentheses an expression becomes one operand. -/
theorem collapsed (hexpr : Reads .expr word tree) {tokens : Array Token} {position : Nat}
    {frames : List Frame} {next : Token} {after : List Token}
    (hahead : Ahead tokens position (word ++ next :: after))
    (hnext : next.kind ≠ .symbol .leftParen) (hframes : waiting? frames = none) :
    ∃ inner operand,
      Reaches tokens (awaiting position frames)
        (ReadState.holding (position + word.length) inner operand) ∧
      collapseAll inner operand = (frames, tree) := by
  obtain ⟨inner, operand, hreach, hcollapse⟩ := hexpr hahead hnext hframes
  refine ⟨inner, operand, hreach, ?_⟩
  rw [collapseAll, hcollapse _ fun _ => rfl, collapse_of_waiting?]
  intro operator hwaiting
  rw [hframes] at hwaiting
  cases hwaiting

theorem group {opening closing : Token} (hopening : opening.kind = .symbol .leftParen)
    (hexpr : Reads .expr word tree) (hclosing : closing.kind = .symbol .rightParen) :
    Reads .primary (opening :: word ++ [closing]) tree := by
  intro tokens position frames next after hahead hnext _
  rw [List.append_assoc, List.cons_append, List.singleton_append] at hahead
  have hopen : step tokens (awaiting position frames) = .ok (.inl _) :=
    step_group hahead.getElem? hopening
  have hwithin : waiting? (.group opening :: frames) = none := rfl
  obtain ⟨inner, operand, hreach, hcollapse⟩ :=
    hexpr.collapsed hahead.tail (by simp [hclosing]) hwithin
  have hclose := step_closeGroup hahead.tail.append.getElem? hclosing hcollapse
  refine ⟨frames, tree, ?_, fun _ _ => rfl⟩
  have hlength : position + (opening :: word ++ [closing]).length =
      position + 1 + word.length + 1 := by
    simp only [List.length_append, List.length_cons, List.length_nil]
    omega
  rw [hlength]
  exact ((Reaches.single hopen).trans hreach).trans (Reaches.single hclose)

theorem number {token : Token} {value : Float} (hkind : token.kind = .number value) :
    Reads .primary [token] (.literal value) := by
  intro tokens position frames next after hahead _ _
  exact ⟨frames, .literal value, Reaches.single (step_number hahead.getElem? hkind),
    fun _ _ => rfl⟩

theorem var {token : Token} {name : String} (hkind : token.kind = .name name) :
    Reads .primary [token] (.var name) := by
  intro tokens position frames next after hahead hnext _
  exact ⟨frames, .var name,
    Reaches.single (step_var hahead.getElem? hkind hahead.tail.getElem? hnext), fun _ _ => rfl⟩

theorem emptyCall {token opening closing : Token} {name : String}
    (hkind : token.kind = .name name) (hopening : opening.kind = .symbol .leftParen)
    (hclosing : closing.kind = .symbol .rightParen) :
    Reads .primary [token, opening, closing] (.call name []) := by
  intro tokens position frames next after hahead _ _
  have hopen : step tokens (awaiting position frames) = .ok (.inl _) :=
    step_call hahead.getElem? hkind hahead.tail.getElem? hopening
  have hclose : step tokens (awaiting (position + 2) (.call opening name [] :: frames)) =
      .ok (.inl _) :=
    step_emptyCall hahead.tail.getElem? hopening hahead.tail.tail.getElem? hclosing
  exact ⟨frames, .call name [], (Reaches.single hopen).trans (Reaches.single hclose),
    fun _ _ => rfl⟩

theorem call {token opening closing : Token} {name : String} {args : List Tree}
    (hkind : token.kind = .name name) (hopening : opening.kind = .symbol .leftParen)
    (hargs : ReadsArgs word args) (hclosing : closing.kind = .symbol .rightParen) :
    Reads .primary (token :: opening :: word ++ [closing]) (.call name args) := by
  intro tokens position frames next after hahead hnext _
  rw [List.append_assoc, List.cons_append, List.cons_append, List.singleton_append] at hahead
  have hopen : step tokens (awaiting position frames) = .ok (.inl _) :=
    step_call hahead.getElem? hkind hahead.tail.getElem? hopening
  obtain ⟨inner, operand, init, last, hreach, rfl, hcollapse⟩ :=
    hargs hahead.tail.tail (by simp [hclosing]) frames opening name
  have hclose := step_closeCall hahead.tail.tail.append.getElem? hclosing hcollapse
  refine ⟨frames, .call name (init ++ [last]), ?_, fun _ _ => rfl⟩
  have hlength : position + (token :: opening :: word ++ [closing]).length =
      position + 2 + word.length + 1 := by
    simp only [List.length_append, List.length_cons, List.length_nil]
    omega
  rw [hlength]
  exact ((Reaches.single hopen).trans hreach).trans (Reaches.single hclose)

end Reads

namespace ReadsArgs

variable {first second word : List Token} {args : List Tree} {tree : Tree}

theorem single (hexpr : Reads .expr word tree) : ReadsArgs word [tree] := by
  intro tokens position next after hahead hnext frames opening name
  have hwithin : waiting? (.call opening name [] :: frames) = none := rfl
  obtain ⟨inner, operand, hreach, hcollapse⟩ := hexpr.collapsed hahead hnext hwithin
  exact ⟨inner, operand, [], tree, hreach, rfl, hcollapse⟩

theorem more (hargs : ReadsArgs first args) {comma : Token}
    (hcomma : comma.kind = .symbol .comma) (hexpr : Reads .expr second tree) :
    ReadsArgs (first ++ comma :: second) (args ++ [tree]) := by
  intro tokens position next after hahead hnext frames opening name
  rw [List.append_assoc, List.cons_append] at hahead
  obtain ⟨inner, operand, init, last, hreach, rfl, hcollapse⟩ :=
    hargs hahead (by simp [hcomma]) frames opening name
  have hstep := step_comma hahead.append.getElem? hcomma hcollapse
  have hwithin : waiting? (.call opening name (init ++ [last]) :: frames) = none := rfl
  obtain ⟨innerLast, operandLast, hreachLast, hcollapseLast⟩ :=
    hexpr.collapsed hahead.append.tail hnext hwithin
  refine ⟨innerLast, operandLast, init ++ [last], tree, ?_, rfl, hcollapseLast⟩
  have hlength : position + (first ++ comma :: second).length =
      position + first.length + 1 + second.length := by
    simp only [List.length_append, List.length_cons]
    omega
  rw [hlength]
  exact (hreach.trans (Reaches.single hstep)).trans hreachLast

end ReadsArgs

mutual

/-- The reader follows every derivation. -/
theorem Derives.reads {phrase : Phrase} {word : List Token} {tree : Tree} :
    Derives phrase word tree → Reads phrase word tree
  | .term hterm => hterm.reads.weaken (fun _ hframes operator hwaiting => by
      rw [show waiting? _ = none from hframes] at hwaiting
      cases hwaiting) fun _ hbinds operator _ => hbinds operator
  | .sum hfirst hmark hoperator hsecond => hfirst.reads.sum hsecond.reads hmark hoperator
  | .signed hsigned => hsigned.reads.weaken (fun _ _ => trivial)
      fun _ hbinds operator hoperator => hbinds operator (Nat.le_of_succ_le hoperator)
  | .product hfirst hmark hoperator hsecond => hfirst.reads.product hsecond.reads hmark hoperator
  | .sign hmark hoperator hoperand => hoperand.reads.sign hmark hoperator
  | .power hpower => hpower.reads.weaken (fun _ _ => trivial) fun _ hbinds => hbinds
  | .factorial hfactorial =>
      hfactorial.reads.weaken (fun _ _ => trivial) fun _ _ => trivial
  | .raise hbase hmark hexponent => hbase.reads.raise hexponent.reads hmark
  | .primary hprimary => hprimary.reads.weaken (fun _ _ => trivial) fun _ _ => trivial
  | .bang hoperand hmark => hoperand.reads.bang hmark
  | .number hkind => .number hkind
  | .name hkind => .var hkind
  | .emptyCall hkind hopening hclosing => .emptyCall hkind hopening hclosing
  | .call hkind hopening hargs hclosing => .call hkind hopening hargs.reads hclosing
  | .group hopening hexpr hclosing => .group hopening hexpr.reads hclosing

theorem DerivesArgs.reads {word : List Token} {args : List Tree} :
    DerivesArgs word args → ReadsArgs word args
  | .single hexpr => .single hexpr.reads
  | .more hargs hcomma hexpr => hargs.reads.more hcomma hexpr.reads

end

end Reckon
