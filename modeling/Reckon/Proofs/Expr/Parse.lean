import Mathlib.Data.List.Nodup
import Reckon.Proofs.Expr.Reading
import Reckon.Proofs.Token.Scan

/-
Reading a text.  Whatever the text is, the reader ends, and an error of the text is the only way
it fails: no operand is missing, no token in front is looked for in vain, and no node comes before
its operands.  In what is read each node but the last is used once.
-/

namespace Reckon

open ReadState

/-- What occurs once among all operands is an operand of one node, once. -/
theorem exists_node_of_count {nodes : List (Node Nat)} {position : Nat}
    (hcount : (nodes.flatMap Node.operands).count position = 1) :
    ∃ before node after, nodes = before ++ node :: after ∧
      node.operands.count position = 1 ∧
      ∀ other ∈ before ++ after, position ∉ other.operands := by
  induction nodes with
  | nil => simp at hcount
  | cons first rest ih =>
      rw [List.flatMap_cons, List.count_append] at hcount
      by_cases hfirst : position ∈ first.operands
      · have hpos := List.count_pos_iff.mpr hfirst
        have hrest : (rest.flatMap Node.operands).count position = 0 := by omega
        refine ⟨[], first, rest, rfl, by omega, ?_⟩
        intro other hother hmem
        exact List.count_eq_zero.mp hrest (List.mem_flatMap.mpr ⟨other, hother, hmem⟩)
      · rw [List.count_eq_zero.mpr hfirst, Nat.zero_add] at hcount
        obtain ⟨before, node, after, rfl, hnode, hothers⟩ := ih hcount
        refine ⟨first :: before, node, after, rfl, hnode, ?_⟩
        intro other hother
        rcases List.mem_cons.mp hother with rfl | hother
        · exact hfirst
        · exact hothers other hother

/-- In the expression of a tree each node but the last is an operand of one later node, once. -/
theorem Tree.toExpr_used (tree : Tree) (source : Option String) {position : Nat}
    (hposition : position < (tree.toExpr source).size - 1) :
    ∃ before node after, (tree.toExpr source).nodes = before ++ node :: after ∧
      position < before.length ∧ node.operands.count position = 1 ∧
      ∀ other ∈ before ++ after, position ∉ other.operands := by
  have hsize : (tree.toExpr source).size = tree.size := tree.length_listing 0
  have hcount := (tree.operands_listing 0).count_eq position
  have hroot : tree.root 0 ≠ position := by
    simp only [root]
    omega
  have hall : (List.range' 0 tree.size).count position = 1 :=
    List.count_eq_one_of_mem (List.nodup_range' 1) (by simp; omega)
  rw [List.count_append, List.count_singleton, if_neg (by simpa using hroot), hall,
    Nat.add_zero] at hcount
  obtain ⟨before, node, after, hnodes, hnode, hothers⟩ := exists_node_of_count hcount
  refine ⟨before, node, after, hnodes, ?_, hnode, hothers⟩
  have hbefore := tree.operandsBefore_listing 0
  rw [hnodes, operandsBefore_append, OperandsBefore, Nat.zero_add] at hbefore
  exact hbefore.2.1 position (List.count_pos_iff.mp (by omega))

section

variable {source : String} {tokens body : List Token} {eof : Token} {tree : Tree}

theorem standing_of_reaches {state : ReadState} (hend : eof.kind = .eof)
    (hbody : ∀ token ∈ body, token.kind ≠ .eof)
    (hreaches : Reaches (body ++ [eof]).toArray ReadState.start state) : Standing body state := by
  induction hreaches with
  | refl => exact Standing.start body
  | tail _ hstep ih =>
      have houtcome := ih.outcome hend hbody
      rw [hstep] at houtcome
      exact houtcome.1

/-- No pass of a reading fails but for an error of the text. -/
theorem rejected_of_reaches {state : ReadState} {failure : ParseFailure} (hend : eof.kind = .eof)
    (hbody : ∀ token ∈ body, token.kind ≠ .eof)
    (hreaches : Reaches (body ++ [eof]).toArray ReadState.start state)
    (hstep : step (body ++ [eof]).toArray state = .error failure) :
    ∃ error, failure = .rejected error := by
  have houtcome := (standing_of_reaches hend hbody hreaches).outcome hend hbody
  rw [hstep] at houtcome
  exact houtcome

/-- The reading of a text is that of its tokens. -/
theorem parse_of_tokenize (htokens : tokenize source = .ok tokens) :
    parse source = parseTokens tokens (some source) := by
  simp only [parse, htokens]
  rfl

theorem parse_cases (source : String) :
    (∃ error, parse source = .error (.rejected error)) ∨
    ∃ body eof tree, tokenize source = .ok (body ++ [eof]) ∧ eof.kind = .eof ∧
      Derives .expr body tree ∧ parse source = .ok (tree.toExpr (some source)) := by
  cases htokens : tokenize source with
  | error error => exact .inl ⟨error, by simp [parse, htokens]; rfl⟩
  | ok tokens =>
      obtain ⟨body, eof, rfl, hend, hbody⟩ := tokenize_eof htokens
      have hparse := parse_of_tokenize htokens
      rcases parseTokens_cases hend hbody (some source) with ⟨error, herror⟩ | ⟨tree, hexpr, hok⟩
      · exact .inl ⟨error, hparse.trans herror⟩
      · exact .inr ⟨body, eof, tree, rfl, hend, hexpr, hparse.trans hok⟩

/-- What has been parsed is the tree of a derivation from the tokens of the text. -/
theorem exists_derives_of_parse {expr : Expr} (hparse : parse source = .ok expr) :
    ∃ body eof tree, tokenize source = .ok (body ++ [eof]) ∧ Derives .expr body tree ∧
      expr = tree.toExpr (some source) := by
  rcases parse_cases source with ⟨error, herror⟩ | ⟨body, eof, tree, htokens, _, htree, hok⟩
  · rw [hparse] at herror
    cases herror
  · rw [hparse] at hok
    exact ⟨body, eof, tree, htokens, htree, Except.ok.inj hok⟩

end

/-- Every text is read as an expression or rejected.  The lexeme of each scanned number is a
numeral and is read as the number; no pass of the reader fails but for an error of the text.  A
reading that succeeds ends with the last node as its only operand, and every other node is an
operand of one later node, once. -/
theorem parse_safe (source : String) :
    ((∃ expr, parse source = .ok expr) ∨ ∃ error, parse source = .error (.rejected error)) ∧
    (∀ token ∈ (scanTokens source).1, ∀ value, token.kind = .number value →
      ∃ numeral : Numeral, numeral.WellFormed ∧ token.lexeme = String.ofList numeral.text ∧
        readNumber? token.lexeme = some value) ∧
    (∀ tokens state failure, tokenize source = .ok tokens →
      Reaches tokens.toArray ReadState.start state →
      step tokens.toArray state = .error failure → ∃ error, failure = .rejected error) ∧
    ∀ expr, parse source = .ok expr →
      (∃ tokens state work, tokenize source = .ok tokens ∧
        Reaches tokens.toArray ReadState.start state ∧
        state.work.finish state.stack = .ok work ∧
        step tokens.toArray state = .ok (.inr work.nodes) ∧
        work.nodes.toList = expr.nodes ∧ work.operands = [expr.size - 1]) ∧
      ∀ position, position < expr.size - 1 →
        ∃ before node after, expr.nodes = before ++ node :: after ∧
          position < before.length ∧ node.operands.count position = 1 ∧
          ∀ other ∈ before ++ after, position ∉ other.operands := by
  refine ⟨?_, fun token htoken value => scanTokens_number htoken, ?_, ?_⟩
  · rcases parse_cases source with hrejected | ⟨body, eof, tree, _, _, _, hparse⟩
    · exact .inr hrejected
    · exact .inl ⟨_, hparse⟩
  · intro tokens state failure htokens hreaches hstep
    obtain ⟨body, eof, rfl, hend, hbody⟩ := tokenize_eof htokens
    exact rejected_of_reaches hend hbody hreaches hstep
  · intro expr hexpr
    rcases parse_cases source with ⟨error, herror⟩ | ⟨body, eof, tree, htokens, hend, htree, hparse⟩
    · rw [herror] at hexpr
      cases hexpr
    · rw [hparse] at hexpr
      cases hexpr
      obtain ⟨state, hreaches, hfinish, hstep⟩ := htree.exists_finish hend
      refine ⟨⟨_, state, _, htokens, hreaches, hfinish, ?_, ?_, ?_⟩, fun position =>
        tree.toExpr_used (some source)⟩
      · simpa [Work.add, Work.start] using hstep
      · simp [Work.add, Work.start, Tree.toExpr]
      · simp [Work.add, Work.start, Tree.toExpr, Expr.size, Tree.root]

end Reckon
