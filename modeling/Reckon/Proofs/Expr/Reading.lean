import Reckon.Proofs.Expr.Completeness
import Reckon.Proofs.Expr.Soundness

/-
What a list of tokens is read as.  The reader finds the tree of a derivation if there is one, and
its nodes pass the check that every operand stands before its node.
-/

namespace Reckon

theorem firstMisplaced?_of_operandsBefore {position : Nat} {nodes : List (Node Nat)}
    (hnodes : OperandsBefore position nodes) :
    firstMisplaced? position (nodes.map (Node.map Int.ofNat)) = none := by
  induction nodes generalizing position with
  | nil => rfl
  | cons node rest ih =>
      obtain ⟨hnode, hrest⟩ := hnodes
      have hfind : ((node.map Int.ofNat).operands.find? fun operand =>
          !refersBack position operand) = none := by
        rw [List.find?_eq_none, Node.operands_map]
        intro reference hreference
        obtain ⟨operand, hoperand, rfl⟩ := List.mem_map.mp hreference
        have hbefore := hnode operand hoperand
        simpa [refersBack] using hbefore
      rw [List.map_cons, firstMisplaced?, hfind]
      exact ih hrest

namespace Expr

/-- The nodes of an expression pass the check again. -/
theorem ofNodes_nodes (expr : Expr) (source : Option String) :
    ofNodes (expr.nodes.map (Node.map Int.ofNat)) source = .ok { expr with source } := by
  have hnil : expr.nodes.map (Node.map Int.ofNat) ≠ [] := by simpa using expr.nodes_ne_nil
  have hmap : (expr.nodes.map (Node.map Int.ofNat)).map (Node.map Int.toNat) = expr.nodes := by
    rw [List.map_map]
    convert List.map_id expr.nodes using 2
    funext node
    have hback : Int.toNat ∘ Int.ofNat = id := rfl
    rw [Function.comp, Node.map_map, hback, Node.map_id]
    rfl
  rw [ofNodes, dif_neg hnil]
  split
  · rename_i error herror
    rw [firstMisplaced?_of_operandsBefore expr.operandsBefore] at herror
    cases herror
  · simp only [hmap]

end Expr

/-- The expression that consists of the nodes of a tree. -/
def Tree.toExpr (tree : Tree) (source : Option String) : Expr where
  nodes := tree.listing 0
  source := source
  nodes_ne_nil := by
    have hsize := tree.size_pos
    rw [← List.length_pos_iff, Tree.length_listing]
    exact hsize
  operandsBefore := tree.operandsBefore_listing 0

namespace ReadState

variable {tokens : Array Token} {state next : ReadState} {nodes : Array (Node Nat)}

/-- However many passes there are, the results are the same. -/
theorem run_unique {first second : Nat} {result other : Except ParseFailure (Array (Node Nat))}
    (hresult : run tokens first state = some result)
    (hother : run tokens second state = some other) : result = other := by
  have hmore := run_add hresult second
  rw [Nat.add_comm, run_add hother first] at hmore
  exact (Option.some.inj hmore).symm

theorem exists_run (hreaches : Reaches tokens state next)
    (hend : step tokens next = .ok (.inr nodes)) :
    ∃ passes, run tokens passes state = some (.ok nodes) := by
  induction hreaches using Relation.ReflTransGen.head_induction_on with
  | refl => exact ⟨1, by simp [run, hend]⟩
  | head hstep _ ih =>
      obtain ⟨passes, hrun⟩ := ih
      exact ⟨passes + 1, by simp [run, hstep, hrun]⟩

end ReadState

section

variable {body : List Token} {eof : Token} {tree : Tree}

open ReadState

/-- A derivation is read up to the end of the input, where its tree is the only operand. -/
theorem Derives.exists_finish (hend : eof.kind = .eof) (hexpr : Derives .expr body tree) :
    ∃ state, Reaches (body ++ [eof]).toArray ReadState.start state ∧
      state.work.finish state.stack = .ok (Work.start.add tree) ∧
      step (body ++ [eof]).toArray state = .ok (.inr (tree.listing 0).toArray) := by
  have hahead : Ahead (body ++ [eof]).toArray 0 (body ++ eof :: []) := rfl
  have hwithin : Frame.waiting? [] = none := rfl
  obtain ⟨inner, operand, hreaches, hcollapse⟩ :=
    hexpr.reads.collapsed hahead (by simp [hend]) hwithin
  have htoken : (body ++ [eof]).toArray[0 + body.length]? = some eof := by simp
  exact ⟨_, hreaches, Work.finish_of_nil hcollapse, step_finish htoken hend hcollapse⟩

theorem parseTokens_of_run {nodes : Array (Node Nat)}
    (hnodes : nodes = (tree.listing 0).toArray) {tokens : List Token} (source : Option String)
    (hrun : ReadState.run tokens.toArray (passLimit tokens.toArray) ReadState.start =
      some (.ok nodes)) :
    parseTokens tokens source = .ok (tree.toExpr source) := by
  have hofNodes := (tree.toExpr source).ofNodes_nodes source
  subst hnodes
  simp only [parseTokens, hrun]
  change (Expr.ofNodes ((tree.listing 0).map (Node.map Int.ofNat)) source).mapError _ = _
  rw [show (tree.listing 0) = (tree.toExpr source).nodes from rfl, hofNodes]
  rfl

/-- The passes that are allowed for come to an end. -/
theorem run_passLimit (hend : eof.kind = .eof) (hbody : ∀ token ∈ body, token.kind ≠ .eof) :
    (∃ error, ReadState.run (body ++ [eof]).toArray (passLimit (body ++ [eof]).toArray)
      ReadState.start = some (.error (.rejected error))) ∨
    ∃ tree, Derives .expr body tree ∧
      ReadState.run (body ++ [eof]).toArray (passLimit (body ++ [eof]).toArray)
        ReadState.start = some (.ok (tree.listing 0).toArray) := by
  refine (Standing.start body).run hend hbody _ ?_
  simp only [passLimit, List.size_toArray, List.length_append, List.length_singleton]
  omega

/-- Tokens are rejected, or read as the tree of a derivation. -/
theorem parseTokens_cases (hend : eof.kind = .eof) (hbody : ∀ token ∈ body, token.kind ≠ .eof)
    (source : Option String) :
    (∃ error, parseTokens (body ++ [eof]) source = .error (.rejected error)) ∨
    ∃ tree, Derives .expr body tree ∧
      parseTokens (body ++ [eof]) source = .ok (tree.toExpr source) := by
  rcases run_passLimit hend hbody with ⟨error, hrun⟩ | ⟨tree, hexpr, hrun⟩
  · rw [parseTokens, hrun]
    exact .inl ⟨_, rfl⟩
  · exact .inr ⟨tree, hexpr, parseTokens_of_run rfl source hrun⟩

theorem parseTokens_of_derives (hend : eof.kind = .eof)
    (hbody : ∀ token ∈ body, token.kind ≠ .eof) (source : Option String)
    (hexpr : Derives .expr body tree) :
    parseTokens (body ++ [eof]) source = .ok (tree.toExpr source) := by
  obtain ⟨state, hreaches, _, hlast⟩ := hexpr.exists_finish hend
  obtain ⟨passes, hfollowed⟩ := exists_run hreaches hlast
  rcases run_passLimit hend hbody with ⟨error, hrun⟩ | ⟨other, hother, hrun⟩
  · cases run_unique hfollowed hrun
  · have hnodes := Except.ok.inj (run_unique hfollowed hrun)
    exact parseTokens_of_run hnodes.symm source hrun

end

/-- Tokens with the end of the input behind them, and nowhere else, are read exactly if the
grammar derives them.  The nodes are those of the derivation's tree, of which there is only one. -/
theorem parseTokens_grammar (body : List Token) (eof : Token) (source : Option String)
    (hend : eof.kind = .eof) (hbody : ∀ token ∈ body, token.kind ≠ .eof) :
    ((∃ expr, parseTokens (body ++ [eof]) source = .ok expr) ↔
      ∃ tree, Derives .expr body tree) ∧
    (∀ expr tree, parseTokens (body ++ [eof]) source = .ok expr → Derives .expr body tree →
      expr.nodes = tree.listing 0 ∧ expr.source = source) ∧
    ∀ tree other, Derives .expr body tree → Derives .expr body other → tree = other := by
  refine ⟨⟨?_, ?_⟩, ?_, ?_⟩
  · rintro ⟨expr, hparse⟩
    rcases parseTokens_cases hend hbody source with ⟨error, herror⟩ | ⟨tree, hexpr, _⟩
    · rw [herror] at hparse
      cases hparse
    · exact ⟨tree, hexpr⟩
  · rintro ⟨tree, hexpr⟩
    exact ⟨_, parseTokens_of_derives hend hbody source hexpr⟩
  · intro expr tree hparse hexpr
    rw [parseTokens_of_derives hend hbody source hexpr] at hparse
    cases hparse
    exact ⟨rfl, rfl⟩
  · intro tree other hexpr hother
    have hparse := parseTokens_of_derives hend hbody source hexpr
    rw [parseTokens_of_derives hend hbody source hother] at hparse
    have hnodes := congrArg Expr.nodes (Except.ok.inj hparse)
    exact (Tree.listing_injective hnodes).symm

/-- The tokens of `-x^y`. -/
def negatedPower : List Token :=
  let span : Span := ⟨Location.origin, Location.origin⟩
  [⟨.symbol .minus, "-", span⟩, ⟨.name "x", "x", span⟩, ⟨.symbol .caret, "^", span⟩,
    ⟨.name "y", "y", span⟩]

theorem parseTokens_negatedPower :
    ∃ expr, parseTokens (negatedPower ++ [⟨.eof, "", ⟨Location.origin, Location.origin⟩⟩]) none =
        .ok expr ∧
      expr.nodes = [.var "x", .var "y", .binary .pow 0 1, .unary .neg 2] := by
  have hpower : Derives .power (negatedPower.drop 1) (.binary .pow (.var "x") (.var "y")) :=
    .raise (.primary (.name rfl)) rfl (.power (.factorial (.primary (.name rfl))))
  have hexpr : Derives .expr negatedPower (.unary .neg (.binary .pow (.var "x") (.var "y"))) :=
    .term (.signed (.sign rfl (by decide) (.power hpower)))
  obtain ⟨hread, hnodes, _⟩ := parseTokens_grammar negatedPower
    ⟨.eof, "", ⟨Location.origin, Location.origin⟩⟩ none rfl (by decide)
  obtain ⟨expr, hparse⟩ := hread.mpr ⟨_, hexpr⟩
  exact ⟨expr, hparse, (hnodes expr _ hparse hexpr).1⟩

end Reckon
