import Reckon.Expr.ReversePolish
import Reckon.Proofs.Decimal.Writing
import Reckon.Proofs.Expr.Frame
import Reckon.Proofs.Expr.Origin
import Reckon.Proofs.Token.Layout
import Reckon.Text.Parts

/-
Reading reverse Polish notation.  The words of an expression that has been parsed tell literals,
names, operators and calls apart, and a stack of positions gives the operands back.  So different
expressions are written differently.
-/

namespace Reckon

open Numeral (digitsValue)

namespace Operator

/-- How operators are written. -/
def words : List (String × Operator) :=
  [("!", .fact), ("u-", .neg), ("u+", .pos), ("+", .add), ("-", .sub), ("*", .mul), ("/", .div),
    ("%", .rem), ("^", .pow)]

def ofWord? (word : String) : Option Operator := words.lookup word

end Operator

namespace Work

/-- Makes the latest operands, so many, the arguments of a call. -/
def call? (work : Work) (name : String) (count : Nat) : Option Work :=
  if count ≤ work.operands.length then
    some (push ⟨work.nodes, work.operands.drop count⟩
      (.call name (work.operands.take count).reverse))
  else none

/-- Reads one word.  What begins with a digit is a literal, and what is no operator and no call is
a variable. -/
def read? (work : Work) (word : List Char) : Option Work :=
  if word.head?.any Char.isDigit then
    (readNumber? (String.ofList word)).map fun value => work.push (.literal value)
  else
    match Operator.ofWord? (String.ofList word) with
    | some operator => (work.apply operator).toOption
    | none =>
        match partsAt '/' word with
        | [name, count] => work.call? (String.ofList name) (digitsValue count)
        | _ => some (work.push (.var (String.ofList word)))

end Work

/-- The nodes that a text in reverse Polish notation stands for, if they leave one operand. -/
def nodesOfRpn? (text : String) : Option (List (Node Nat)) := do
  let work ← (partsAt ' ' text.toList).foldlM Work.read? Work.start
  match work.operands with
  | [_] => some work.nodes.toList
  | _ => none

section parts

variable {separator : Char} {part : List Char} {parts : List (List Char)}

theorem partsAt_of_not_mem (hpart : separator ∉ part) : partsAt separator part = [part] := by
  induction part with
  | nil => rfl
  | cons c rest ih =>
      obtain ⟨hc, hrest⟩ := not_or.mp (mt List.mem_cons.mpr hpart)
      rw [partsAt, if_neg (Ne.symm hc), ih hrest]

theorem partsAt_append (hpart : separator ∉ part) (rest : List Char) :
    partsAt separator (part ++ separator :: rest) = part :: partsAt separator rest := by
  induction part with
  | nil => simp [partsAt]
  | cons c tail ih =>
      obtain ⟨hc, htail⟩ := not_or.mp (mt List.mem_cons.mpr hpart)
      rw [List.cons_append, partsAt, if_neg (Ne.symm hc), ih htail]

/-- Parts without the separator are found again between the separators. -/
theorem partsAt_intercalate (hne : parts ≠ []) (hparts : ∀ part ∈ parts, separator ∉ part) :
    partsAt separator ([separator].intercalate parts) = parts := by
  induction parts with
  | nil => exact absurd rfl hne
  | cons part rest ih =>
      have hpart := hparts part List.mem_cons_self
      cases rest with
      | nil => simpa [List.intercalate] using partsAt_of_not_mem hpart
      | cons next more =>
          rw [List.intercalate_cons_cons, List.append_assoc, List.singleton_append,
            partsAt_append hpart, ih (List.cons_ne_nil _ _) fun other hother =>
              hparts other (List.mem_cons_of_mem _ hother)]

end parts

/-- The node is one of an expression that has been parsed: its literal is finite, and its literal
or its name is a token. -/
def Node.Readable : Node Nat → Prop
  | .literal value => value.isFinite = true ∧ ∃ text, Lexeme (.number value) text
  | .var name => ∃ text, Lexeme (.name name) text
  | .unary operator _ => operator.isUnary = true
  | .binary operator _ _ => operator.isUnary = false
  | .call name _ => ∃ text, Lexeme (.name name) text
  | .bare => False

section words

variable {name : String} {value : Float} {text : List Char} {operator : Operator} {work : Work}

theorem isUnsigned_of_lexeme (hlexeme : Lexeme (.number value) text) :
    Unpacked.isUnsigned value.toModel.unpack = true := by
  cases hlexeme with
  | @number numeral _ => exact numeral.decimal.toFloat_isUnsigned

/-- A literal begins with a digit and has no blanks. -/
theorem writeShortest_word (hlexeme : Lexeme (.number value) text)
    (hfinite : value.isFinite = true) :
    (writeShortest value).toList.head?.any Char.isDigit = true ∧
      ' ' ∉ (writeShortest value).toList := by
  obtain ⟨numeral, hnumeral, hwhole, htext, _⟩ :=
    writeShortest_numeral (isUnsigned_of_lexeme hlexeme) hfinite
  obtain ⟨c, rest, hcons⟩ := List.exists_cons_of_ne_nil hwhole
  rw [htext, String.toList_ofList]
  constructor
  · simpa [Numeral.text, hcons] using hnumeral.whole c (hcons ▸ List.mem_cons_self)
  · exact fun hc => absurd (Numeral.mem_chars_of_mem_text hnumeral hc) (by decide)

theorem exists_cons_of_lexeme (hlexeme : Lexeme (.name name) text) :
    ∃ c rest, name.toList = c :: rest ∧ isNameStart c = true ∧
      ∀ d ∈ c :: rest, isNamePart d = true := by
  cases hlexeme with
  | @name c rest hc hrest =>
      refine ⟨c, rest, String.toList_ofList, hc, fun d hd => ?_⟩
      rcases List.mem_cons.mp hd with rfl | hd
      · exact isNamePart_of_isNameStart hc
      · exact hrest d hd

/-- Blanks, slashes and operators are no parts of names. -/
theorem not_mem_of_lexeme_name (hlexeme : Lexeme (.name name) text) {c : Char}
    (hc : isNamePart c = false) : c ∉ name.toList := by
  obtain ⟨_, _, hname, _, hparts⟩ := exists_cons_of_lexeme hlexeme
  rw [hname]
  intro hmem
  rw [hparts c hmem] at hc
  cases hc

/-- A word that begins like a name and goes on with parts of names and slashes is no operator. -/
theorem ofWord?_eq_none {c : Char} {rest : List Char} (hc : isNameStart c = true)
    (hrest : ∀ d ∈ c :: rest, isNamePart d = true ∨ d = '/') :
    Operator.ofWord? (String.ofList (c :: rest)) = none := by
  have hwords : ∀ entry ∈ Operator.words, entry.1 = "/" ∨
      entry.1.toList.any (fun d => !isNamePart d && d != '/') = true := forall_of_all (by decide)
  cases hword : Operator.ofWord? (String.ofList (c :: rest)) with
  | none => rfl
  | some operator =>
      obtain ⟨before, after, hentries, _⟩ := List.lookup_eq_some_iff.mp hword
      have hentry : (String.ofList (c :: rest), operator) ∈ Operator.words := by
        rw [hentries]
        exact List.mem_append_right _ List.mem_cons_self
      rcases hwords _ hentry with hslash | hother
      · have hfirst := congrArg String.toList hslash
        rw [String.toList_ofList] at hfirst
        have hslash : c = '/' := (List.cons.inj hfirst).1
        rw [hslash] at hc
        exact absurd hc (by decide)
      · obtain ⟨d, hd, hother⟩ := List.any_eq_true.mp hother
        rw [String.toList_ofList] at hd
        rcases hrest d hd with hpart | rfl
        · simp [hpart] at hother
        · simp at hother

theorem read?_literal (hlexeme : Lexeme (.number value) text) (hfinite : value.isFinite = true)
    (work : Work) :
    work.read? (writeShortest value).toList = some (work.push (.literal value)) := by
  have hdigit := (writeShortest_word hlexeme hfinite).1
  have hread := readNumber?_writeShortest (isUnsigned_of_lexeme hlexeme) hfinite
  simp only [Work.read?, hdigit, String.ofList_toList, hread]
  rfl

theorem read?_var (hlexeme : Lexeme (.name name) text) (work : Work) :
    work.read? name.toList = some (work.push (.var name)) := by
  have hslash := not_mem_of_lexeme_name hlexeme (show isNamePart '/' = false by decide)
  obtain ⟨c, rest, hname, hc, hparts⟩ := exists_cons_of_lexeme hlexeme
  have hword : Operator.ofWord? name = none := by
    rw [← @String.ofList_toList name, hname]
    exact ofWord?_eq_none hc fun d hd => .inl (hparts d hd)
  have hdigit : name.toList.head?.any Char.isDigit = false := by
    rw [hname]
    exact (plain_of_isNameStart hc).1
  simp only [Work.read?, hdigit, String.ofList_toList, hword, partsAt_of_not_mem hslash]
  rfl

theorem read?_operator {word : String} (hentry : (word, operator) ∈ Operator.words)
    (work : Work) : work.read? word.toList = (work.apply operator).toOption := by
  have hwords : ∀ entry ∈ Operator.words, entry.1.toList.head?.any Char.isDigit = false ∧
      Operator.ofWord? entry.1 = some entry.2 := forall_of_all (by decide)
  obtain ⟨hdigit, hword⟩ := hwords _ hentry
  simp only at hdigit hword
  simp only [Work.read?, hdigit, String.ofList_toList, hword]
  rfl

theorem toList_call (name : String) (count : Nat) :
    (name ++ "/" ++ toString count).toList = name.toList ++ '/' :: natText count := by
  rw [String.toList_append, String.toList_append, List.append_assoc]
  congr 1
  exact congrArg _ Nat.toList_repr

theorem isNamePart_or_slash_of_mem_call (hlexeme : Lexeme (.name name) text) {count : Nat}
    {c : Char} (hc : c ∈ name.toList ++ '/' :: natText count) : isNamePart c = true ∨ c = '/' := by
  obtain ⟨_, _, hname, _, hparts⟩ := exists_cons_of_lexeme hlexeme
  rcases List.mem_append.mp hc with hc | hc
  · exact .inl (hparts c (hname ▸ hc))
  · rcases List.mem_cons.mp hc with rfl | hc
    · exact .inr rfl
    · exact .inl (isNamePart_of_isDigit (isDigit_of_mem_natText hc))

theorem read?_call (hlexeme : Lexeme (.name name) text) (work : Work) (count : Nat) :
    work.read? (name ++ "/" ++ toString count).toList = work.call? name count := by
  have hslash := not_mem_of_lexeme_name hlexeme (show isNamePart '/' = false by decide)
  have hdigits : '/' ∉ natText count := fun hc => absurd (isDigit_of_mem_natText hc) (by decide)
  have hparts : partsAt '/' (name.toList ++ '/' :: natText count) =
      [name.toList, natText count] := by
    rw [partsAt_append hslash, partsAt_of_not_mem hdigits]
  obtain ⟨c, rest, hname, hc, _⟩ := exists_cons_of_lexeme hlexeme
  have hword : Operator.ofWord? (String.ofList (name.toList ++ '/' :: natText count)) = none := by
    have hmem := @isNamePart_or_slash_of_mem_call _ _ hlexeme count
    rw [hname] at hmem ⊢
    exact ofWord?_eq_none hc fun _ hd => hmem hd
  have hdigit : (name.toList ++ '/' :: natText count).head?.any Char.isDigit = false := by
    rw [hname]
    exact (plain_of_isNameStart hc).1
  simp only [toList_call, Work.read?, hdigit, hword, hparts, String.ofList_toList,
    digitsValue_natText]
  rfl

end words

namespace Node

variable {node : Node Nat}

theorem rpnWord?_unary {operator : Operator} (hunary : operator.isUnary = true) :
    ∃ word, (∀ operand : Nat, (unary operator operand).rpnWord? = some word) ∧
      (word, operator) ∈ Operator.words := by
  cases operator with
  | neg | pos | fact => exact ⟨_, fun _ => rfl, by decide⟩
  | _ => cases hunary

theorem rpnWord?_binary {operator : Operator} (hbinary : operator.isUnary = false) :
    ∃ word, (∀ left right : Nat, (binary operator left right).rpnWord? = some word) ∧
      (word, operator) ∈ Operator.words := by
  cases operator with
  | neg | pos | fact => cases hbinary
  | _ => exact ⟨_, fun _ _ => rfl, by decide⟩

/-- Every node has a word, which has no blank. -/
theorem Readable.exists_rpnWord (hnode : node.Readable) :
    ∃ word, node.rpnWord? = some word ∧ ' ' ∉ word.toList := by
  have hwords : ∀ entry ∈ Operator.words, ' ' ∉ entry.1.toList := forall_of_all (by decide)
  cases node with
  | literal value =>
      obtain ⟨hfinite, _, hlexeme⟩ := hnode
      exact ⟨_, rfl, (writeShortest_word hlexeme hfinite).2⟩
  | var name =>
      obtain ⟨_, hlexeme⟩ := hnode
      exact ⟨_, rfl, not_mem_of_lexeme_name hlexeme (by decide)⟩
  | unary operator operand =>
      obtain ⟨_, hrpn, hentry⟩ := rpnWord?_unary hnode
      exact ⟨_, hrpn operand, hwords _ hentry⟩
  | binary operator left right =>
      obtain ⟨_, hrpn, hentry⟩ := rpnWord?_binary hnode
      exact ⟨_, hrpn left right, hwords _ hentry⟩
  | call name args =>
      obtain ⟨_, hlexeme⟩ := hnode
      refine ⟨_, rfl, ?_⟩
      rw [toList_call]
      intro hblank
      rcases isNamePart_or_slash_of_mem_call hlexeme hblank with hpart | hslash
      · exact absurd hpart (by decide)
      · exact absurd hslash (by decide)
  | bare => exact hnode.elim

end Node

/-- The words of the nodes. -/
def rpnWords (nodes : List (Node Nat)) : List (List Char) :=
  (nodes.filterMap Node.rpnWord?).map String.toList

theorem rpnWords_append (first second : List (Node Nat)) :
    rpnWords (first ++ second) = rpnWords first ++ rpnWords second := by
  simp [rpnWords]

theorem rpnWords_singleton {node : Node Nat} {word : String} (hword : node.rpnWord? = some word) :
    rpnWords [node] = [word.toList] := by
  simp [rpnWords, hword]

namespace Work

variable {tree : Tree} {args : List Tree} {work : Work}

/-- The words read one after the other. -/
def readAll? (work : Work) (words : List (List Char)) : Option Work := words.foldlM read? work

theorem readAll?_append {first second : List (List Char)} {next : Work}
    (hfirst : work.readAll? first = some next) :
    work.readAll? (first ++ second) = next.readAll? second := by
  rw [readAll?, List.foldlM_append, ← readAll?, hfirst]
  rfl

theorem readAll?_singleton (work : Work) (word : List Char) :
    work.readAll? [word] = work.read? word := by
  rw [readAll?, List.foldlM_cons]
  cases work.read? word <;> rfl

/-- The work after the arguments of a call have been read, which are the latest operands. -/
def withArgs (work : Work) (args : List Tree) : Work :=
  ⟨(work.addArgs args).nodes, (Tree.roots args work.nodes.size).reverse ++ work.operands⟩

theorem length_roots (args : List Tree) (start : Nat) :
    (Tree.roots args start).length = args.length := by
  induction args generalizing start with
  | nil => rfl
  | cons tree rest ih => simp [Tree.roots, ih]

theorem withArgs_cons (work : Work) (tree : Tree) (rest : List Tree) :
    (work.add tree).withArgs rest = work.withArgs (tree :: rest) := by
  apply eq_of_toList_nodes <;> simp [withArgs, addArgs, add, Tree.listings, Tree.roots]

/-- A call takes all its arguments from the operands. -/
theorem call?_withArgs (work : Work) (name : String) (args : List Tree) :
    (work.withArgs args).call? name args.length = some (work.add (.call name args)) := by
  have hlength : args.length = (Tree.roots args work.nodes.size).reverse.length := by
    rw [List.length_reverse, length_roots]
  have htake : (work.withArgs args).operands.take args.length =
      (Tree.roots args work.nodes.size).reverse := by
    rw [hlength]
    exact List.take_left
  have hdrop : (work.withArgs args).operands.drop args.length = work.operands := by
    rw [hlength]
    exact List.drop_left
  have hle : args.length ≤ (work.withArgs args).operands.length := by
    rw [withArgs, List.length_append, ← hlength]
    omega
  rw [call?, if_pos hle, htake, hdrop, List.reverse_reverse, ← push_call]
  rfl

theorem readAll?_listings
    (hargs : ∀ arg ∈ args, ∀ work : Work, (∀ node ∈ arg.listing work.nodes.size, node.Readable) →
      work.readAll? (rpnWords (arg.listing work.nodes.size)) = some (work.add arg)) (work : Work)
    (hreadable : ∀ node ∈ Tree.listings args work.nodes.size, node.Readable) :
    work.readAll? (rpnWords (Tree.listings args work.nodes.size)) = some (work.withArgs args) := by
  induction args generalizing work with
  | nil =>
      refine congrArg some ?_
      apply eq_of_toList_nodes <;> simp [withArgs, Tree.listings, Tree.roots]
  | cons tree rest ih =>
      have htree := hargs tree List.mem_cons_self work fun node hnode =>
        hreadable node (List.mem_append_left _ hnode)
      rw [Tree.listings, rpnWords_append, readAll?_append htree, ← withArgs_cons]
      rw [Tree.listings, ← size_nodes_add] at hreadable
      rw [← size_nodes_add]
      exact ih (fun arg harg => hargs arg (List.mem_cons_of_mem tree harg)) (work.add tree)
        fun node hnode => hreadable node (List.mem_append_right _ hnode)

/-- Reading the words of a tree adds the tree as an operand. -/
theorem readAll?_listing (tree : Tree) (work : Work)
    (hreadable : ∀ node ∈ tree.listing work.nodes.size, node.Readable) :
    work.readAll? (rpnWords (tree.listing work.nodes.size)) = some (work.add tree) := by
  induction tree generalizing work with
  | literal value =>
      obtain ⟨hfinite, _, hlexeme⟩ := hreadable _ List.mem_cons_self
      rw [Tree.listing, rpnWords_singleton rfl, readAll?_singleton,
        read?_literal hlexeme hfinite, push_literal]
  | var name =>
      obtain ⟨_, hlexeme⟩ := hreadable _ List.mem_cons_self
      rw [Tree.listing, rpnWords_singleton rfl, readAll?_singleton, read?_var hlexeme, push_var]
  | unary operator operand ih =>
      have hoperator : operator.isUnary = true :=
        hreadable _ (List.mem_append_right _ (List.mem_singleton_self _))
      have hoperand := ih work fun node hnode => hreadable node (List.mem_append_left _ hnode)
      obtain ⟨word, hword, hentry⟩ := Node.rpnWord?_unary hoperator
      rw [Tree.listing, rpnWords_append, readAll?_append hoperand, rpnWords_singleton (hword _),
        readAll?_singleton, read?_operator hentry, apply_unary hoperator]
      rfl
  | binary operator left right ihLeft ihRight =>
      have hoperator : operator.isUnary = false :=
        hreadable _ (List.mem_append_right _ (List.mem_singleton_self _))
      have hbelow := fun node hnode => hreadable node (List.mem_append_left _ hnode)
      have hleft := ihLeft work fun node hnode => hbelow node (List.mem_append_left _ hnode)
      have hright := ihRight (work.add left) fun node hnode =>
        hbelow node (List.mem_append_right _ (by rwa [size_nodes_add] at hnode))
      rw [size_nodes_add] at hright
      obtain ⟨word, hword, hentry⟩ := Node.rpnWord?_binary hoperator
      rw [Tree.listing, rpnWords_append, rpnWords_append, List.append_assoc,
        readAll?_append hleft, readAll?_append hright, rpnWords_singleton (hword _ _),
        readAll?_singleton, read?_operator hentry, apply_binary hoperator]
      rfl
  | call name args ih =>
      obtain ⟨_, hlexeme⟩ := hreadable _ (List.mem_append_right _ (List.mem_singleton_self _))
      have hargs := readAll?_listings ih work fun node hnode =>
        hreadable node (List.mem_append_left _ hnode)
      rw [Tree.listing, rpnWords_append, readAll?_append hargs, rpnWords_singleton rfl,
        readAll?_singleton, read?_call hlexeme, length_roots, call?_withArgs]

end Work

section equality

variable {node other : Node Nat} {x y : Float}

/-- Numbers without a sign are equal only if they are the same. -/
theorem beq_iff_of_isUnsigned (hx : Unpacked.isUnsigned x.toModel.unpack = true)
    (hy : Unpacked.isUnsigned y.toModel.unpack = true) : (x == y) = true ↔ x = y := by
  constructor
  · intro hequal
    rcases (Float.beq_iff_ne_nan_and_eq.mp hequal).2.2 with hsame | ⟨_, rfl⟩ | ⟨rfl, _⟩
    · exact hsame
    · exact absurd hy (by decide)
    · exact absurd hx (by decide)
  · rintro rfl
    exact Unpacked.beq_self hx

theorem Node.sameAs_iff (hnode : node.Readable) (hother : other.Readable) :
    node.sameAs other = true ↔ node = other := by
  cases node with
  | literal value =>
      obtain ⟨_, _, hlexeme⟩ := hnode
      cases other with
      | literal second =>
          obtain ⟨_, _, hsecond⟩ := hother
          rw [Node.sameAs, beq_iff_of_isUnsigned (isUnsigned_of_lexeme hlexeme)
            (isUnsigned_of_lexeme hsecond), Node.literal.injEq]
      | _ => simp [Node.sameAs]
  | _ => cases other <;> simp [Node.sameAs]

theorem zip_sameAs_iff {first second : List (Node Nat)} (hfirst : ∀ node ∈ first, node.Readable)
    (hsecond : ∀ node ∈ second, node.Readable) :
    (first.length == second.length &&
      (first.zip second).all fun pair => pair.1.sameAs pair.2) = true ↔ first = second := by
  induction first generalizing second with
  | nil => cases second <;> simp
  | cons node rest ih =>
      cases second with
      | nil => simp
      | cons other more =>
          have hnode := Node.sameAs_iff (hfirst node List.mem_cons_self)
            (hsecond other List.mem_cons_self)
          have hrest := ih (fun node hnode => hfirst node (List.mem_cons_of_mem _ hnode))
            (fun node hnode => hsecond node (List.mem_cons_of_mem _ hnode))
          rw [List.cons.injEq, ← hnode, ← hrest]
          simp [and_left_comm]

end equality

namespace Expr

variable {source : String} {expr : Expr}

/-- Literals have digits and no words for infinity. -/
def LiteralsFinite (expr : Expr) : Prop :=
  ∀ value, .literal value ∈ expr.nodes → value.isFinite = true

/-- What has been parsed is a tree of readable nodes. -/
theorem exists_tree_of_parse (hparse : parse source = .ok expr) (hfinite : expr.LiteralsFinite) :
    (∃ tree : Tree, expr.nodes = tree.listing 0) ∧ ∀ node ∈ expr.nodes, node.Readable := by
  obtain ⟨body, _, tree, htokens, htree, rfl⟩ := exists_derives_of_parse hparse
  refine ⟨⟨tree, rfl⟩, fun node hnode => ?_⟩
  obtain ⟨found, hscanned, hall⟩ := exists_scanned_of_tokenize htokens
  obtain ⟨rfl, -⟩ := List.append_inj' hall rfl
  have hlexeme : ∀ {kind}, (∃ token ∈ body, token.kind = kind) → ∃ text, Lexeme kind text := by
    rintro _ ⟨token, htoken, rfl⟩
    exact ⟨_, hscanned.lexeme_of_mem token htoken⟩
  have hcomes := htree.comesFrom 0 node hnode
  cases node with
  | literal value => exact ⟨hfinite value hnode, hlexeme hcomes⟩
  | var name | call name args => exact hlexeme hcomes
  | unary operator operand | binary operator left right => exact hcomes
  | bare => exact hcomes

/-- Between the blanks stand the words of the nodes. -/
theorem partsAt_rpn (hreadable : ∀ node ∈ expr.nodes, node.Readable) :
    partsAt ' ' expr.rpn.toList = rpnWords expr.nodes := by
  rw [rpn, String.toList_intercalate]
  apply partsAt_intercalate
  · obtain ⟨node, rest, hnodes⟩ := List.exists_cons_of_ne_nil expr.nodes_ne_nil
    obtain ⟨word, hword, _⟩ := (hreadable node (hnodes ▸ List.mem_cons_self)).exists_rpnWord
    simp [hnodes, hword]
  · intro part hpart
    obtain ⟨word, hword, rfl⟩ := List.mem_map.mp hpart
    obtain ⟨node, hnode, hrpn⟩ := List.mem_filterMap.mp hword
    obtain ⟨_, hfound, hblank⟩ := (hreadable node hnode).exists_rpnWord
    rw [hrpn] at hfound
    cases hfound
    exact hblank

theorem nodesOfRpn?_rpn (hparse : parse source = .ok expr) (hfinite : expr.LiteralsFinite) :
    nodesOfRpn? expr.rpn = some expr.nodes := by
  obtain ⟨⟨tree, hnodes⟩, hreadable⟩ := exists_tree_of_parse hparse hfinite
  have hread := Work.readAll?_listing tree Work.start fun node hnode =>
    hreadable node (hnodes ▸ hnode)
  change Work.readAll? Work.start (rpnWords (tree.listing 0)) = _ at hread
  rw [nodesOfRpn?, partsAt_rpn hreadable, hnodes, ← Work.readAll?, hread]
  change some (Work.start.add tree).nodes.toList = _
  rw [Work.toList_nodes_add]
  rfl

/-- Reverse Polish notation is unambiguous.  The text of a parsed expression with finite literals
is read back as its nodes, the positions of the operands among them; so two such expressions have
the same text exactly if they are equal. -/
theorem rpn_unambiguous (hparse : parse source = .ok expr) (hfinite : expr.LiteralsFinite) :
    nodesOfRpn? expr.rpn = some expr.nodes ∧
      ∀ otherSource other, parse otherSource = .ok other → other.LiteralsFinite →
        (expr.rpn = other.rpn ↔ expr.sameAs other = true) := by
  have hread := nodesOfRpn?_rpn hparse hfinite
  refine ⟨hread, fun otherSource other hother hotherFinite => ?_⟩
  have hotherRead := nodesOfRpn?_rpn hother hotherFinite
  rw [sameAs, size, size, zip_sameAs_iff (exists_tree_of_parse hparse hfinite).2
    (exists_tree_of_parse hother hotherFinite).2]
  constructor
  · intro hrpn
    rw [← hrpn, hread] at hotherRead
    exact Option.some.inj hotherRead
  · intro hnodes
    rw [rpn, rpn, hnodes]

/-- The nodes of `2 + x * -f(1.5, y)!`. -/
def mixedNodes : List (Node Nat) :=
  [.literal 2, .var "x", .literal 1.5, .var "y", .call "f" [2, 3], .unary .fact 4, .unary .neg 5,
    .binary .mul 1 6, .binary .add 0 7]

theorem rpn_mixed : ∃ expr, parse "2 + x * -f(1.5, y)!" = .ok expr ∧ expr.LiteralsFinite ∧
    expr.nodes = mixedNodes ∧ expr.rpn = "2.0 x 1.5 y f/2 ! u- * +" ∧
    nodesOfRpn? expr.rpn = some expr.nodes ∧
    ∀ otherSource other, parse otherSource = .ok other → other.LiteralsFinite →
      (expr.rpn = other.rpn ↔ expr.sameAs other = true) := by
  have hread : (parse "2 + x * -f(1.5, y)!").toOption.map nodes = some mixedNodes := by
    decide +kernel
  obtain ⟨expr, hok, hnodes⟩ := Option.map_eq_some_iff.mp hread
  have hparse : parse "2 + x * -f(1.5, y)!" = .ok expr := by
    cases hresult : parse "2 + x * -f(1.5, y)!" with
    | error failure =>
        rw [hresult] at hok
        cases hok
    | ok found =>
        rw [hresult] at hok
        cases hok
        rfl
  have hfinite : expr.LiteralsFinite := by
    intro value hvalue
    rw [hnodes] at hvalue
    simp only [mixedNodes, List.mem_cons, Node.literal.injEq, reduceCtorEq, false_or,
      List.not_mem_nil, or_false] at hvalue
    rcases hvalue with rfl | rfl <;> decide
  have hrpn : expr.rpn = "2.0 x 1.5 y f/2 ! u- * +" := by
    rw [rpn, hnodes]
    decide +kernel
  obtain ⟨hback, hsame⟩ := rpn_unambiguous hparse hfinite
  exact ⟨expr, hparse, hfinite, hnodes, hrpn, hback, hsame⟩

end Expr

end Reckon
