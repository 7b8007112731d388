import Reckon.Proofs.Expr.Parse
import Reckon.Proofs.Scope.History
import Reckon.Proofs.Sheet.Constants
import Reckon.Proofs.Token.Tiling

/-
Names of constants.  A text that a sheet takes for a name is scanned as one name and nothing else,
and no other text is.  So every constant of a document can be reached by its name.
-/

namespace Reckon

variable {name text : String}

theorem exists_cons_of_isName {text : List Char} (hname : isName text = true) :
    ∃ c rest, text = c :: rest ∧ isNameStart c = true ∧ ∀ d ∈ rest, isNamePart d = true := by
  cases text with
  | nil => cases hname
  | cons c rest =>
      rw [isName, Bool.and_eq_true, List.all_eq_true] at hname
      exact ⟨c, rest, rfl, hname⟩

/-- The token of a source that is a name. -/
def nameToken (name : String) : Token :=
  ⟨.name name, name, ⟨Location.origin, Location.origin.after name.toList⟩⟩

theorem longest_of_isName (hname : isName name.toList = true) :
    Longest (.name name) name.toList [] := by
  obtain ⟨c, rest, htext, hc, hrest⟩ := exists_cons_of_isName hname
  have hlexeme : Lexeme (.name (String.ofList (c :: rest))) (c :: rest) := .name hc hrest
  rw [← htext, String.ofList_toList] at hlexeme
  refine ⟨hlexeme, ?_⟩
  intro other longer _ hprefix
  rw [List.append_nil] at hprefix
  exact hprefix.length_le

theorem scanned_of_isName (hname : isName name.toList = true) :
    Scanned name [nameToken name] name.toList [] := by
  have hlongest := longest_of_isName hname
  have hfront : ∀ c ∈ (name.toList ++ []).head?, isBlank c = false := by
    rw [List.append_nil]
    exact fun c hc => hlongest.lexeme.isBlank_of_mem c (List.mem_of_mem_head? hc)
  have hstart : Scanned name [] [] (name.toList ++ []) := by
    rw [List.append_nil]
    exact .start
  have hscanned := hstart.token hfront hlongest
  rw [String.ofList_toList] at hscanned
  exact hscanned

theorem tokenize_of_isName (hname : isName name.toList = true) :
    tokenize name = .ok [nameToken name, endToken name] :=
  (scanned_of_isName hname).tokenize_of_end

/-- The text of a token that is a name is a name. -/
theorem isName_of_lexeme {kind : Token.Kind} {text : List Char} (hlexeme : Lexeme kind text)
    (hkind : kind = .name name) : isName text = true := by
  cases hlexeme with
  | name hc hrest =>
      rw [isName, Bool.and_eq_true, List.all_eq_true]
      exact ⟨hc, hrest⟩
  | number _ | symbol _ => cases hkind

theorem isName_iff_tokenize (text : String) :
    isName text.toList = true ↔
      ∃ token eof name, tokenize text = .ok [token, eof] ∧ token.kind = .name name ∧
        token.lexeme = text ∧ eof.kind = .eof := by
  constructor
  · intro hname
    exact ⟨_, _, text, tokenize_of_isName hname, rfl, rfl, rfl⟩
  · rintro ⟨token, eof, name, htokens, hkind, rfl, -⟩
    obtain ⟨tokens, hscanned, hall⟩ := exists_scanned_of_tokenize htokens
    have htoken : token ∈ tokens := by
      change [token] ++ [eof] = tokens ++ _ at hall
      rw [← (List.append_inj' hall rfl).1]
      exact List.mem_singleton_self token
    exact isName_of_lexeme (hscanned.lexeme_of_mem token htoken) hkind

/-- A name is read as the variable of that name. -/
theorem parse_of_isName (hname : isName name.toList = true) :
    parse name = .ok ((Tree.var name).toExpr (some name)) := by
  have hderives : Derives .expr [nameToken name] (.var name) :=
    .term (.signed (.power (.factorial (.primary (.name rfl)))))
  have hbody : ∀ token ∈ [nameToken name], token.kind ≠ .eof := by
    intro token htoken
    rw [List.mem_singleton.mp htoken]
    exact Token.Kind.noConfusion
  have hend : (endToken name).kind = .eof := rfl
  rw [parse_of_tokenize (tokenize_of_isName hname)]
  exact parseTokens_of_derives hend hbody (some name) hderives

theorem evaluate_variable {V : Type} [Elementwise V] {scope : Scope V} {value : V}
    (hvalue : scope.value? name = some value) (source : Option String) :
    ((Tree.var name).toExpr source).evaluate scope = .ok value := by
  have hrun : ((Tree.var name).toExpr source).run scope = .ok #[value] := by
    change evaluateNodes scope #[] [.var name] = _
    rw [evaluateNodes, Node.evaluate, hvalue]
    rfl
  rw [Expr.evaluate, hrun]
  rfl

namespace Sheet

/-- A document that defines constants has the right form. -/
theorem exists_shaped_of_constants {inner : Scope Float} {origin : String} {document : Datum}
    {found : Bindings Float} (hfound : constants inner origin document = .ok found) :
    ∃ entries, Shaped document entries := by
  cases document with
  | map fields =>
      rw [constants] at hfound
      split at hfound
      · rename_i hversion
        cases hdefinitions : (Datum.entry? fields "constants").getD .null with
        | null => exact ⟨[], fields, rfl, hversion, .inr ⟨hdefinitions, rfl⟩⟩
        | map entries => exact ⟨entries, fields, rfl, hversion, .inl hdefinitions⟩
        | _ =>
            rw [hdefinitions] at hfound
            cases hfound
      · cases hfound
  | _ => cases hfound

/-- Distinct entries that are all taken define the constants. -/
theorem exists_defines_of_defineAll {inner : Scope Float} {origin : String}
    {entries : List (Datum × Datum)} {found : Bindings Float}
    (hnames : (names entries).Nodup)
    (hfound : defineAll inner origin Bindings.empty entries = .ok found) :
    ∃ values, Defines inner entries values ∧ found = ⟨values⟩ := by
  rcases defines_or_offends inner origin entries with
    ⟨values, hdefines⟩ | ⟨before, key, value, later, values, error, rfl, hbefore, hoffends⟩
  · rw [defineAll_of_defines origin hdefines hnames] at hfound
    exact ⟨values, hdefines, (Except.ok.inj hfound).symm⟩
  · rw [defineAll_of_offends hbefore (nodup_names_left hnames) hoffends] at hfound
    cases hfound

theorem Defines.isName_of_mem {inner : Scope Float} {entries : List (Datum × Datum)}
    {values : List (String × Float)} {x : Float} (hdefines : Defines inner entries values)
    (hentry : (name, x) ∈ values) : isName name.toList = true := by
  induction hdefines with
  | nil => cases hentry
  | snoc _ hname _ ih =>
      rcases List.mem_append.mp hentry with hentry | hentry
      · exact ih hentry
      · cases List.mem_singleton.mp hentry
        exact hname

end Sheet

namespace Store

/-- The context of a document knows the constants of the document. -/
theorem value?_added_layer (store : Store) (inner : Ref) {constants : Bindings Float} {x : Float}
    (hconstant : constants.get? name = some x) :
    ((store.add ⟨constants, Bindings.empty⟩).2.scope (.chain (.table store.tables.size) inner) :
      Scope Float).value? name = some x := by
  rw [value?_scope_chain, value?_table, table_add_size, hconstant, Option.some_or]

/-- Names of sheets and names of expressions are the same: a text is a name to a sheet if and only
if it is scanned as a single name, all of it, and the end of the input.  So every constant of a
document that is taken can be read by its name, which has the value in the new context that its
entry gives it. -/
theorem addSheet_names_readable :
    (∀ text : String, isName text.toList = true ↔
      ∃ token eof name, tokenize text = .ok [token, eof] ∧ token.kind = .name name ∧
        token.lexeme = text ∧ eof.kind = .eof) ∧
    ∀ (store after : Store) (inner context : Ref) (origin : String) (document : Datum),
      store.addSheet inner origin document = .ok (context, after) →
      ∃ entries, Sheet.Shaped document entries ∧ ((Sheet.names entries).Nodup →
        ∃ values, Sheet.Defines (store.scope inner) entries values ∧
          values.map Prod.fst = Sheet.names entries ∧
          ∀ name x, (name, x) ∈ values → ∃ expr, parse name = .ok expr ∧
            expr.evaluate (after.scope context : Scope Float) = .ok x) := by
  refine ⟨isName_iff_tokenize, ?_⟩
  intro store after inner context origin document hadd
  rw [addSheet] at hadd
  cases hconstants : Sheet.constants (store.scope inner) origin document with
  | error error =>
      rw [hconstants] at hadd
      cases hadd
  | ok found =>
      rw [hconstants] at hadd
      cases hadd
      obtain ⟨entries, hdocument⟩ := Sheet.exists_shaped_of_constants hconstants
      refine ⟨entries, hdocument, fun hnames => ?_⟩
      rw [Sheet.constants_of_shaped _ _ hdocument] at hconstants
      obtain ⟨values, hdefines, rfl⟩ := Sheet.exists_defines_of_defineAll hnames hconstants
      refine ⟨values, hdefines, hdefines.map_fst, ?_⟩
      intro name x hentry
      have hname := hdefines.isName_of_mem hentry
      have hlookup := Bindings.lookup_of_mem (hdefines.nodup hnames) hentry
      exact ⟨_, parse_of_isName hname,
        evaluate_variable (value?_added_layer store inner hlookup) (some name)⟩

end Store

end Reckon
