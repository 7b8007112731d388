import Mathlib
import Reckon.Proofs.Scope.History
import Reckon.Proofs.Sheet.Constants
import Reckon.Proofs.Yaml.Lines
import Reckon.Sheet.Load

/-
Stores that calls and documents lead to, and files loaded into them.  No function of such a store
refers outside it, whatever has been done before.  A file is loaded as the document that is read
from it; what a context means that was there does not change.
-/

namespace Reckon

variable {ε : Type}

/-- Nothing is left between the ends of a text if all of it goes. -/
theorem trimEnds_eq_nil_iff {test : Char → Bool} {text : List Char} :
    trimEnds test text = [] ↔ ∀ c ∈ text, test c = true := by
  rw [trimEnds, List.reverse_eq_nil_iff, List.dropWhile_eq_nil_iff]
  constructor
  · intro hreversed c hc
    by_contra hkept
    -- Whatever is kept at the front is kept at the end as well.
    have hmem : c ∈ text.dropWhile test := by
      rw [← List.takeWhile_append_dropWhile (p := test) (l := text), List.mem_append] at hc
      exact hc.resolve_left fun htaken => hkept (List.mem_takeWhile_imp htaken)
    exact hkept (hreversed c (List.mem_reverse.mpr hmem))
  · intro hall c hc
    exact hall c ((List.dropWhile_sublist test).mem (List.mem_reverse.mp hc))

namespace Store

variable {store : Store}

/-- The function that the call stores, if any, refers to contexts that are there. -/
def HoldsAction (store : Store) : Action → Prop
  | .create _ => True
  | .change _ request => store.HoldsChange request

/-- The stores that calls and documents lead to, from one without contexts. -/
inductive Reached : Store → Prop
  | empty : Reached Store.empty
  | act {store : Store} {action : Action} (hstore : Reached store)
      (haction : store.HoldsAction action) : Reached (store.act action)
  | addSheet {store after : Store} {inner context : Ref} {origin : String} {document : Datum}
      (hstore : Reached store) (hinner : store.Holds inner)
      (hadd : store.addSheet inner origin document = .ok (context, after)) : Reached after

theorem holdsTable_startTable (store : Store) (catalog : Bool) :
    store.HoldsTable (startTable catalog) := by
  cases catalog with
  | true =>
      intro entry hentry
      change entry ∈ (Catalog.functions.map _).entries at hentry
      rw [Bindings.map, List.mem_map] at hentry
      obtain ⟨builtin, -, rfl⟩ := hentry
      trivial
  | false => exact store.holdsTable_empty

/-- Calls keep a store closed. -/
theorem Closed.act {action : Action} (hstore : store.Closed)
    (haction : store.HoldsAction action) : (store.act action).Closed := by
  cases action with
  | create catalog => exact hstore.add (store.holdsTable_startTable catalog)
  | change handle request =>
      rw [Store.act]
      split
      · rename_i hchange
        exact hstore.change haction hchange
      · exact hstore

/-- No function of a store that can be reached refers outside it. -/
theorem Reached.closed (hstore : store.Reached) : store.Closed := by
  induction hstore with
  | empty => exact closed_empty
  | act _ haction ih => exact ih.act haction
  | addSheet _ hinner hadd ih => exact (ih.addSheet hinner hadd).1

end Store

namespace Sheet

variable {surroundings : Surroundings ε} {given setting : Option String} {path : Path}
  {document : Datum} {error : LoadError ε}

/-- Without a path there is nothing to load if the setting is missing or blank. -/
theorem path?_eq_none_iff : path? given setting = none ↔
    given = none ∧ ∀ text, setting = some text → ∀ c ∈ text.toList, isBlank c = true := by
  cases given with
  | some text => simp [path?]
  | none =>
      have hblank : path? none setting = none ↔ trimBlanks (setting.getD "").toList = [] := by
        rw [path?]
        split <;> simp_all
      rw [hblank, trimBlanks, trimEnds_eq_nil_iff]
      cases setting <;> simp

/-- The file is there, and this document is read from it. -/
inductive Found (surroundings : Surroundings ε) (path : Path) : Datum → Prop
  | file {text : String} {value : Datum} (hthere : surroundings.isThere path = true)
      (hcontent : surroundings.content path = .ok text)
      (hread : surroundings.read text = .ok value) : Found surroundings path (ofValue value)

/-- No document is read from the file, for this reason. -/
inductive Missing (surroundings : Surroundings ε) (path : Path) : LoadError ε → Prop
  | notFound (hthere : surroundings.isThere path = false) :
      Missing surroundings path (.notFound path.text)
  | content {error : ε} (hthere : surroundings.isThere path = true)
      (hcontent : surroundings.content path = .error error) :
      Missing surroundings path (.outside error)
  | read {text : String} {error : ε} (hthere : surroundings.isThere path = true)
      (hcontent : surroundings.content path = .ok text)
      (hread : surroundings.read text = .error error) :
      Missing surroundings path (.outside error)

/-- The file holds this text, of which at least what is YAML is read as such. -/
structure Contains (surroundings : Surroundings ε) (path : Path) (text : String) : Prop where
  isThere : surroundings.isThere path = true
  content : surroundings.content path = .ok text
  read : ∀ value, Yaml.read text = .ok value → surroundings.read text = .ok value

theorem document_of_found (hfound : Found surroundings path document) :
    Sheet.document surroundings path = .ok document := by
  obtain ⟨hthere, hcontent, hread⟩ := hfound
  rw [Sheet.document, if_pos hthere, hcontent]
  simp [hread, Except.map, Except.mapError]

theorem document_of_missing (hmissing : Missing surroundings path error) :
    Sheet.document surroundings path = .error error := by
  rw [Sheet.document]
  cases hmissing with
  | notFound hthere => rw [if_neg (Bool.eq_false_iff.mp hthere)]
  | content hthere hcontent => rw [if_pos hthere, hcontent]
  | read hthere hcontent hread =>
      rw [if_pos hthere, hcontent]
      simp [hread, Except.map, Except.mapError]

theorem found_or_missing (surroundings : Surroundings ε) (path : Path) :
    (∃ document, Found surroundings path document) ∨
      ∃ error, Missing surroundings path error := by
  by_cases hthere : surroundings.isThere path = true
  · cases hcontent : surroundings.content path with
    | error error => exact .inr ⟨_, .content hthere hcontent⟩
    | ok text =>
        cases hread : surroundings.read text with
        | error error => exact .inr ⟨_, .read hthere hcontent hread⟩
        | ok value => exact .inl ⟨_, .file hthere hcontent hread⟩
  · exact .inr ⟨_, .notFound (Bool.eq_false_iff.mpr hthere)⟩

theorem document_eq_ok_iff : Sheet.document surroundings path = .ok document ↔
    Found surroundings path document := by
  refine ⟨fun hdocument => ?_, document_of_found⟩
  rcases found_or_missing surroundings path with ⟨other, hfound⟩ | ⟨error, hmissing⟩
  · rw [document_of_found hfound] at hdocument
    cases hdocument
    exact hfound
  · rw [document_of_missing hmissing] at hdocument
    cases hdocument

theorem document_eq_error_iff : Sheet.document surroundings path = .error error ↔
    Missing surroundings path error := by
  refine ⟨fun hdocument => ?_, document_of_missing⟩
  rcases found_or_missing surroundings path with ⟨document, hfound⟩ | ⟨other, hmissing⟩
  · rw [document_of_found hfound] at hdocument
    cases hdocument
  · rw [document_of_missing hmissing] at hdocument
    cases hdocument
    exact hmissing

end Sheet

namespace Store

variable {store after : Store} {inner context other : Ref} {surroundings : Surroundings ε}
  {given setting : Option String}

/-- Loading succeeds where there is nothing to load, and then changes nothing, and where a document
is found that is taken. -/
theorem load_eq_ok_iff : store.load inner surroundings given setting = .ok (context, after) ↔
    (Sheet.path? given setting = none ∧ context = inner ∧ after = store) ∨
    ∃ path document, Sheet.path? given setting = some path ∧
      Sheet.Found surroundings (surroundings.expand path) document ∧
      store.addSheet inner (surroundings.expand path).text document = .ok (context, after) := by
  rw [load]
  cases hpath : Sheet.path? given setting with
  | none => simp [eq_comm]
  | some path =>
      simp only [Option.map_some, reduceCtorEq, false_and, false_or, Option.some.injEq,
        exists_and_left, exists_eq_left', ← Sheet.document_eq_ok_iff]
      cases Sheet.document surroundings (surroundings.expand path) with
      | error error => simp
      | ok document =>
          cases hadd : store.addSheet inner (surroundings.expand path).text document <;>
            simp [hadd, Except.mapError]

/-- Loading fails where no document is found, and where the document is refused. -/
theorem load_eq_error_iff {error : LoadError ε} :
    store.load inner surroundings given setting = .error error ↔
      ∃ path, Sheet.path? given setting = some path ∧
        (Sheet.Missing surroundings (surroundings.expand path) error ∨
          ∃ document reason, Sheet.Found surroundings (surroundings.expand path) document ∧
            store.addSheet inner (surroundings.expand path).text document = .error reason ∧
            error = .sheet reason) := by
  rw [load]
  cases hpath : Sheet.path? given setting with
  | none => simp
  | some path =>
      simp only [Option.map_some, Option.some.injEq, exists_eq_left',
        ← Sheet.document_eq_ok_iff, ← Sheet.document_eq_error_iff]
      cases Sheet.document surroundings (surroundings.expand path) with
      | error reason => simp
      | ok document =>
          cases hadd : store.addSheet inner (surroundings.expand path).text document <;>
            simp [hadd, Except.mapError, eq_comm]

/-- Files lead to stores that can be reached. -/
theorem Reached.load (hstore : store.Reached) (hinner : store.Holds inner)
    (hload : store.load inner surroundings given setting = .ok (context, after)) :
    after.Reached ∧ after.Holds context := by
  obtain ⟨-, rfl, rfl⟩ | ⟨path, document, -, -, hadd⟩ := load_eq_ok_iff.mp hload
  · exact ⟨hstore, hinner⟩
  · exact ⟨hstore.addSheet hinner hadd, (hstore.closed.addSheet hinner hadd).2⟩

/-- No file changes what a context means that was there. -/
theorem Reached.scope_load (hstore : store.Reached) (hother : store.Holds other)
    (hload : store.load inner surroundings given setting = .ok (context, after)) :
    (after.scope other : Scope Float) = store.scope other := by
  obtain ⟨-, rfl, rfl⟩ | ⟨path, document, -, -, hadd⟩ := load_eq_ok_iff.mp hload
  · rfl
  · have hafter : store.afterSheet inner (surroundings.expand path).text document = after := by
      rw [afterSheet, hadd]
    rw [← hafter]
    exact scope_afterSheet hstore.closed inner _ document hother

/-- A file whose document defines constants is loaded, and the new context knows these. -/
theorem Reached.load_of_defines (hstore : store.Reached) (hinner : store.Holds inner)
    {path : Path} {document : Datum} {entries : List (Datum × Datum)}
    {values : List (String × Float)} (hpath : Sheet.path? given setting = some path)
    (hfound : Sheet.Found surroundings (surroundings.expand path) document)
    (hdocument : Sheet.Shaped document entries) (hnames : (Sheet.names entries).Nodup)
    (hdefines : Sheet.Defines (store.scope inner) entries values) :
    ∃ context after, store.load inner surroundings given setting = .ok (context, after) ∧
      after.Reached ∧ (after.scope context : Scope Float).Extends (store.scope inner) values := by
  obtain ⟨context, after, hadd, hextends⟩ := addSheet_of_defines hstore.closed hinner
    (surroundings.expand path).text hdocument hnames hdefines
  have hload : store.load inner surroundings given setting = .ok (context, after) :=
    load_eq_ok_iff.mpr (.inr ⟨path, document, hpath, hfound, hadd⟩)
  exact ⟨context, after, hload, (hstore.load hinner hload).1, hextends⟩

/-- Constants are loaded from a file that is read as a document that names them, if their names
differ and each can be computed from those above it. -/
theorem Reached.load_constants (hstore : store.Reached) (hinner : store.Holds inner) {path : Path}
    {text : String} {constants : List (String × Yaml.Tree × Datum)}
    {values : List (String × Float)} (hpath : Sheet.path? given setting = some path)
    (hcontains : Sheet.Contains surroundings (surroundings.expand path) text)
    (htext : Yaml.read text =
      (Yaml.constantsTree (constants.map fun constant => (constant.1, constant.2.1))).datum)
    (hread : ∀ constant ∈ constants, constant.2.1.read = .ok constant.2.2)
    (hnames : (constants.map Prod.fst).Nodup)
    (hdefines : Sheet.Defines (store.scope inner)
      (constants.map fun constant => (.text constant.1, constant.2.2)) values) :
    ∃ context after, store.load inner surroundings given setting = .ok (context, after) ∧
      after.Reached ∧ (after.scope context : Scope Float).Extends (store.scope inner) values := by
  have hvalue := htext.trans (Yaml.datum_constantsTree hnames hread)
  have hfound := Sheet.Found.file hcontains.isThere hcontains.content (hcontains.read _ hvalue)
  have hshaped : Sheet.Shaped (Sheet.ofValue (.map [(.text "constants",
      .map (constants.map fun constant => (.text constant.1, constant.2.2)))]))
      (constants.map fun constant => (.text constant.1, constant.2.2)) :=
    ⟨_, rfl, rfl, .inl rfl⟩
  have hkeys : Sheet.names (constants.map fun constant => (.text constant.1, constant.2.2)) =
      constants.map Prod.fst := by
    simp [Sheet.names, Sheet.keyName?]
  exact hstore.load_of_defines hinner hpath hfound hshaped (hkeys ▸ hnames) hdefines

/-- So are constants that are written in brackets. -/
theorem Reached.load_written (hstore : store.Reached) (hinner : store.Holds inner) {path : Path}
    {constants : List (String × Yaml.Tree × Datum)} {values : List (String × Float)}
    (hpath : Sheet.path? given setting = some path)
    (hcontains : Sheet.Contains surroundings (surroundings.expand path) (String.ofList
      (Yaml.constantsTree (constants.map fun constant => (constant.1, constant.2.1))).written))
    (hwritable : ∀ constant ∈ constants, constant.2.1.Writable)
    (hread : ∀ constant ∈ constants, constant.2.1.read = .ok constant.2.2)
    (hnames : (constants.map Prod.fst).Nodup)
    (hdefines : Sheet.Defines (store.scope inner)
      (constants.map fun constant => (.text constant.1, constant.2.2)) values) :
    ∃ context after, store.load inner surroundings given setting = .ok (context, after) ∧
      after.Reached ∧ (after.scope context : Scope Float).Extends (store.scope inner) values := by
  have htree : (Yaml.constantsTree
      (constants.map fun constant => (constant.1, constant.2.1))).Writable :=
    Yaml.writable_constantsTree (List.forall_mem_map.mpr hwritable)
  exact hstore.load_constants hinner hpath hcontains (Yaml.read_written htree) hread hnames hdefines

/-- So are constants that are written one below the other. -/
theorem Reached.load_lines (hstore : store.Reached) (hinner : store.Holds inner) {path : Path}
    {constants : List (String × Yaml.Tree × Datum)} {values : List (String × Float)}
    (hpath : Sheet.path? given setting = some path)
    (hcontains : Sheet.Contains surroundings (surroundings.expand path) (String.ofList
      (Yaml.document (Yaml.constantsEntries
        (constants.map fun constant => (constant.1, constant.2.1))))))
    (hshort : ∀ constant ∈ constants,
      (Yaml.Tree.quoted constant.1.toList).written.length ≤ 1024)
    (hlined : ∀ constant ∈ constants, constant.2.1.Lined)
    (hread : ∀ constant ∈ constants, constant.2.1.read = .ok constant.2.2)
    (hnames : (constants.map Prod.fst).Nodup)
    (hdefines : Sheet.Defines (store.scope inner)
      (constants.map fun constant => (.text constant.1, constant.2.2)) values) :
    ∃ context after, store.load inner surroundings given setting = .ok (context, after) ∧
      after.Reached ∧ (after.scope context : Scope Float).Extends (store.scope inner) values := by
  have htree : (Yaml.constantsTree
      (constants.map fun constant => (constant.1, constant.2.1))).Lined :=
    Yaml.lined_constantsTree (List.forall_mem_map.mpr hshort) (List.forall_mem_map.mpr hlined)
  exact hstore.load_constants hinner hpath hcontains (Yaml.read_document htree) hread hnames
    hdefines

end Store

end Reckon
