import Mathlib
import Reckon.Proofs.Decimal.Overflow
import Reckon.Proofs.Scope.Alike
import Reckon.Proofs.Scope.Store

/-
Constants of a document.  They are defined one after the other, each in the scope of those above
it, and the first entry that defines nothing decides how the document fails.
-/

namespace Reckon

namespace Bindings

variable {α : Type} {name : String} {value : α} {entries : List (String × α)}

theorem lookup_of_mem (hnames : (entries.map Prod.fst).Nodup) (hentry : (name, value) ∈ entries) :
    lookup name entries = some value := by
  induction entries with
  | nil => cases hentry
  | cons head tail ih =>
      obtain ⟨other, first⟩ := head
      obtain ⟨hother, htail⟩ := List.nodup_cons.mp hnames
      rcases List.mem_cons.mp hentry with hhead | hentry
      · cases hhead
        rw [lookup, if_pos rfl]
      · have hname : other ≠ name := by
          rintro rfl
          exact hother (List.mem_map.mpr ⟨_, hentry, rfl⟩)
        rw [lookup, if_neg hname]
        exact ih htail hentry

theorem lookup_of_not_mem (hname : name ∉ entries.map Prod.fst) : lookup name entries = none := by
  induction entries with
  | nil => rfl
  | cons head tail ih =>
      obtain ⟨other, first⟩ := head
      rw [List.map_cons, List.mem_cons, not_or] at hname
      rw [lookup, if_neg fun hsame => hname.1 hsame.symm]
      exact ih hname.2

/-- A new name is put behind the others. -/
theorem put_of_not_mem (hname : name ∉ entries.map Prod.fst) (value : α) :
    put ⟨entries⟩ name value = ⟨entries ++ [(name, value)]⟩ := by
  rw [put]
  congr 1
  induction entries with
  | nil => rfl
  | cons head tail ih =>
      obtain ⟨other, first⟩ := head
      rw [List.map_cons, List.mem_cons, not_or] at hname
      rw [replace, if_neg fun hsame => hname.1 hsame.symm, ih hname.2]
      rfl

theorem mem_of_lookup (hlookup : lookup name entries = some value) : (name, value) ∈ entries := by
  induction entries with
  | nil => cases hlookup
  | cons head tail ih =>
      obtain ⟨other, first⟩ := head
      rw [lookup] at hlookup
      split at hlookup
      · rename_i hname
        cases hlookup
        rw [hname]
        exact List.mem_cons_self
      · exact List.mem_cons_of_mem _ (ih hlookup)

theorem not_mem_of_lookup (hlookup : lookup name entries = none) :
    name ∉ entries.map Prod.fst := by
  induction entries with
  | nil => exact List.not_mem_nil
  | cons head tail ih =>
      obtain ⟨other, first⟩ := head
      rw [lookup] at hlookup
      split at hlookup
      · cases hlookup
      · rename_i hname
        rw [List.map_cons, List.mem_cons, not_or]
        exact ⟨fun hsame => hname hsame.symm, ih hlookup⟩

/-- Different names that are bound one after the other stand in this order. -/
theorem ofList_of_nodup (hnames : (entries.map Prod.fst).Nodup) : ofList entries = ⟨entries⟩ := by
  induction entries using List.reverseRecOn with
  | nil => rfl
  | append_singleton front entry ih =>
      rw [List.map_append, List.nodup_append] at hnames
      obtain ⟨hfront, -, hapart⟩ := hnames
      have hname : entry.1 ∉ front.map Prod.fst := by
        intro hmem
        exact hapart _ hmem _ (by simp) rfl
      have hlast : ofList (front ++ [entry]) = (ofList front).put entry.1 entry.2 := by
        rw [ofList, List.foldl_append]
        rfl
      rw [hlast, ih hfront, put_of_not_mem hname]

end Bindings

namespace Sheet

variable {inner scope : Scope Float} {origin : String} {key value : Datum} {name : String}
  {x : Float} {entries before later : List (Datum × Datum)} {found : Bindings Float}
  {values : List (String × Float)} {error : SheetError}

/-- The number of a constant: the number it is given as, which for an integer is the nearest double
if it is not too large for one, or the value of its expression. -/
inductive Gives (scope : Scope Float) : Datum → Float → Prop
  | float (x : Float) : Gives scope (.float x) x
  | int {n : Int} {x : Float} (hfits : n.natAbs < overflowBound) (hnearest : IsNearest n x) :
      Gives scope (.int n) x
  | text {source : String} {expr : Expr} {x : Float} (hparse : parse source = .ok expr)
      (hvalue : expr.evaluate scope = .ok x) : Gives scope (.text source) x

def IsNumberOrText : Datum → Prop
  | .int _ | .float _ | .text _ => True
  | _ => False

/-- An entry defines nothing, for this reason. -/
inductive Offends (scope : Scope Float) (origin : String) : Datum → Datum → SheetError → Prop
  | key {key value : Datum} (hkey : ∀ name, key = .text name → isName name.toList = false) :
      Offends scope origin key value (.invalidName key.shown origin)
  | value {name : String} {value : Datum} (hname : isName name.toList = true)
      (hvalue : ¬IsNumberOrText value) :
      Offends scope origin (.text name) value (.invalidValue name origin)
  | number {name : String} {n : Int} (hname : isName name.toList = true)
      (hlarge : overflowBound ≤ n.natAbs) :
      Offends scope origin (.text name) (.int n) (.number .overflow)
  | unreadable {name source : String} {failure : ParseFailure}
      (hname : isName name.toList = true) (hparse : parse source = .error failure) :
      Offends scope origin (.text name) (.text source) (.expression (.unreadable failure))
  | fault {name source : String} {expr : Expr} {fault : Fault} (hname : isName name.toList = true)
      (hparse : parse source = .ok expr) (hfault : expr.evaluate scope = .error fault) :
      Offends scope origin (.text name) (.text source) (.expression (.fault fault))

/-- The entries define these constants, each in the scope of those before it. -/
inductive Defines (inner : Scope Float) : List (Datum × Datum) → List (String × Float) → Prop
  | nil : Defines inner [] []
  | snoc {before : List (Datum × Datum)} {values : List (String × Float)} {name : String}
      {value : Datum} {x : Float} (hbefore : Defines inner before values)
      (hname : isName name.toList = true) (hvalue : Gives (layered ⟨values⟩ inner) value x) :
      Defines inner (before ++ [(.text name, value)]) (values ++ [(name, x)])

def keyName? : Datum → Option String
  | .text name => some name
  | _ => none

/-- The names that the entries are for. -/
def names (entries : List (Datum × Datum)) : List String :=
  entries.filterMap fun entry => keyName? entry.1

/-- A document of the right form with these entries. -/
def Shaped (document : Datum) (entries : List (Datum × Datum)) : Prop :=
  ∃ fields, document = .map fields ∧
    isSupportedVersion ((Datum.entry? fields "schema_version").getD (.text "1.0")) = true ∧
    ((Datum.entry? fields "constants").getD .null = .map entries ∨
      (Datum.entry? fields "constants").getD .null = .null ∧ entries = [])

theorem entryValue_of_gives (hname : isName name.toList = true)
    (hvalue : Gives (layered found inner) value x) :
    entryValue inner origin found (.text name) value = .ok (name, x) := by
  cases hvalue with
  | float x => simp [entryValue, hname, Datum.toFloat]
  | int hfits hnearest =>
      simp [entryValue, hname, Datum.toFloat, Datum.floatOfInt_eq_ok_iff.mpr ⟨hfits, hnearest⟩]
  | text hparse hvalue =>
      simp [entryValue, hname, evaluateText, hparse, hvalue, Except.mapError]

theorem entryValue_of_offends (hoffends : Offends (layered found inner) origin key value error) :
    entryValue inner origin found key value = .error error := by
  cases hoffends with
  | key hkey =>
      cases key with
      | text name => simp [entryValue, hkey name rfl]
      | _ => rfl
  | value hname hvalue =>
      cases value with
      | int n => exact absurd trivial hvalue
      | float x => exact absurd trivial hvalue
      | text source => exact absurd trivial hvalue
      | _ => simp [entryValue, hname]
  | number hname hlarge =>
      simp [entryValue, hname, Datum.toFloat, Datum.floatOfInt_eq_error_iff.mpr ⟨rfl, hlarge⟩]
  | unreadable hname hparse => simp [entryValue, hname, evaluateText, hparse]
  | fault hname hparse hfault =>
      simp [entryValue, hname, evaluateText, hparse, hfault, Except.mapError]

/-- An entry has a name and gives a number, or it is refused. -/
theorem gives_or_offends (scope : Scope Float) (origin : String) (key value : Datum) :
    (∃ name x, key = .text name ∧ isName name.toList = true ∧ Gives scope value x) ∨
      ∃ error, Offends scope origin key value error := by
  by_cases hkey : ∃ name, key = .text name ∧ isName name.toList = true
  · obtain ⟨name, rfl, hname⟩ := hkey
    cases value with
    | float x => exact .inl ⟨name, x, rfl, hname, .float x⟩
    | int n =>
        rcases Nat.lt_or_ge n.natAbs overflowBound with hfits | hlarge
        · obtain ⟨x, hnearest⟩ := Datum.exists_isNearest hfits
          exact .inl ⟨name, x, rfl, hname, .int hfits hnearest⟩
        · exact .inr ⟨_, .number hname hlarge⟩
    | text source =>
        cases hparse : parse source with
        | error failure => exact .inr ⟨_, .unreadable hname hparse⟩
        | ok expr =>
            cases hvalue : expr.evaluate scope with
            | ok x => exact .inl ⟨name, x, rfl, hname, .text hparse hvalue⟩
            | error fault => exact .inr ⟨_, .fault hname hparse hvalue⟩
    | _ => exact .inr ⟨_, .value hname id⟩
  · refine .inr ⟨_, .key ?_⟩
    intro name hname
    rw [← Bool.not_eq_true]
    exact fun htrue => hkey ⟨name, hname, htrue⟩

theorem names_append (before later : List (Datum × Datum)) :
    names (before ++ later) = names before ++ names later :=
  List.filterMap_append

theorem nodup_names_left (hnames : (names (before ++ later)).Nodup) : (names before).Nodup := by
  rw [names_append] at hnames
  exact hnames.of_append_left

namespace Defines

theorem map_fst (hdefines : Defines inner entries values) :
    values.map Prod.fst = names entries := by
  induction hdefines with
  | nil => rfl
  | snoc _ _ _ ih =>
      rw [List.map_append, ih, names_append]
      rfl

theorem length_eq (hdefines : Defines inner entries values) :
    values.length = entries.length := by
  induction hdefines with
  | nil => rfl
  | snoc _ _ _ ih =>
      rw [List.length_append, List.length_append, ih]
      rfl

theorem nodup (hdefines : Defines inner entries values) (hnames : (names entries).Nodup) :
    (values.map Prod.fst).Nodup := by
  rw [hdefines.map_fst]
  exact hnames

/-- The names of later entries are new. -/
theorem not_mem_of_later (hbefore : Defines inner before values)
    (hnames : (names (before ++ later)).Nodup) (hname : name ∈ names later) :
    name ∉ values.map Prod.fst := by
  rw [names_append] at hnames
  rw [hbefore.map_fst]
  exact fun hmem => List.disjoint_of_nodup_append hnames hmem hname

/-- The first entries define the first constants. -/
theorem take (hdefines : Defines inner entries values) (count : Nat) :
    Defines inner (entries.take count) (values.take count) := by
  induction hdefines with
  | nil => simpa using nil
  | @snoc before values name value x hbefore hname hvalue ih =>
      by_cases hcount : count ≤ before.length
      · rw [List.take_append_of_le_length hcount,
          List.take_append_of_le_length (hbefore.length_eq ▸ hcount)]
        exact ih
      · rw [List.take_of_length_le (by simp; omega),
          List.take_of_length_le (by simp [hbefore.length_eq]; omega)]
        exact hbefore.snoc hname hvalue

end Defines

theorem defineAll_append (constants : Bindings Float) (before later : List (Datum × Datum)) :
    defineAll inner origin constants (before ++ later) =
      (defineAll inner origin constants before >>= fun found =>
        defineAll inner origin found later) := by
  induction before generalizing constants with
  | nil => rfl
  | cons entry rest ih =>
      obtain ⟨key, value⟩ := entry
      rw [List.cons_append, defineAll, defineAll]
      cases entryValue inner origin constants key value with
      | error error => rfl
      | ok found => exact ih _

/-- Entries that define constants are all taken. -/
theorem defineAll_of_defines (origin : String) (hdefines : Defines inner entries values)
    (hnames : (names entries).Nodup) :
    defineAll inner origin Bindings.empty entries = .ok ⟨values⟩ := by
  induction hdefines with
  | nil => rfl
  | @snoc before values name value x hbefore hname hvalue ih =>
      have hnew : name ∉ values.map Prod.fst :=
        hbefore.not_mem_of_later hnames List.mem_cons_self
      rw [defineAll_append, ih (nodup_names_left hnames)]
      change defineAll inner origin ⟨values⟩ [(.text name, value)] = _
      rw [defineAll, entryValue_of_gives hname hvalue]
      dsimp only
      rw [defineAll, Bindings.put_of_not_mem hnew]

/-- An entry that offends stops the others, whatever they are. -/
theorem defineAll_of_offends (hbefore : Defines inner before values)
    (hnames : (names before).Nodup)
    (hoffends : Offends (layered ⟨values⟩ inner) origin key value error)
    (later : List (Datum × Datum)) :
    defineAll inner origin Bindings.empty (before ++ (key, value) :: later) = .error error := by
  rw [defineAll_append, defineAll_of_defines origin hbefore hnames]
  change defineAll inner origin ⟨values⟩ ((key, value) :: later) = _
  rw [defineAll, entryValue_of_offends hoffends]

/-- Entries define constants up to their end, or up to the first that offends. -/
theorem defines_or_offends (inner : Scope Float) (origin : String)
    (entries : List (Datum × Datum)) :
    (∃ values, Defines inner entries values) ∨
      ∃ before key value later values error, entries = before ++ (key, value) :: later ∧
        Defines inner before values ∧
        Offends (layered ⟨values⟩ inner) origin key value error := by
  -- From the last entry back, because its scope needs the constants of all others.
  induction entries using List.reverseRecOn with
  | nil => exact .inl ⟨[], .nil⟩
  | append_singleton before entry ih =>
      obtain ⟨key, value⟩ := entry
      rcases ih with ⟨values, hbefore⟩ | ⟨first, other, datum, later, values, error, rfl, hfirst⟩
      · rcases gives_or_offends (layered ⟨values⟩ inner) origin key value with
          ⟨name, x, rfl, hname, hvalue⟩ | ⟨error, hoffends⟩
        · exact .inl ⟨_, hbefore.snoc hname hvalue⟩
        · exact .inr ⟨before, key, value, [], values, error, rfl, hbefore, hoffends⟩
      · exact .inr ⟨first, other, datum, later ++ [(key, value)], values, error,
          by rw [List.append_assoc, List.cons_append], hfirst⟩

theorem constants_of_shaped {document : Datum} (inner : Scope Float) (origin : String)
    (hdocument : Shaped document entries) :
    constants inner origin document = defineAll inner origin Bindings.empty entries := by
  obtain ⟨fields, rfl, hversion, hentries⟩ := hdocument
  rw [constants, if_pos hversion]
  rcases hentries with hentries | ⟨hentries, rfl⟩
  · rw [hentries]
  · rw [hentries]
    rfl

end Sheet

/-- The outer scope means what the inner one means but for these variables. -/
structure Scope.Extends (outer inner : Scope Float) (values : List (String × Float)) : Prop where
  value : ∀ name x, (name, x) ∈ values → outer.value? name = some x
  other : ∀ name, name ∉ values.map Prod.fst → outer.value? name = inner.value? name
  function : ∀ name, outer.function? name = inner.function? name
  call : ∀ name args, outer.call name args = inner.call name args

/-- Different names that an outer scope without functions gives these values hide what the inner one
says of them. -/
theorem Scope.Extends.chain {outer inner : Scope Float} {values : List (String × Float)}
    (hnames : (values.map Prod.fst).Nodup)
    (hvalue : ∀ name, outer.value? name = Bindings.lookup name values)
    (hfunction : ∀ name, outer.function? name = none) :
    (Scope.chain outer inner).Extends inner values where
  value name x hentry := by
    rw [value?_chain, hvalue, Bindings.lookup_of_mem hnames hentry]
    rfl
  other name hname := by
    rw [value?_chain, hvalue, Bindings.lookup_of_not_mem hname]
    rfl
  function name := by
    rw [function?_chain, hfunction]
    rfl
  call name args := by rw [Scope.call, hfunction]

theorem Sheet.layered_extends {values : List (String × Float)} (inner : Scope Float)
    (hnames : (values.map Prod.fst).Nodup) :
    (layered ⟨values⟩ inner).Extends inner values :=
  .chain hnames (fun _ => Option.map_id_apply) fun _ => rfl

namespace Store

variable {store : Store} {inner : Ref} {document : Datum} {entries : List (Datum × Datum)}
  {values : List (String × Float)} {origin : String}

/-- The store after a document, which stays as it was if the document is refused. -/
def afterSheet (store : Store) (inner : Ref) (origin : String) (document : Datum) : Store :=
  match store.addSheet inner origin document with
  | .ok (_, after) => after
  | .error _ => store

/-- No document changes what a context means that was there. -/
theorem scope_afterSheet (hstore : store.Closed) (inner : Ref) (origin : String)
    (document : Datum) {context : Ref} (hcontext : store.Holds context) :
    ((store.afterSheet inner origin document).scope context : Scope Float) =
      store.scope context := by
  rw [afterSheet, addSheet]
  cases Sheet.constants (store.scope inner) origin document with
  | error error => rfl
  | ok constants => exact scope_add_constants hstore constants hcontext

/-- New constants in a table of their own stand in front of a context. -/
theorem scope_add_table {V : Type} [Elementwise V] [Callable.Carrier V] (hstore : store.Closed)
    (constants : Bindings Float) (hinner : store.Holds inner) :
    ((store.add ⟨constants, Bindings.empty⟩).2.scope (.chain (.table store.tables.size) inner) :
      Scope V) = .chain (.table ⟨constants, Bindings.empty⟩) (store.scope inner) := by
  rw [← scope_add_constants hstore constants hinner]
  change Scope.chain (.table (((store.add ⟨constants, Bindings.empty⟩).2.table
    store.tables.size).map _)) _ = _
  rw [table_add_size]
  rfl

/-- New constants in a table of their own are a layer in front of a context. -/
theorem scope_add_layer (hstore : store.Closed) (constants : Bindings Float)
    (hinner : store.Holds inner) :
    ((store.add ⟨constants, Bindings.empty⟩).2.scope (.chain (.table store.tables.size) inner) :
      Scope Float) = Sheet.layered constants (store.scope inner) :=
  scope_add_table hstore constants hinner

theorem addSheet_of_defines (hstore : store.Closed) (hinner : store.Holds inner)
    (origin : String) (hdocument : Sheet.Shaped document entries)
    (hnames : (Sheet.names entries).Nodup)
    (hdefines : Sheet.Defines (store.scope inner) entries values) :
    ∃ context after, store.addSheet inner origin document = .ok (context, after) ∧
      (after.scope context : Scope Float).Extends (store.scope inner) values := by
  have hadd : store.addSheet inner origin document =
      .ok (.chain (.table store.tables.size) inner, (store.add ⟨⟨values⟩, Bindings.empty⟩).2) := by
    rw [addSheet, Sheet.constants_of_shaped _ _ hdocument,
      Sheet.defineAll_of_defines origin hdefines hnames]
    rfl
  refine ⟨_, _, hadd, ?_⟩
  rw [scope_add_layer hstore ⟨values⟩ hinner]
  exact Sheet.layered_extends _ (hdefines.nodup hnames)

/-- Documents keep a store closed. -/
theorem Closed.addSheet {after : Store} {context : Ref} (hstore : store.Closed)
    (hinner : store.Holds inner)
    (hadd : store.addSheet inner origin document = .ok (context, after)) :
    after.Closed ∧ after.Holds context := by
  rw [Store.addSheet] at hadd
  cases hconstants : Sheet.constants (store.scope inner) origin document with
  | error error =>
      rw [hconstants] at hadd
      cases hadd
  | ok constants =>
      rw [hconstants] at hadd
      cases hadd
      exact ⟨hstore.add store.holdsTable_empty, store.holds_add _, hinner.add _⟩

theorem addSheet_eq_error_iff (hdocument : Sheet.Shaped document entries)
    (hnames : (Sheet.names entries).Nodup) (error : SheetError) :
    store.addSheet inner origin document = .error error ↔
      ∃ before key value later values, entries = before ++ (key, value) :: later ∧
        Sheet.Defines (store.scope inner) before values ∧
        Sheet.Offends (Sheet.layered ⟨values⟩ (store.scope inner)) origin key value error := by
  rw [addSheet, Sheet.constants_of_shaped _ _ hdocument]
  constructor
  · intro herror
    rcases Sheet.defines_or_offends (store.scope inner) origin entries with
      ⟨values, hdefines⟩ | ⟨before, key, value, later, values, other, rfl, hbefore, hoffends⟩
    · rw [Sheet.defineAll_of_defines origin hdefines hnames] at herror
      cases herror
    · have hbeforeNames := Sheet.nodup_names_left hnames
      rw [Sheet.defineAll_of_offends hbefore hbeforeNames hoffends] at herror
      cases herror
      exact ⟨before, key, value, later, values, rfl, hbefore, hoffends⟩
  · rintro ⟨before, key, value, later, values, rfl, hbefore, hoffends⟩
    rw [Sheet.defineAll_of_offends hbefore (Sheet.nodup_names_left hnames) hoffends]

/-- A document of the right form, with distinct names, is taken if and only if each of its entries
has a name and gives a number in the scope of the constants above it, where its own name and those
below mean what they mean without the document.  The new context then knows these constants and
is like the inner one otherwise.  If the document is refused, the first entry that offends says
why, whatever comes behind it.  In neither case do the contexts change that were there, and the
first entries alone define the same constants as with the others behind them. -/
theorem addSheet_in_order (hstore : store.Closed) (hinner : store.Holds inner) (origin : String)
    (hdocument : Sheet.Shaped document entries) (hnames : (Sheet.names entries).Nodup) :
    ((∃ context after, store.addSheet inner origin document = .ok (context, after)) ↔
      ∃ values, Sheet.Defines (store.scope inner) entries values) ∧
    (∀ values, Sheet.Defines (store.scope inner) entries values →
      values.map Prod.fst = Sheet.names entries ∧
      (∃ context after, store.addSheet inner origin document = .ok (context, after) ∧
        (after.scope context : Scope Float).Extends (store.scope inner) values) ∧
      ∀ count source smaller, Sheet.Shaped smaller (entries.take count) →
        ∃ context after, store.addSheet inner source smaller = .ok (context, after) ∧
          (after.scope context : Scope Float).Extends (store.scope inner) (values.take count)) ∧
    (∀ before key value later values, entries = before ++ (key, value) :: later →
      Sheet.Defines (store.scope inner) before values →
      ∀ name ∈ Sheet.names ((key, value) :: later),
        (Sheet.layered ⟨values⟩ (store.scope inner)).value? name =
          (store.scope inner : Scope Float).value? name) ∧
    (∀ error, store.addSheet inner origin document = .error error ↔
      ∃ before key value later values, entries = before ++ (key, value) :: later ∧
        Sheet.Defines (store.scope inner) before values ∧
        Sheet.Offends (Sheet.layered ⟨values⟩ (store.scope inner)) origin key value error) ∧
    ∀ other, store.Holds other →
      ((store.afterSheet inner origin document).scope other : Scope Float) = store.scope other := by
  refine ⟨⟨?_, ?_⟩, ?_, ?_, addSheet_eq_error_iff hdocument hnames,
    fun other => scope_afterSheet hstore inner origin document⟩
  · rintro ⟨context, after, hadd⟩
    rcases Sheet.defines_or_offends (store.scope inner) origin entries with
      hdefines | ⟨before, key, value, later, values, error, hoffends⟩
    · exact hdefines
    · have herror := (addSheet_eq_error_iff hdocument hnames error).mpr
        ⟨before, key, value, later, values, hoffends⟩
      rw [hadd] at herror
      cases herror
  · rintro ⟨values, hdefines⟩
    obtain ⟨context, after, hadd, _⟩ :=
      addSheet_of_defines hstore hinner origin hdocument hnames hdefines
    exact ⟨context, after, hadd⟩
  · intro values hdefines
    refine ⟨hdefines.map_fst,
      addSheet_of_defines hstore hinner origin hdocument hnames hdefines, ?_⟩
    intro count source smaller hsmaller
    have hfirst : (Sheet.names (entries.take count)).Nodup := by
      rw [← List.take_append_drop count entries] at hnames
      exact Sheet.nodup_names_left hnames
    exact addSheet_of_defines hstore hinner source hsmaller hfirst (hdefines.take count)
  · rintro before key value later values rfl hbefore name hname
    have hdistinct := hbefore.nodup (Sheet.nodup_names_left hnames)
    apply (Sheet.layered_extends (store.scope inner) hdistinct).other
    exact hbefore.not_mem_of_later hnames hname

/-- A constant of the catalog redefined by its own old value, and one that uses the new value. -/
def shadowingEntries : List (Datum × Datum) :=
  [(.text "pi", .text "pi * pi"), (.text "tau", .text "pi")]

def shadowingSheet : Datum := .map [(.text "constants", .map shadowingEntries)]

theorem gives_pi {scope : Scope Float} {x : Float} (hpi : scope.value? "pi" = some x) :
    Sheet.Gives scope (.text "pi") x := by
  refine .text (show parse "pi" = .ok _ by cbv) ?_
  simp [Expr.evaluate, Expr.run, evaluateNodes, Node.evaluate, hpi, slot, Expr.size]

theorem gives_piSquared {scope : Scope Float} {x : Float} (hpi : scope.value? "pi" = some x) :
    Sheet.Gives scope (.text "pi * pi") (x * x) := by
  refine .text (show parse "pi * pi" = .ok _ by cbv) ?_
  simp [Expr.evaluate, Expr.run, evaluateNodes, Node.evaluate, hpi, slot, Expr.size]
  rfl

theorem addSheet_shadowing : ∃ context after,
    empty.addSheet .builtins "sheet" shadowingSheet = .ok (context, after) ∧
      (after.scope context : Scope Float).value? "pi" = some (Catalog.pi * Catalog.pi) ∧
      (after.scope context : Scope Float).value? "tau" = some (Catalog.pi * Catalog.pi) ∧
      (after.scope context : Scope Float).value? "e" = some Catalog.euler := by
  have hfirst : Sheet.Defines (empty.scope .builtins) [(.text "pi", .text "pi * pi")]
      [("pi", Catalog.pi * Catalog.pi)] :=
    .snoc .nil (by decide) (gives_piSquared rfl)
  have hdefines : Sheet.Defines (empty.scope .builtins) shadowingEntries
      [("pi", Catalog.pi * Catalog.pi), ("tau", Catalog.pi * Catalog.pi)] :=
    .snoc hfirst (by decide) (gives_pi rfl)
  have hshaped : Sheet.Shaped shadowingSheet shadowingEntries :=
    ⟨_, rfl, by decide, .inl rfl⟩
  have hbuiltins : empty.Holds .builtins := trivial
  obtain ⟨_, hall, _⟩ :=
    addSheet_in_order closed_empty hbuiltins "sheet" hshaped (by decide)
  obtain ⟨_, ⟨context, after, hadd, hextends⟩, _⟩ := hall _ hdefines
  refine ⟨context, after, hadd, ?_, ?_, ?_⟩
  · exact hextends.value "pi" _ (by simp)
  · exact hextends.value "tau" _ (by simp)
  · rw [hextends.other "e" (by simp)]
    rfl

end Store

end Reckon
