import Reckon.Proofs.Expr.Failure
import Reckon.Proofs.Sheet.Names

/-
How documents are refused.  A document of the wrong form is refused with a message of its own, and
an expression with the message of the reader or of the evaluation.  One reason has no such message:
an integer that is too large for a double.
-/

namespace Reckon

/-- The reasons with a message that says what is wrong with the document or with an expression. -/
inductive SheetError.Documented : SheetError → Prop
  | form {error : SheetError} {message : String} (hmessage : error.formMessage? = some message) :
      Documented error
  | rejected (error : SyntaxError) : Documented (.expression (.unreadable (.rejected error)))
  | fault {fault : Fault} (hfault : fault.diagnostic?.isSome = true) :
      Documented (.expression (.fault fault))

namespace Sheet

variable {inner scope : Scope Float} {origin : String} {key value : Datum}
  {entries : List (Datum × Datum)} {found : Bindings Float} {error : SheetError}

/-- Constants in front of a scope do not change how calls fail. -/
theorem explains_layered (hinner : inner.Explains) (found : Bindings Float) :
    (layered found inner).Explains := by
  intro name args fault hfault
  exact hinner name args fault hfault

/-- An entry that offends is documented, but for an integer beyond the largest double. -/
theorem Offends.documented (hscope : scope.Explains)
    (hoffends : Offends scope origin key value error) :
    error.Documented ∨ error = .number .overflow ∧ ∃ name n, key = .text name ∧
      isName name.toList = true ∧ value = .int n ∧ overflowBound ≤ n.natAbs := by
  cases hoffends with
  | key _ => exact .inl (.form rfl)
  | value _ _ => exact .inl (.form rfl)
  | @number name n hname hlarge => exact .inr ⟨rfl, name, n, rfl, hname, rfl, hlarge⟩
  | @unreadable _ source failure _ hparse =>
      obtain ⟨error, hrejected⟩ | ⟨_, _, _, _, _, _, hok⟩ := parse_cases source
      · rw [hrejected] at hparse
        cases hparse
        exact .inl (.rejected error)
      · rw [hok] at hparse
        cases hparse
  | fault _ hparse hfault =>
      exact .inl (.fault (Expr.isSome_diagnostic?_of_evaluate (Expr.fits_of_parse hparse) hscope
        hfault))

theorem offends_of_entryValue (herror : entryValue inner origin found key value = .error error) :
    Offends (layered found inner) origin key value error := by
  rcases gives_or_offends (layered found inner) origin key value with
    ⟨name, x, rfl, hname, hgives⟩ | ⟨reason, hoffends⟩
  · rw [entryValue_of_gives hname hgives] at herror
    cases herror
  · have hreason := entryValue_of_offends hoffends
    rw [hreason] at herror
    cases herror
    exact hoffends

/-- Entries fail at the first that gives nothing in the scope of those above it. -/
theorem defineAll_eq_error_iff : defineAll inner origin found entries = .error error ↔
    ∃ before key value later constants, entries = before ++ (key, value) :: later ∧
      defineAll inner origin found before = .ok constants ∧
      entryValue inner origin constants key value = .error error := by
  constructor
  · intro herror
    induction entries generalizing found with
    | nil => cases herror
    | cons entry later ih =>
        obtain ⟨key, value⟩ := entry
        rw [defineAll] at herror
        cases hentry : entryValue inner origin found key value with
        | error reason =>
            rw [hentry] at herror
            cases herror
            exact ⟨[], key, value, later, found, rfl, rfl, hentry⟩
        | ok result =>
            rw [hentry] at herror
            obtain ⟨before, other, datum, rest, constants, rfl, hbefore, hfails⟩ := ih herror
            refine ⟨(key, value) :: before, other, datum, rest, constants, rfl, ?_, hfails⟩
            rw [defineAll, hentry]
            exact hbefore
  · rintro ⟨before, key, value, later, constants, rfl, hbefore, hfails⟩
    rw [defineAll_append, hbefore]
    change defineAll inner origin constants ((key, value) :: later) = _
    rw [defineAll, hfails]

/-- A document has entries to define, or it is refused for its form. -/
theorem exists_shaped_or_form (inner : Scope Float) (origin : String) (document : Datum) :
    (∃ entries, Shaped document entries) ∨
      ∃ error message, constants inner origin document = .error error ∧
        error.formMessage? = some message := by
  cases document with
  | map fields =>
      by_cases hversion : isSupportedVersion
          ((Datum.entry? fields "schema_version").getD (.text "1.0")) = true
      · cases hfield : (Datum.entry? fields "constants").getD .null with
        | null => exact .inl ⟨[], fields, rfl, hversion, .inr ⟨hfield, rfl⟩⟩
        | map entries => exact .inl ⟨entries, fields, rfl, hversion, .inl hfield⟩
        | _ => exact .inr ⟨_, _, by rw [constants, if_pos hversion, hfield], rfl⟩
      · exact .inr ⟨_, _, by rw [constants, if_neg hversion], rfl⟩
  | _ => exact .inr ⟨_, _, rfl, rfl⟩

end Sheet

namespace Store

variable {store : Store} {inner : Ref} {origin : String} {document : Datum} {error : SheetError}

theorem explains_of_holdsBuiltins (hinner : store.HoldsBuiltins inner) :
    (store.scope inner : Scope Float).Explains :=
  fun _ _ _ hfault => isSome_diagnostic?_of_call hinner hfault

theorem addSheet_eq_error_iff_constants : store.addSheet inner origin document = .error error ↔
    Sheet.constants (store.scope inner) origin document = .error error := by
  rw [addSheet]
  cases Sheet.constants (store.scope inner) origin document with
  | error reason => simp
  | ok constants => simp

theorem not_documented_overflow : ¬(SheetError.number .overflow).Documented := by
  rintro ⟨hmessage⟩
  cases hmessage

/-- Over the built-in functions, a document that is refused is refused with a message of its own,
with one of the reader or with one of the evaluation, but for one reason.  That is an entry with a
name and an integer beyond the largest double, if all entries above it define constants. -/
theorem addSheet_refusals (hinner : store.HoldsBuiltins inner) (origin : String)
    (document : Datum) :
    (∀ error, store.addSheet inner origin document = .error error →
      error.Documented ∨ error = .number .overflow) ∧
    (store.addSheet inner origin document = .error (.number .overflow) ↔
      ∃ entries before name n later constants, Sheet.Shaped document entries ∧
        entries = before ++ (.text name, .int n) :: later ∧
        Sheet.defineAll (store.scope inner) origin Bindings.empty before = .ok constants ∧
        isName name.toList = true ∧ overflowBound ≤ n.natAbs) := by
  have hrefused : ∀ error, store.addSheet inner origin document = .error error →
      error.Documented ∨ error = .number .overflow ∧
        ∃ entries before name n later constants, Sheet.Shaped document entries ∧
          entries = before ++ (.text name, .int n) :: later ∧
          Sheet.defineAll (store.scope inner) origin Bindings.empty before = .ok constants ∧
          isName name.toList = true ∧ overflowBound ≤ n.natAbs := by
    intro error herror
    rw [addSheet_eq_error_iff_constants] at herror
    rcases Sheet.exists_shaped_or_form (store.scope inner) origin document with
      ⟨entries, hshaped⟩ | ⟨reason, message, hreason, hmessage⟩
    · rw [Sheet.constants_of_shaped _ _ hshaped, Sheet.defineAll_eq_error_iff] at herror
      obtain ⟨before, key, value, later, constants, hsplit, hbefore, hfails⟩ := herror
      have hscope := Sheet.explains_layered (explains_of_holdsBuiltins hinner) constants
      rcases (Sheet.offends_of_entryValue hfails).documented hscope with
        hdocumented | ⟨hoverflow, name, n, rfl, hname, rfl, hlarge⟩
      · exact .inl hdocumented
      · exact .inr ⟨hoverflow, entries, before, name, n, later, constants, hshaped, hsplit,
          hbefore, hname, hlarge⟩
    · rw [hreason] at herror
      cases herror
      exact .inl (.form hmessage)
  refine ⟨fun error herror => (hrefused error herror).imp_right And.left, ?_, ?_⟩
  · intro herror
    exact ((hrefused _ herror).resolve_left not_documented_overflow).2
  · rintro ⟨entries, before, name, n, later, constants, hshaped, rfl, hbefore, hname, hlarge⟩
    rw [addSheet_eq_error_iff_constants, Sheet.constants_of_shaped _ _ hshaped,
      Sheet.defineAll_eq_error_iff]
    exact ⟨before, _, _, later, constants, rfl, hbefore,
      Sheet.entryValue_of_offends (.number hname hlarge)⟩

/-- A constant of four hundred digits behind one that is defined. -/
def largeSheet : Datum :=
  .map [(.text "constants", .map [(.text "k", .text "pi"), (.text "x", .int (10 ^ 400))])]

theorem addSheet_refusals_large :
    empty.HoldsBuiltins .builtins ∧
      empty.addSheet .builtins "sheet" largeSheet = .error (.number .overflow) := by
  have hbuiltins : empty.HoldsBuiltins .builtins := trivial
  have hfirst : Sheet.Gives (Sheet.layered Bindings.empty (empty.scope .builtins)) (.text "pi")
      Catalog.pi :=
    .text (parse_of_isName (by decide)) (evaluate_variable rfl _)
  have hbefore : Sheet.defineAll (empty.scope .builtins) "sheet" Bindings.empty
      [(.text "k", .text "pi")] = .ok (Bindings.empty.put "k" Catalog.pi) := by
    rw [Sheet.defineAll, Sheet.entryValue_of_gives (by decide) hfirst]
    rfl
  have hlarge : overflowBound ≤ (10 ^ 400 : Int).natAbs := by decide +kernel
  refine ⟨hbuiltins, (addSheet_refusals hbuiltins "sheet" largeSheet).2.mpr ?_⟩
  exact ⟨_, [(.text "k", .text "pi")], "x", _, [], _, ⟨_, rfl, by decide, .inl rfl⟩, rfl, hbefore,
    by decide, hlarge⟩

/-- A document of the right form that is refused without a documented reason. -/
theorem addSheet_overflow : ∃ document error,
    empty.addSheet .builtins "sheet" document = .error error ∧ ¬error.Documented := by
  have hlarge : overflowBound ≤ (10 ^ 400 : Int).natAbs := by decide +kernel
  have hshaped : Sheet.Shaped (.map [(.text "constants", .map [(.text "x", .int (10 ^ 400))])])
      [(.text "x", .int (10 ^ 400))] := ⟨_, rfl, by decide, .inl rfl⟩
  refine ⟨_, _, (addSheet_eq_error_iff hshaped (by decide) _).mpr ?_, not_documented_overflow⟩
  exact ⟨[], _, _, [], [], rfl, .nil, .number (by decide) hlarge⟩

end Store

end Reckon
