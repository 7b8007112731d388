import Reckon.Proofs.Expr.Dependence
import Reckon.Proofs.Sheet.Names

/-
The order of constants.  The entries of a document see what stands above them, so that their order
counts; but two entries that do not use each other's names may change places.
-/

namespace Reckon

namespace Bindings

variable {α : Type} {first second : Bindings α}

/-- The names have the same values, in whatever order they stand. -/
def Same (first second : Bindings α) : Prop := ∀ name, first.get? name = second.get? name

theorem Same.put (hsame : first.Same second) (name : String) (value : α) :
    (first.put name value).Same (second.put name value) := by
  intro title
  by_cases htitle : title = name
  · subst htitle
    rw [get?_put_self, get?_put_self]
  · rw [get?_put_of_ne htitle, get?_put_of_ne htitle, hsame title]

theorem same_put_put {name other : String} (hname : name ≠ other) (bindings : Bindings α)
    (value further : α) :
    ((bindings.put name value).put other further).Same
      ((bindings.put other further).put name value) := by
  intro title
  by_cases htitle : title = name
  · subst htitle
    rw [get?_put_of_ne hname, get?_put_self, get?_put_self]
  · rw [get?_put_of_ne htitle]
    by_cases hother : title = other
    · subst hother
      rw [get?_put_self, get?_put_self]
    · rw [get?_put_of_ne hother, get?_put_of_ne hother, get?_put_of_ne htitle]

end Bindings

/-- Tables of constants give every name the same meaning, in whatever order they hold them. -/
theorem Bindings.Same.alike {V : Type} [Elementwise V] {first second : Bindings Float}
    (hsame : first.Same second) (inner : Scope V) :
    (Scope.chain (.table ⟨first, Bindings.empty⟩) inner).Alike
      (.chain (.table ⟨second, Bindings.empty⟩) inner) := by
  refine .chain ⟨fun name => ?_, fun _ => rfl⟩ ⟨fun _ => rfl, fun _ => rfl⟩
  change (first.get? name).map _ = (second.get? name).map _
  rw [hsame name]

/-- Two results are related, or there is none on either side. -/
inductive Matched {ε α β : Type} (related : α → β → Prop) : Except ε α → Except ε β → Prop
  | ok {x : α} {y : β} (hrelated : related x y) : Matched related (.ok x) (.ok y)
  | error (first second : ε) : Matched related (.error first) (.error second)

theorem Matched.ok_or_error {ε α β : Type} {related : α → β → Prop} {first : Except ε α}
    {second : Except ε β} (hmatched : Matched related first second) :
    (∃ x y, first = .ok x ∧ second = .ok y ∧ related x y) ∨
      ∃ error flaw, first = .error error ∧ second = .error flaw := by
  cases hmatched with
  | ok hrelated => exact .inl ⟨_, _, rfl, rfl, hrelated⟩
  | error error flaw => exact .inr ⟨error, flaw, rfl, rfl⟩

theorem Matched.refl {ε α : Type} {related : α → α → Prop} (hrefl : ∀ x, related x x)
    (result : Except ε α) : Matched related result result := by
  cases result with
  | error error => exact .error error error
  | ok x => exact .ok (hrefl x)

theorem Agree.matched {ε α β : Type} {related : α → β → Prop} {first : Except ε α}
    {second : Except ε β} (hagree : Agree related first second) :
    Matched related first second := by
  cases first with
  | error error =>
      cases second with
      | error other => exact .error error other
      | ok y => exact hagree.elim
  | ok x =>
      cases second with
      | error other => exact hagree.elim
      | ok y => exact .ok hagree

namespace Sheet

variable {inner : Scope Float} {origin : String} {key value : Datum} {name : String} {x : Float}
  {found first second : Bindings Float} {entry other : Datum × Datum}

/-- The value is an expression in which the name occurs as a variable. -/
def Mentions (value : Datum) (name : String) : Prop :=
  ∃ source expr, value = .text source ∧ parse source = .ok expr ∧ name ∈ expr.variableNames

theorem not_mentions_of_parse {source : String} {expr : Expr} (hparse : parse source = .ok expr)
    (hname : name ∉ expr.variableNames) : ¬Mentions (.text source) name := by
  rintro ⟨text, other, htext, hother, hmem⟩
  cases htext
  rw [hparse] at hother
  cases hother
  exact hname hmem

/-- Two entries for different names, of which neither mentions the name of the other. -/
structure Apart (entry other : Datum × Datum) : Prop where
  names : ∀ name, entry.1 = .text name → other.1 ≠ .text name
  first : ∀ name, other.1 = .text name → ¬Mentions entry.2 name
  second : ∀ name, entry.1 = .text name → ¬Mentions other.2 name

/-- A constant more does not matter to an expression that does not mention it. -/
theorem agreeOn_layered_put {expr : Expr} (hname : name ∉ expr.variableNames)
    (found : Bindings Float) (x : Float) (inner : Scope Float) :
    Scope.AgreeOn expr (layered (found.put name x) inner) (layered found inner) where
  value title htitle := by
    have hne : title ≠ name := by
      rintro rfl
      exact hname htitle
    rw [layered, layered, Scope.value?_chain, Scope.value?_chain, Scope.value?, Scope.value?,
      Bindings.get?_put_of_ne hne]
  call _ _ _ := rfl

/-- What an entry gives depends on the constants so far by way of its expression alone. -/
theorem entryValue_congr (key : Datum) (origin : String)
    (hvalue : ∀ source expr, value = .text source → parse source = .ok expr →
      expr.evaluate (layered first inner) = expr.evaluate (layered second inner)) :
    entryValue inner origin first key value = entryValue inner origin second key value := by
  cases key with
  | text name =>
      cases value with
      | text source =>
          have hsame : evaluateText source (layered first inner) =
              evaluateText source (layered second inner) := by
            rw [evaluateText, evaluateText]
            cases hparse : parse source with
            | error failure => rfl
            | ok expr =>
                dsimp only
                rw [hvalue source expr rfl hparse]
          rw [entryValue, entryValue, hsame]
      | _ => rfl
  | _ => rfl

theorem entryValue_put (hmentions : ¬Mentions value name) (found : Bindings Float) (x : Float)
    (inner : Scope Float) (origin : String) (key : Datum) :
    entryValue inner origin (found.put name x) key value =
      entryValue inner origin found key value := by
  apply entryValue_congr
  intro source expr hsource hparse
  have hname : name ∉ expr.variableNames :=
    fun hmem => hmentions ⟨source, expr, hsource, hparse, hmem⟩
  have hagree := agreeOn_layered_put hname found x inner
  exact Expr.evaluate_congr hagree.value hagree.call

/-- An entry defines the constant that it is named for. -/
theorem key_of_entryValue (hentry : entryValue inner origin found key value = .ok (name, x)) :
    key = .text name := by
  rcases gives_or_offends (layered found inner) origin key value with
    ⟨title, y, rfl, htitle, hgives⟩ | ⟨error, hoffends⟩
  · rw [entryValue_of_gives htitle hgives] at hentry
    cases hentry
    rfl
  · rw [entryValue_of_offends hoffends] at hentry
    cases hentry

theorem defineAll_congr (hsame : first.Same second) (inner : Scope Float) (origin : String)
    (entries : List (Datum × Datum)) :
    Agree Bindings.Same (defineAll inner origin first entries)
      (defineAll inner origin second entries) := by
  induction entries generalizing first second with
  | nil => exact hsame
  | cons entry later ih =>
      obtain ⟨key, value⟩ := entry
      have hentry : entryValue inner origin first key value =
          entryValue inner origin second key value :=
        entryValue_congr key origin fun _ expr _ _ =>
          (hsame.alike inner).evaluate expr
      rw [defineAll, defineAll, hentry]
      cases entryValue inner origin second key value with
      | error error => rfl
      | ok result => exact ih (hsame.put result.1 result.2)

/-- Behind an entry that gives a value, one that does not mention its name gives what it would
give alone. -/
theorem defineAll_cons_cons (hmentions : ∀ name, entry.1 = .text name → ¬Mentions other.2 name)
    (hentry : entryValue inner origin found entry.1 entry.2 = .ok (name, x))
    (later : List (Datum × Datum)) :
    defineAll inner origin found (entry :: other :: later) =
      (entryValue inner origin found other.1 other.2 >>= fun result =>
        defineAll inner origin ((found.put name x).put result.1 result.2) later) := by
  have hput := entryValue_put (hmentions name (key_of_entryValue hentry)) found x inner origin
  rw [defineAll, hentry]
  dsimp only
  rw [defineAll, hput]
  cases entryValue inner origin found other.1 other.2 with
  | error error => rfl
  | ok result => rfl

/-- Entries that are apart define the same constants in either order, or neither order does. -/
theorem defineAll_swap (hapart : Apart entry other) (inner : Scope Float) (origin : String)
    (found : Bindings Float) (later : List (Datum × Datum)) :
    Matched Bindings.Same (defineAll inner origin found (entry :: other :: later))
      (defineAll inner origin found (other :: entry :: later)) := by
  cases hentry : entryValue inner origin found entry.1 entry.2 with
  | error error =>
      have hleft : defineAll inner origin found (entry :: other :: later) = .error error := by
        rw [defineAll, hentry]
      rw [hleft]
      cases hother : entryValue inner origin found other.1 other.2 with
      | error flaw =>
          rw [defineAll, hother]
          exact .error error flaw
      | ok result =>
          rw [defineAll_cons_cons hapart.first hother, hentry]
          exact .error error error
  | ok result =>
      rw [defineAll_cons_cons hapart.second hentry]
      cases hother : entryValue inner origin found other.1 other.2 with
      | error flaw =>
          rw [defineAll, hother]
          exact .error flaw flaw
      | ok further =>
          rw [defineAll_cons_cons hapart.first hother, hentry]
          have hname : result.1 ≠ further.1 := by
            intro hsame
            apply hapart.names result.1 (key_of_entryValue hentry)
            rw [hsame]
            exact key_of_entryValue hother
          exact (defineAll_congr (Bindings.same_put_put hname found result.2 further.2) inner
            origin later).matched

theorem defineAll_exchange (hapart : Apart entry other) (inner : Scope Float) (origin : String)
    (found : Bindings Float) (before later : List (Datum × Datum)) :
    Matched Bindings.Same (defineAll inner origin found (before ++ entry :: other :: later))
      (defineAll inner origin found (before ++ other :: entry :: later)) := by
  rw [defineAll_append, defineAll_append]
  cases defineAll inner origin found before with
  | error error => exact .error error error
  | ok constants => exact defineAll_swap hapart inner origin constants later

/-- A document with these constants, and with other fields above and below them. -/
def withConstants (above below definitions : List (Datum × Datum)) : Datum :=
  .map (above ++ (.text "constants", .map definitions) :: below)

theorem entry?_withConstants_of_ne {title : String} (htitle : title ≠ "constants")
    (above below definitions others : List (Datum × Datum)) :
    Datum.entry? (above ++ (.text "constants", .map definitions) :: below) title =
      Datum.entry? (above ++ (.text "constants", .map others) :: below) title := by
  have hskip : (Datum.text "constants").sameKey (.text title) = false := by
    rw [Datum.sameKey_text]
    exact beq_false_of_ne htitle.symm
  simp [Datum.entry?, List.find?_append, hskip]

/-- Only the first field for the constants counts. -/
theorem entry?_withConstants (above below definitions : List (Datum × Datum)) :
    Datum.entry? (above ++ (.text "constants", .map definitions) :: below) "constants" =
      (Datum.entry? above "constants").or (some (.map definitions)) := by
  have hfound : (Datum.text "constants").sameKey (.text "constants") = true := by
    rw [Datum.sameKey_text, beq_self_eq_true]
  cases habove : above.find? fun entry => entry.1.sameKey (.text "constants") <;>
    simp [Datum.entry?, List.find?_append, hfound, habove]

theorem constants_exchange (hapart : Apart entry other) (inner : Scope Float) (origin : String)
    (above below before later : List (Datum × Datum)) :
    Matched Bindings.Same
      (constants inner origin (withConstants above below (before ++ entry :: other :: later)))
      (constants inner origin (withConstants above below (before ++ other :: entry :: later))) := by
  rw [withConstants, withConstants, constants, constants]
  rw [entry?_withConstants_of_ne (by decide) above below (before ++ entry :: other :: later)
    (before ++ other :: entry :: later), entry?_withConstants, entry?_withConstants]
  split
  · cases Datum.entry? above "constants" with
    | none => exact defineAll_exchange hapart inner origin Bindings.empty before later
    | some field => exact .refl (fun _ _ => rfl) _
  · exact .error _ _

end Sheet

namespace Store

variable {store : Store} {inner : Ref} {entry other : Datum × Datum}
  {first second : Bindings Float}

/-- The contexts give every name the same meaning, each in its own store, for values of any
kind. -/
def AlikeIn (store after : Store) (context other : Ref) : Prop :=
  ∀ (V : Type) [Elementwise V] [Callable.Carrier V],
    (store.scope context : Scope V).Alike (after.scope other)

theorem alikeIn_add (hstore : store.Closed) (hinner : store.Holds inner)
    (hsame : first.Same second) :
    AlikeIn (store.add ⟨first, Bindings.empty⟩).2 (store.add ⟨second, Bindings.empty⟩).2
      (.chain (.table store.tables.size) inner) (.chain (.table store.tables.size) inner) := by
  intro V _ _
  rw [scope_add_table hstore first hinner, scope_add_table hstore second hinner]
  exact hsame.alike (store.scope inner)

/-- Two adjacent constants of a document that do not mention each other may change places.  The
document is taken in both orders or refused in both, and the two contexts then give every name the
same meaning and every expression the same value. -/
theorem addSheet_exchange (hstore : store.Closed) (hinner : store.Holds inner) (origin : String)
    (above below before later : List (Datum × Datum)) (hapart : Sheet.Apart entry other) :
    (∃ context after further swapped,
      store.addSheet inner origin
        (Sheet.withConstants above below (before ++ entry :: other :: later)) =
          .ok (context, after) ∧
      store.addSheet inner origin
        (Sheet.withConstants above below (before ++ other :: entry :: later)) =
          .ok (further, swapped) ∧
      AlikeIn after swapped context further ∧
      ∀ (V : Type) [Elementwise V] [Callable.Carrier V] (expr : Expr),
        expr.evaluate (after.scope context : Scope V) = expr.evaluate (swapped.scope further)) ∨
    ∃ error flaw,
      store.addSheet inner origin
        (Sheet.withConstants above below (before ++ entry :: other :: later)) = .error error ∧
      store.addSheet inner origin
        (Sheet.withConstants above below (before ++ other :: entry :: later)) = .error flaw := by
  have hmatched :=
    Sheet.constants_exchange hapart (store.scope inner) origin above below before later
  rw [addSheet, addSheet]
  rcases hmatched.ok_or_error with ⟨first, second, hfirst, hsecond, hsame⟩ |
    ⟨error, flaw, herror, hflaw⟩
  · have halike := alikeIn_add hstore hinner hsame
    rw [hfirst, hsecond]
    exact .inl ⟨_, _, _, _, rfl, rfl, halike, fun V _ _ expr => (halike V).evaluate expr⟩
  · rw [herror, hflaw]
    exact .inr ⟨error, flaw, rfl, rfl⟩

/-- A constant of the catalog redefined by its own old value, and one that does not use it. -/
theorem apart_pi_base :
    Sheet.Apart (.text "pi", .text "pi * pi") (.text "base", .text "e") where
  names := by
    rintro name hname hbase
    cases hname
    exact absurd (Datum.text.inj hbase) (by decide)
  first := by
    rintro name hbase
    cases hbase
    exact Sheet.not_mentions_of_parse (show parse "pi * pi" = .ok _ by cbv) (by decide)
  second := by
    rintro name hname
    cases hname
    exact Sheet.not_mentions_of_parse (show parse "e" = .ok _ by cbv) (by decide)

theorem addSheet_exchange_catalog :
    Sheet.Apart (.text "pi", .text "pi * pi") (.text "base", .text "e") ∧
    ∃ context after further swapped,
      empty.addSheet .builtins "sheet" (Sheet.withConstants [] []
        [(.text "pi", .text "pi * pi"), (.text "base", .text "e")]) = .ok (context, after) ∧
      empty.addSheet .builtins "sheet" (Sheet.withConstants [] []
        [(.text "base", .text "e"), (.text "pi", .text "pi * pi")]) = .ok (further, swapped) ∧
      AlikeIn after swapped context further := by
  have hbuiltins : empty.Holds .builtins := trivial
  have hfirst : Sheet.Defines (empty.scope .builtins) [(.text "pi", .text "pi * pi")]
      [("pi", Catalog.pi * Catalog.pi)] :=
    .snoc .nil (by decide) (gives_piSquared rfl)
  have hboth : Sheet.Defines (empty.scope .builtins)
      [(.text "pi", .text "pi * pi"), (.text "base", .text "e")]
      [("pi", Catalog.pi * Catalog.pi), ("base", Catalog.euler)] :=
    .snoc hfirst (by decide)
      (.text (parse_of_isName (by decide)) (evaluate_variable rfl _))
  have hshaped : Sheet.Shaped (Sheet.withConstants [] []
      [(.text "pi", .text "pi * pi"), (.text "base", .text "e")])
      [(.text "pi", .text "pi * pi"), (.text "base", .text "e")] :=
    ⟨_, rfl, by decide, .inl rfl⟩
  obtain ⟨_, _, htaken, _⟩ :=
    addSheet_of_defines closed_empty hbuiltins "sheet" hshaped (by decide) hboth
  refine ⟨apart_pi_base, ?_⟩
  rcases addSheet_exchange closed_empty hbuiltins "sheet" [] [] [] [] apart_pi_base with
    ⟨context, after, further, swapped, hleft, hright, halike, _⟩ | ⟨error, _, herror, _⟩
  · exact ⟨context, after, further, swapped, hleft, hright, halike⟩
  · rw [List.nil_append, htaken] at herror
    cases herror

end Store

end Reckon
