/-
Names bound to values.  The names stand in the order in which they first came; binding a name
again replaces its value and keeps its place.
-/

namespace Reckon

structure Bindings (α : Type) where
  entries : List (String × α)
deriving DecidableEq, Repr

namespace Bindings

variable {α β : Type}

def empty : Bindings α := ⟨[]⟩

def size (bindings : Bindings α) : Nat := bindings.entries.length

def names (bindings : Bindings α) : List String := bindings.entries.map Prod.fst

def lookup (name : String) : List (String × α) → Option α
  | [] => none
  | (other, value) :: rest => if other = name then some value else lookup name rest

def replace (name : String) (value : α) : List (String × α) → List (String × α)
  | [] => [(name, value)]
  | (other, old) :: rest =>
      if other = name then (other, value) :: rest else (other, old) :: replace name value rest

def get? (bindings : Bindings α) (name : String) : Option α := lookup name bindings.entries

def put (bindings : Bindings α) (name : String) (value : α) : Bindings α :=
  ⟨replace name value bindings.entries⟩

def erase (bindings : Bindings α) (name : String) : Bindings α :=
  ⟨bindings.entries.filter fun entry => entry.1 ≠ name⟩

/-- Binds the names one after the other. -/
def ofList (entries : List (String × α)) : Bindings α :=
  entries.foldl (fun bindings entry => bindings.put entry.1 entry.2) empty

def map (f : α → β) (bindings : Bindings α) : Bindings β :=
  ⟨bindings.entries.map fun entry => (entry.1, f entry.2)⟩

/-- The entries by name. -/
def sorted (bindings : Bindings α) : List (String × α) :=
  bindings.entries.mergeSort fun first second => decide (first.1 ≤ second.1)

@[simp] theorem get?_empty (name : String) : (empty : Bindings α).get? name = none := rfl

theorem lookup_replace_self (name : String) (value : α) (entries : List (String × α)) :
    lookup name (replace name value entries) = some value := by
  induction entries with
  | nil => simp [replace, lookup]
  | cons head tail ih =>
      obtain ⟨other, old⟩ := head
      by_cases hname : other = name
      · simp [replace, lookup, hname]
      · simp [replace, lookup, hname, ih]

theorem lookup_replace_of_ne {name other : String} (hname : other ≠ name) (value : α)
    (entries : List (String × α)) :
    lookup other (replace name value entries) = lookup other entries := by
  induction entries with
  | nil => simp [replace, lookup, hname.symm]
  | cons head tail ih =>
      obtain ⟨first, old⟩ := head
      by_cases hfirst : first = name
      · subst hfirst
        simp [replace, lookup, hname.symm]
      · simp [replace, lookup, hfirst, ih]

theorem lookup_filter_self (name : String) (entries : List (String × α)) :
    lookup name (entries.filter fun entry => entry.1 ≠ name) = none := by
  induction entries with
  | nil => rfl
  | cons head tail ih =>
      obtain ⟨other, old⟩ := head
      by_cases hname : other = name
      · simpa [hname] using ih
      · simpa [hname, lookup] using ih

theorem lookup_filter_of_ne {name other : String} (hname : other ≠ name)
    (entries : List (String × α)) :
    lookup other (entries.filter fun entry => entry.1 ≠ name) = lookup other entries := by
  induction entries with
  | nil => rfl
  | cons head tail ih =>
      obtain ⟨first, old⟩ := head
      by_cases hfirst : first = name
      · subst hfirst
        simpa [lookup, hname.symm] using ih
      · by_cases hother : first = other
        · simp [hother, lookup, hname]
        · simpa [hfirst, hother, lookup] using ih

@[simp] theorem get?_put_self (bindings : Bindings α) (name : String) (value : α) :
    (bindings.put name value).get? name = some value :=
  lookup_replace_self name value bindings.entries

theorem get?_put_of_ne {name other : String} (hname : other ≠ name) (bindings : Bindings α)
    (value : α) : (bindings.put name value).get? other = bindings.get? other :=
  lookup_replace_of_ne hname value bindings.entries

@[simp] theorem get?_erase_self (bindings : Bindings α) (name : String) :
    (bindings.erase name).get? name = none :=
  lookup_filter_self name bindings.entries

theorem get?_erase_of_ne {name other : String} (hname : other ≠ name) (bindings : Bindings α) :
    (bindings.erase name).get? other = bindings.get? other :=
  lookup_filter_of_ne hname bindings.entries

@[simp] theorem get?_map (f : α → β) (bindings : Bindings α) (name : String) :
    (bindings.map f).get? name = (bindings.get? name).map f := by
  obtain ⟨entries⟩ := bindings
  induction entries with
  | nil => rfl
  | cons head tail ih =>
      obtain ⟨other, value⟩ := head
      simp only [get?, map, List.map_cons, lookup] at ih ⊢
      split
      · rfl
      · exact ih

end Bindings

end Reckon
