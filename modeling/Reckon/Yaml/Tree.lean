import Reckon.Yaml.Plain

/-
Documents by their form: scalars, lists and mappings, with every scalar still as it is written.  A
mapping takes over the entries of the mappings behind a merging key; they stand in front of its
own.
-/

namespace Reckon.Yaml

inductive Tree
  | plain (text : List Char)
  | quoted (text : List Char)
  | list (items : List Tree)
  | map (entries : List (Tree × Tree))
deriving Inhabited

/-- What is read of an entry. -/
abbrev EntryReading := Reading (Datum × Datum)

/-- What is read of the entries of a mapping: those taken over from others and its own. -/
structure MapReading where
  merged : List EntryReading
  own : List EntryReading

namespace MapReading

/-- All entries, the ones taken over in front. -/
def entries (readings : MapReading) : List EntryReading := readings.merged ++ readings.own

def read (readings : MapReading) : Reading Datum :=
  (Reading.all readings.entries).map Datum.ofEntries

theorem entries_of_own (own : List EntryReading) : (MapReading.mk [] own).entries = own := rfl

end MapReading

namespace Tree

/-- What stands where nothing is written. -/
def empty : Tree := .plain []

/-- Whether the tree is the key behind which stands what a mapping takes over. -/
def isMerging : Tree → Bool
  | .plain text => text == ['<', '<']
  | _ => false

/-- What is read of a key.  Only a scalar can be one. -/
def key : Tree → Reading Datum
  | .plain text => Reading.here (Plain.resolveKey text)
  | .quoted text => .ok (.text (String.ofList text))
  | .list _ => Reading.here (.error .malformed)
  | .map _ => Reading.here (.error .malformed)

mutual

/-- What is read of a tree.  Quoted scalars are always texts. -/
def read : Tree → Reading Datum
  | .plain text => Reading.here (Plain.resolve text)
  | .quoted text => .ok (.text (String.ofList text))
  | .list items => Reading.inside ((Reading.all (readItems items)).map .list)
  | .map entries =>
      Reading.inside <|
        match readEntries entries with
        | some readings => readings.read
        | none => Reading.here (.error .malformed)

def readItems : List Tree → List (Reading Datum)
  | [] => []
  | item :: rest => item.read :: readItems rest

/-- What is read of the entries of a mapping, unless one merges something else than mappings. -/
def readEntries : List (Tree × Tree) → Option MapReading
  | [] => some ⟨[], []⟩
  | (key, value) :: rest => do
      if key.isMerging then
        let first ← value.readMerged
        let ⟨merged, own⟩ ← readEntries rest
        return ⟨first ++ merged, own⟩
      else
        let ⟨merged, own⟩ ← readEntries rest
        return ⟨merged, Reading.both key.key value.read :: own⟩

/-- The entries that a mapping takes over from a tree: those of a mapping, or those of all the
mappings of a list, the last one first. -/
def readMerged : Tree → Option (List EntryReading)
  | .map entries => (readEntries entries).map MapReading.entries
  | .list items => readAllMerged items
  | _ => none

def readAllMerged : List Tree → Option (List EntryReading)
  | [] => some []
  | .map entries :: rest => do
      let first ← readEntries entries
      return (← readAllMerged rest) ++ first.entries
  | _ :: _ => none

end

/-- The value of a document. -/
def datum (tree : Tree) : Except Error Datum := tree.read.mapError Flaw.error

end Tree

end Reckon.Yaml
