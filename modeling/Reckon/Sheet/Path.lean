import Reckon.Text.Parts

/-
Paths.  A path is kept without the parts that change nothing: empty ones and single points.  Two
points lead to the directory above, but only from a directory, so they stay.
-/

namespace Reckon

/-- A path from a root, or from the working directory if the root is empty. -/
structure Path where
  root : String
  parts : List String
deriving DecidableEq, Repr

namespace Path

/-- Two slashes in front are a root of their own; any other number is as good as one. -/
def rootOf : List Char → String
  | '/' :: '/' :: '/' :: _ => "/"
  | '/' :: '/' :: _ => "//"
  | '/' :: _ => "/"
  | _ => ""

def ofString (text : String) : Path :=
  ⟨rootOf text.toList, ((partsAt '/' text.toList).map String.ofList).filter
    fun part => part ≠ "" ∧ part ≠ "."⟩

def text (path : Path) : String :=
  match path.root, path.parts with
  | "", [] => "."
  | root, parts => root ++ "/".intercalate parts

end Path

end Reckon
