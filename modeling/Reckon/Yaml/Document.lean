import Reckon.Text.Lines
import Reckon.Text.Ranges
import Reckon.Yaml.Block

/-
Documents of YAML 1.1, without anchors, tags, directives and literal blocks.  A text holds one
document, which a marker may begin and end.
-/

namespace Reckon.Yaml

/-- The characters of which documents are made once their line ends are line feeds. -/
def allowedRanges : Ranges :=
  [(0x9, 0xa), (0x20, 0x7e), (0xa0, 0xd7ff), (0xe000, 0xfffd), (0x10000, 0x10ffff)]

def isAllowed (c : Char) : Bool := allowedRanges.contains c.toNat

/-- The text with each of its line ends written as a line feed. -/
def withLineFeeds (text : List Char) : List Char :=
  (unifyLineEnds text).map fun c => if c.toNat ∈ [0x85, 0x2028, 0x2029] then '\n' else c

def withoutByteOrderMark : List Char → List Char
  | '\ufeff' :: rest => rest
  | text => text

/-- Past the markers that end a document. -/
def skipEnds : Nat → Cursor → Cursor
  | 0, cursor => cursor
  | fuel + 1, cursor =>
      match atMarker (skip cursor), (skip cursor).rest with
      | true, '.' :: _ => skipEnds fuel (step (step (step (skip cursor))))
      | _, _ => skip cursor

/-- The tree of a text.  Between two characters taken the reader goes down at most a few steps, so
eight steps for each character are enough. -/
def tree? (text : List Char) : Option Tree :=
  let start := skip ⟨text, Location.origin⟩
  let fuel := 8 * text.length + 8
  let opened := atMarker start && start.rest.head? = some '-'
  let first := if opened then step (step (step start)) else start
  if !opened && atMarker start then none
  else do
    let (root, behind) ← node? fuel ⟨0, !opened, false⟩ first
    if (skipEnds fuel behind).rest.isEmpty then some root else none

/-- The value of a text. -/
def read (text : String) : Except Error Datum :=
  let characters := withoutByteOrderMark (withLineFeeds text.toList)
  if characters.all isAllowed then
    match tree? characters with
    | some tree => tree.datum
    | none => .error .malformed
  else .error .malformed

end Reckon.Yaml
