import Reckon.Yaml.Flow

/-
Collections by indentation.  A node belongs to the collection around it if it stands behind its
column; the items of a list may also stand at the column of the key whose value the list is.  A
key or an item begins a line, or follows the dash of an item.  A question mark may say that a key
follows, whose colon then begins a line.
-/

namespace Reckon.Yaml

/-- Whether the dash of an item stands at the cursor. -/
def atItem (cursor : Cursor) : Bool :=
  match cursor.rest with
  | '-' :: rest => atGap rest && !atMarker cursor
  | _ => false

/-- Whether a mark that needs a gap behind it stands at the cursor: the colon behind a key or the
question mark in front of one. -/
def atMark (mark : Char) (cursor : Cursor) : Bool :=
  match cursor.rest with
  | c :: rest => c == mark && atGap rest
  | [] => false

/-- Whether the document ends at the cursor. -/
def atEnd (cursor : Cursor) : Bool := cursor.rest.isEmpty || atMarker cursor

/-- Where a node stands: behind which column, whether it may be a key or an item, and whether a
list may also stand at that column. -/
structure Place where
  indent : Nat
  begins : Bool
  listAtIndent : Bool

/-- What follows an entry of a collection at a column: nothing more of it, or another one. -/
inductive Following
  | ends
  | goesOn (cursor : Cursor)
  | misplaced

/-- Looks behind an entry.  What follows must begin a line. -/
def following (column : Nat) (cursor : Cursor) : Following :=
  let next := skip cursor
  if atEnd next then .ends
  else if next.location.line = cursor.location.line then .misplaced
  else if next.location.column < column then .ends
  else if next.location.column = column then .goesOn next
  else .misplaced

mutual

/-- The node at a place.  Nothing may stand there. -/
def node? : Nat → Place → Cursor → Option (Tree × Cursor)
  | 0, _, _ => none
  | fuel + 1, place, cursor =>
      let next := skip cursor
      let begins := place.begins || decide (cursor.location.line < next.location.line)
      let column := next.location.column
      if atEnd next then some (.empty, cursor)
      else if column ≤ place.indent then
        if place.listAtIndent && column == place.indent && begins && atItem next then
          list? fuel true column next
        else some (.empty, cursor)
      else if atItem next then
        if begins then list? fuel false column next else none
      else if atMark '?' next then
        if begins then mapping? fuel column next else none
      else do
        let (content, behind) ← content? fuel false place.indent next
        let colon := skip behind
        if atMark ':' colon && behind.location.line == colon.location.line then
          if begins then mapping? fuel column next else none
        else return (content, behind)

/-- The list whose first item is at the cursor.  At the column of a key, a list also ends where
the next key begins. -/
def list? : Nat → Bool → Nat → Cursor → Option (Tree × Cursor)
  | 0, _, _, _ => none
  | fuel + 1, atKey, column, cursor => do
      let (item, behind) ← node? fuel ⟨column, true, false⟩ (step cursor)
      match following column behind with
      | .misplaced => none
      | .ends => return (.list [item], behind)
      | .goesOn next =>
          if atItem next then
            match ← list? fuel atKey column next with
            | (.list more, behind) => return (.list (item :: more), behind)
            | _ => none
          else if atKey then return (.list [item], behind)
          else none

/-- The mapping whose first key is at the cursor. -/
def mapping? : Nat → Nat → Cursor → Option (Tree × Cursor)
  | 0, _, _ => none
  | fuel + 1, column, cursor => do
      let (pair, behind) ← pair? fuel column cursor
      match following column behind with
      | .misplaced => none
      | .ends => return (.map [pair], behind)
      | .goesOn next =>
          match ← mapping? fuel column next with
          | (.map more, behind) => return (.map (pair :: more), behind)
          | _ => none

/-- The key at the cursor and its value.  Only behind a question mark can the colon be left out. -/
def pair? : Nat → Nat → Cursor → Option ((Tree × Tree) × Cursor)
  | 0, _, _ => none
  | fuel + 1, column, cursor =>
      if atMark '?' cursor then do
        let (key, behind) ← node? fuel ⟨column, true, true⟩ (step cursor)
        match following column behind with
        | .misplaced => none
        | .ends => return ((key, .empty), behind)
        | .goesOn next =>
            if atMark ':' next then
              let (value, behind) ← node? fuel ⟨column, true, true⟩ (step next)
              return ((key, value), behind)
            else return ((key, .empty), behind)
      else do
        let (key, behind) ← content? fuel false column cursor
        let colon := skip behind
        if atMark ':' colon && completes cursor.location colon then
          let (value, behind) ← node? fuel ⟨column, false, true⟩ (step colon)
          return ((key, value), behind)
        else none

end

end Reckon.Yaml
