import Reckon.Yaml.Scalar
import Reckon.Yaml.Tree

/-
Scalars and the collections in brackets.  A key and its colon stand on one line, at most 1024
characters apart, unless a question mark in front says that this is a key.  Fuel bounds how deep
brackets are nested and how many items they hold.
-/

namespace Reckon.Yaml

/-- What is left behind spaces, line ends and comments. -/
def skipText (inComment : Bool) : List Char → List Char
  | [] => []
  | c :: rest =>
      if c = '\n' then skipText false rest
      else if inComment then skipText true rest
      else if c = ' ' then skipText false rest
      else if c = '#' then skipText true rest
      else c :: rest

def skip (cursor : Cursor) : Cursor := cursor.leave (skipText false cursor.rest)

/-- The cursor behind the next character. -/
def step (cursor : Cursor) : Cursor :=
  match cursor.rest with
  | c :: rest => cursor.pass [c] rest
  | [] => cursor

/-- Whether a marker of the document stands at the cursor. -/
def atMarker (cursor : Cursor) : Bool := cursor.location.column == 1 && isMarker cursor.rest

/-- Whether the colon at the cursor can belong to the key that begins at a location. -/
def completes (start : Location) (cursor : Cursor) : Bool :=
  start.line == cursor.location.line && decide (cursor.location.offset ≤ start.offset + 1024)

/-- A quoted or plain scalar at the cursor. -/
def scalar? (bracketed : Bool) (indent : Nat) (cursor : Cursor) : Option (Tree × Cursor) :=
  match cursor.rest with
  | [] => none
  | c :: rest =>
      if c = '\'' ∨ c = '"' then
        (quotedScalar? (c :: rest)).map fun (text, rest) => (.quoted text, cursor.leave rest)
      else if beginsPlain bracketed (c :: rest) && !atMarker cursor then
        let (text, rest) := plain bracketed indent (c :: rest)
        some (.plain text, cursor.leave rest)
      else none

/-- An entry of a collection in brackets: an item, or a key with its value. -/
abbrev FlowEntry := Tree × Option Tree

/-- In a list, a key with its value is a mapping of its own. -/
def FlowEntry.item : FlowEntry → Tree
  | (item, none) => item
  | (key, some value) => .map [(key, value)]

/-- In a mapping, a key may stand alone. -/
def FlowEntry.pair (entry : FlowEntry) : Tree × Tree := (entry.1, entry.2.getD .empty)

/-- Whether a key or an entry ends at the cursor, so that nothing more of it is written. -/
def endsEntry (cursor : Cursor) : Bool :=
  cursor.rest.head?.any (· ∈ [':', ',', ']', '\x7d'])

mutual

/-- A collection in brackets or a scalar at the cursor. -/
def content? : Nat → Bool → Nat → Cursor → Option (Tree × Cursor)
  | 0, _, _, _ => none
  | fuel + 1, bracketed, indent, cursor =>
      match cursor.rest with
      | '[' :: _ => do
          let (entries, cursor) ← entries? fuel ']' (skip (step cursor))
          return (.list (entries.map FlowEntry.item), cursor)
      | '\x7b' :: _ => do
          let (entries, cursor) ← entries? fuel '\x7d' (skip (step cursor))
          return (.map (entries.map FlowEntry.pair), cursor)
      | _ => scalar? bracketed indent cursor

/-- The entries from here to the closing bracket. -/
def entries? : Nat → Char → Cursor → Option (List FlowEntry × Cursor)
  | 0, _, _ => none
  | fuel + 1, closing, cursor =>
      if cursor.rest.head? = some closing then some ([], step cursor)
      else do
        let (entry, behind) ← entry? fuel cursor
        let next := skip behind
        if next.rest.head? = some ',' then
          let (more, behind) ← entries? fuel closing (skip (step next))
          return (entry :: more, behind)
        else if next.rest.head? = some closing then
          return ([entry], step next)
        else none

/-- The entry at the cursor.  Behind a question mark there may be nothing at all. -/
def entry? : Nat → Cursor → Option (FlowEntry × Cursor)
  | 0, _ => none
  | fuel + 1, cursor => do
      let marked := cursor.rest.head? = some '?'
      let start := if marked then skip (step cursor) else cursor
      let (key, behind) ←
        if marked && endsEntry start then some (.empty, start) else content? fuel true 0 start
      let colon := skip behind
      if colon.rest.head? = some ':' then
        if marked || completes start.location colon then
          let (value, behind) ← value? fuel colon
          return ((key, some value), behind)
        else none
      else return ((key, if marked then some .empty else none), colon)

/-- The value behind the colon at the cursor.  It may be left out. -/
def value? : Nat → Cursor → Option (Tree × Cursor)
  | 0, _ => none
  | fuel + 1, cursor =>
      let next := skip (step cursor)
      if endsEntry next && next.rest.head? != some ':' then some (.empty, next)
      else content? fuel true 0 next

end

end Reckon.Yaml
