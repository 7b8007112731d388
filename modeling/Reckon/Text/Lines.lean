/-
The lines of a text.  Besides the line feed, a line also ends at a carriage return (alone or
before a line feed), a vertical tab, a form feed, the three highest separators of ASCII and the
line and paragraph separators of Unicode.  What follows the last break is a line only if it is
not empty.
-/

namespace Reckon

def isLineBreak (c : Char) : Bool :=
  c.toNat ∈ [0xa, 0xb, 0xc, 0xd, 0x1c, 0x1d, 0x1e, 0x85, 0x2028, 0x2029]

def textLines : List Char → List (List Char)
  | [] => []
  | '\r' :: '\n' :: rest => [] :: textLines rest
  | c :: rest =>
      if isLineBreak c then [] :: textLines rest
      else match textLines rest with
        | [] => [[c]]
        | line :: more => (c :: line) :: more

theorem textLines_nil : textLines [] = [] := by rw [textLines]

/-- The line of this number, the first being number one. -/
def lineAt? (text : String) (number : Int) : Option String :=
  if 1 ≤ number then ((textLines text.toList)[number.toNat - 1]?).map String.ofList else none

/-- A text with every line ending, `\r\n` or a lone `\r`, written as `\n`. -/
def unifyLineEnds : List Char → List Char
  | [] => []
  | '\r' :: '\n' :: rest => '\n' :: unifyLineEnds rest
  | c :: rest => (if c = '\r' then '\n' else c) :: unifyLineEnds rest

end Reckon
