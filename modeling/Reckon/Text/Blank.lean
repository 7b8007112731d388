import Reckon.Text.Ranges

/-
White space: tab, the line breaks, the separators of ASCII and the spaces of Unicode 14.
-/

namespace Reckon

def blankRanges : Ranges :=
  [(0x9, 0xd), (0x1c, 0x20), (0x85, 0x85), (0xa0, 0xa0), (0x1680, 0x1680), (0x2000, 0x200a),
   (0x2028, 0x2029), (0x202f, 0x202f), (0x205f, 0x205f), (0x3000, 0x3000)]

def isBlank (c : Char) : Bool := blankRanges.contains c.toNat

/-- The text without what fits the test at its two ends. -/
def trimEnds (test : Char → Bool) (text : List Char) : List Char :=
  ((text.dropWhile test).reverse.dropWhile test).reverse

/-- The text without the blanks at its two ends. -/
def trimBlanks (text : List Char) : List Char := trimEnds isBlank text

/-- The four separators of ASCII. -/
def isSeparator (c : Char) : Bool := decide (0x1c ≤ c.toNat) && decide (c.toNat ≤ 0x1f)

end Reckon
