import Reckon.Text.Digit
import Reckon.Source

/-
The text of scalars.  Blanks inside a scalar stay as they are on one line.  Where they hold the
end of a line they are folded: one line end becomes a space, and of several all but the first
stay.  Blanks at the ends of lines do not count.
-/

namespace Reckon.Yaml

/-- Whether the text is at its end, or a blank or the end of a line comes first. -/
def atGap : List Char → Bool
  | [] => true
  | c :: _ => c == ' ' || c == '\t' || c == '\n'

/-- Three dashes or three points, which end a document where they stand at the front of a line. -/
def isMarker : List Char → Bool
  | '-' :: '-' :: '-' :: rest => atGap rest
  | '.' :: '.' :: '.' :: rest => atGap rest
  | _ => false

def fold (blanks : List Char) : List Char :=
  match blanks.count '\n' with
  | 0 => blanks
  | 1 => [' ']
  | breaks + 2 => List.replicate (breaks + 1) '\n'

/-- The column behind blanks that hold the end of a line. -/
def columnBehind (blanks : List Char) : Nat :=
  (blanks.reverse.takeWhile (· != '\n')).length + 1

def isBracket (c : Char) : Bool := c ∈ [',', '[', ']', '\x7b', '\x7d']

/-- Whether a colon in front of this text separates a key from its value. -/
def separates (bracketed : Bool) (rest : List Char) : Bool :=
  atGap rest || bracketed && rest.head?.any isBracket

/-- Whether a plain scalar may begin like this.  Signs that have a meaning may begin it only
where another character follows them. -/
def beginsPlain (bracketed : Bool) : List Char → Bool
  | [] => false
  | c :: rest =>
      if c == '-' || !bracketed && (c == '?' || c == ':') then !atGap rest
      else !atGap [c] && !isBracket c && !"?:#&*!|>'\"%@`".toList.contains c

/-- Whether a plain scalar goes on with this text, behind blanks.  On a further line it must
stand behind the indentation, unless brackets enclose it. -/
def goesOn (bracketed : Bool) (indent : Nat) (blanks : List Char) : List Char → Bool
  | [] => false
  | c :: rest =>
      let isEnd := atGap [c] || c == ':' && separates bracketed rest ||
        bracketed && (c == '?' || isBracket c)
      let isComment := c == '#' && blanks != []
      let column := columnBehind blanks
      let leaves := blanks.contains '\n' &&
        (!bracketed && decide (column ≤ indent) || column == 1 && isMarker (c :: rest))
      !isEnd && !isComment && !leaves

/-- The rest of a plain scalar behind some blanks, and the text that follows the scalar. -/
def plainRest (bracketed : Bool) (indent : Nat) (blanks : List Char) :
    List Char → List Char × List Char
  | [] => ([], blanks)
  | c :: rest =>
      if c = ' ' ∨ c = '\n' then plainRest bracketed indent (blanks ++ [c]) rest
      else if goesOn bracketed indent blanks (c :: rest) then
        let (text, after) := plainRest bracketed indent [] rest
        (fold blanks ++ c :: text, after)
      else ([], blanks ++ c :: rest)

def plain (bracketed : Bool) (indent : Nat) (text : List Char) : List Char × List Char :=
  plainRest bracketed indent [] text

/-- Whether the document would end inside a quoted scalar. -/
def isCutOff (blanks rest : List Char) : Bool :=
  blanks.getLast? == some '\n' && isMarker rest

def within (text : List Char) (found : Option (List Char × List Char)) :
    Option (List Char × List Char) :=
  found.map fun (more, rest) => (text ++ more, rest)

/-- The rest of a scalar in single quotes behind some blanks.  Two quotes stand for one. -/
def singleRest (blanks : List Char) : List Char → Option (List Char × List Char)
  | [] => none
  | '\'' :: '\'' :: rest => within (fold blanks ++ ['\'']) (singleRest [] rest)
  | c :: rest =>
      if c = ' ' ∨ c = '\t' ∨ c = '\n' then singleRest (blanks ++ [c]) rest
      else if isCutOff blanks (c :: rest) then none
      else if c = '\'' then some (fold blanks, rest)
      else within (fold blanks ++ [c]) (singleRest [] rest)

/-- What a character stands for behind a backslash. -/
def escape? (c : Char) : Option Char :=
  [('0', '\x00'), ('a', '\x07'), ('b', '\x08'), ('t', '\t'), ('\t', '\t'), ('n', '\n'),
   ('v', '\x0b'), ('f', '\x0c'), ('r', '\r'), ('e', '\x1b'), (' ', ' '), ('"', '"'),
   ('\\', '\\'), ('/', '/'), ('N', '\u0085'), ('_', '\u00a0'), ('L', '\u2028'),
   ('P', '\u2029')].lookup c

/-- How many digits give the code of a character behind this mark. -/
def codeLength? (c : Char) : Option Nat := [('x', 2), ('u', 4), ('U', 8)].lookup c

def charOfCode? (code : Nat) : Option Char :=
  if Nat.isValidChar code then some (Char.ofNat code) else none

/-- Where in a scalar in double quotes its reader stands: behind some blanks, behind a
backslash, in the code of a character of which some digits are still to come, or behind a line
end that a backslash has taken away, with the blanks since. -/
inductive DoubleState
  | text (blanks : List Char)
  | escape
  | code (left value : Nat)
  | joined (blanks : List Char)
deriving DecidableEq, Repr

/-- The rest of a scalar in double quotes. -/
def doubleRest : DoubleState → List Char → Option (List Char × List Char)
  | _, [] => none
  | .escape, c :: rest =>
      match escape? c, codeLength? c with
      | some plain, _ => within [plain] (doubleRest (.text []) rest)
      | none, some left => doubleRest (.code left 0) rest
      | none, none => if c = '\n' then doubleRest (.joined ['\n']) rest else none
  | .code left value, c :: rest =>
      match digitValue? c, left with
      | some digit, 1 =>
          match charOfCode? (16 * value + digit) with
          | some plain => within [plain] (doubleRest (.text []) rest)
          | none => none
      | some digit, left + 1 => doubleRest (.code left (16 * value + digit)) rest
      | _, _ => none
  | .text blanks, c :: rest =>
      if c = ' ' ∨ c = '\t' ∨ c = '\n' then doubleRest (.text (blanks ++ [c])) rest
      else if isCutOff blanks (c :: rest) then none
      else if c = '"' then some (fold blanks, rest)
      else if c = '\\' then within (fold blanks) (doubleRest .escape rest)
      else within (fold blanks ++ [c]) (doubleRest (.text []) rest)
  | .joined blanks, c :: rest =>
      let kept := List.replicate (blanks.count '\n' - 1) '\n'
      if c = ' ' ∨ c = '\t' ∨ c = '\n' then doubleRest (.joined (blanks ++ [c])) rest
      else if isCutOff blanks (c :: rest) then none
      else if c = '"' then some (kept, rest)
      else if c = '\\' then within kept (doubleRest .escape rest)
      else within (kept ++ [c]) (doubleRest (.text []) rest)

/-- A quoted scalar at the front of a text, and what follows it. -/
def quotedScalar? : List Char → Option (List Char × List Char)
  | '\'' :: rest => singleRest [] rest
  | '"' :: rest => doubleRest (.text []) rest
  | _ => none

/-- Blanks without the end of a line stay. -/
theorem fold_of_not_mem {blanks : List Char} (hblanks : '\n' ∉ blanks) : fold blanks = blanks := by
  simp [fold, List.count_eq_zero.mpr hblanks]

end Reckon.Yaml
