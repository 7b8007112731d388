/-
The parts of a text between separators.  A text with no separator is one part, and there is one
part more than there are separators.
-/

namespace Reckon

def partsAt (separator : Char) : List Char → List (List Char)
  | [] => [[]]
  | c :: rest =>
      if c = separator then [] :: partsAt separator rest
      else match partsAt separator rest with
        | [] => [[c]]
        | part :: more => (c :: part) :: more

end Reckon
