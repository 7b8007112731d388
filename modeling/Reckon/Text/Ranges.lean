/-
Sets of characters as closed ranges of code points, in ascending order.  A lookup stops at the
first range that begins after the code point it asks for.
-/

namespace Reckon

/-- Closed ranges of code points. -/
abbrev Ranges := List (Nat × Nat)

/-- Every range ends where it begins or later, and before the next one begins. -/
def Ranges.Ascending : Ranges → Prop
  | [] => True
  | [range] => range.1 ≤ range.2
  | range :: next :: rest =>
      range.1 ≤ range.2 ∧ range.2 < next.1 ∧ Ranges.Ascending (next :: rest)

def Ranges.contains : Ranges → Nat → Bool
  | [], _ => false
  | (first, last) :: rest, code =>
      if code < first then false
      else if code ≤ last then true
      else Ranges.contains rest code

/-- What a lookup finds lies in one of the ranges, in whatever order they stand. -/
theorem Ranges.mem_of_contains {ranges : Ranges} {code : Nat}
    (hcode : ranges.contains code = true) :
    ∃ range ∈ ranges, range.1 ≤ code ∧ code ≤ range.2 := by
  induction ranges with
  | nil => simp [Ranges.contains] at hcode
  | cons head tail ih =>
      obtain ⟨first, last⟩ := head
      simp only [Ranges.contains] at hcode
      split at hcode
      · exact absurd hcode (by simp)
      · rename_i hfirst
        split at hcode
        · rename_i hlast
          exact ⟨(first, last), List.mem_cons_self, Nat.le_of_not_lt hfirst, hlast⟩
        · obtain ⟨range, hmem, hbounds⟩ := ih hcode
          exact ⟨range, List.mem_cons_of_mem _ hmem, hbounds⟩

end Reckon
