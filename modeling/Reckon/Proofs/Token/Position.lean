import Mathlib.Data.List.Induction
import Reckon.Token.Scan

/-
Where a cursor stands.  A cursor that began at the front of a source is given by the text it has
passed: that text and the rest are the source, and the location counts its characters, its line
feeds and the characters behind the last of them.
-/

namespace Reckon

namespace Location

theorem origin_after_offset (passed : List Char) :
    (origin.after passed).offset = passed.length := by
  rw [after_offset]
  exact Nat.zero_add _

theorem origin_after_line (passed : List Char) :
    (origin.after passed).line = 1 + passed.count '\n' :=
  after_line origin passed

/-- The column counts the characters behind the last line feed. -/
theorem origin_after_column (passed : List Char) :
    (origin.after passed).column =
      1 + (passed.reverse.takeWhile fun c => decide (c ≠ '\n')).length := by
  induction passed using List.reverseRecOn with
  | nil => rfl
  | append_singleton passed c ih =>
      rw [after_append, after_cons, after_nil, List.reverse_append, List.reverse_singleton,
        List.singleton_append, next]
      by_cases hc : c = '\n'
      · simp [hc]
      · simp [hc, ih]
        omega

end Location

namespace Cursor

variable {source : String} {cursor : Cursor} {passed text rest : List Char}

/-- The cursor behind a text that stands at the front of a source, with the rest of the source. -/
def behind (passed rest : List Char) : Cursor := ⟨rest, Location.origin.after passed⟩

theorem pass_behind (passed between text rest : List Char) :
    (behind passed between).pass text rest = behind (passed ++ text) rest := by
  rw [behind, behind, pass, Location.after_append]

/-- The cursor stands somewhere in the source. -/
def StandsIn (source : String) (cursor : Cursor) : Prop :=
  ∃ passed rest, passed ++ rest = source.toList ∧ cursor = behind passed rest

theorem standsIn_ofSource (source : String) : (ofSource source).StandsIn source :=
  ⟨[], source.toList, rfl, rfl⟩

theorem StandsIn.pass (hcursor : cursor.StandsIn source) (htext : text ++ rest = cursor.rest) :
    (cursor.pass text rest).StandsIn source := by
  obtain ⟨passed, between, hsource, rfl⟩ := hcursor
  refine ⟨passed ++ text, rest, ?_, pass_behind passed between text rest⟩
  rw [List.append_assoc, htext]
  exact hsource

theorem StandsIn.skipBlanks (hcursor : cursor.StandsIn source) :
    cursor.skipBlanks.StandsIn source :=
  hcursor.pass List.takeWhile_append_dropWhile

/-- Behind every scan, with a token or an error, the cursor stands where the text ends that was
scanned. -/
theorem scan_cursor (cursor : Cursor) :
    cursor.scan.2 = cursor.skipBlanks.pass (scanFront cursor.skipBlanks.rest).2.1
      (scanFront cursor.skipBlanks.rest).2.2 := by
  unfold scan
  dsimp only
  split <;> rfl

theorem StandsIn.scan (hcursor : cursor.StandsIn source) : cursor.scan.2.StandsIn source := by
  rw [scan_cursor]
  exact hcursor.skipBlanks.pass (scanFront_append _)

/-- Line and column of a cursor are those of the text in front of it. -/
theorem StandsIn.location_eq (hcursor : cursor.StandsIn source) :
    cursor.location.offset ≤ source.toList.length ∧
      cursor.rest = source.toList.drop cursor.location.offset ∧
      cursor.location.line = 1 + (source.toList.take cursor.location.offset).count '\n' ∧
      cursor.location.column = 1 + ((source.toList.take cursor.location.offset).reverse.takeWhile
        fun c => decide (c ≠ '\n')).length := by
  obtain ⟨passed, rest, hsource, rfl⟩ := hcursor
  have hoffset : (behind passed rest).location.offset = passed.length :=
    Location.origin_after_offset passed
  rw [hoffset, ← hsource, List.take_left, List.drop_left, List.length_append]
  exact ⟨Nat.le_add_right _ _, rfl, Location.origin_after_line passed,
    Location.origin_after_column passed⟩

end Cursor

end Reckon
