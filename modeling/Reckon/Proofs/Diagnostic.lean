import Reckon.Diagnostic
import Reckon.Text.Lines

/-
What the text of a diagnostic shows: the line of the source with a row of carets below it, if that
line is known, and nothing of the source otherwise.  The carets begin below the column they are
meant for as long as the line number fits its field.
-/

namespace Reckon

namespace Diagnostic

def rowsBelow : List String → String
  | [] => ""
  | row :: rest => "\n" ++ row ++ rowsBelow rest

theorem joinRows_cons (row : String) (rest : List String) :
    joinRows (row :: rest) = row ++ rowsBelow rest := by
  induction rest generalizing row with
  | nil => simp [joinRows, rowsBelow, String.intercalate_singleton]
  | cons next rest ih =>
      have hjoin : joinRows (row :: next :: rest) = row ++ "\n" ++ joinRows (next :: rest) := by
        simp [joinRows, String.intercalate_cons_cons]
      rw [hjoin, ih, rowsBelow, String.append_assoc, String.append_assoc]

/-- The text has a row with this line of a source behind its number, and carets in the row below. -/
def ShowsLine (text : String) (number : Int) (line : String) : Prop :=
  ∃ above below blanks carets, text =
    above ++ "\n" ++ sourceRow number line ++ "\n" ++ "    | " ++
      String.ofList (List.replicate blanks ' ' ++ List.replicate (carets + 1) '^') ++ below

section

variable {diagnostic : Diagnostic} {extent : Extent} {text line : String} {number : Int}

theorem ShowsLine.bar_mem (hshows : ShowsLine text number line) : '|' ∈ text.toList := by
  obtain ⟨above, below, blanks, carets, rfl⟩ := hshows
  simp

theorem sourceRows_of_line (hextent : diagnostic.extent = some extent)
    (hline : diagnostic.sourceLine = some line) :
    diagnostic.sourceRows =
      ["  |", sourceRow extent.start.line line, caretRow extent line] := by
  rw [sourceRows, hextent, hline]

theorem showsLine_format (hextent : diagnostic.extent = some extent)
    (hline : diagnostic.sourceLine = some line) :
    ShowsLine diagnostic.format extent.start.line line := by
  refine ⟨diagnostic.header ++ "\n" ++ "  |", rowsBelow diagnostic.hintRows,
    (extent.start.column - 1).toNat, underlineLength extent line - 1, ?_⟩
  have hmarks : underlineLength extent line - 1 + 1 = underlineLength extent line :=
    Nat.sub_add_cancel (Nat.le_max_left 1 _)
  rw [format, sourceRows_of_line hextent hline, List.cons_append, joinRows_cons, hmarks]
  simp only [List.cons_append, List.nil_append, rowsBelow, caretRow, String.append_assoc]

theorem header_of_extent (hextent : diagnostic.extent = some extent) :
    diagnostic.header = extent.start.text ++ ": " ++ "error[" ++ diagnostic.code ++ "]: " ++
      diagnostic.message := by
  rw [header, hextent]

theorem short_of_hints (hhints : diagnostic.hints = []) :
    diagnostic.short = diagnostic.header := by
  rw [short, joinRows_cons, hintRows, hhints]
  exact String.append_empty

theorem format_of_none (hline : diagnostic.sourceLine = none) :
    diagnostic.format = diagnostic.short := by
  have hrows : diagnostic.sourceRows = [] := by
    rw [sourceRows, hline]
    cases diagnostic.extent <;> rfl
  rw [format, short, hrows, List.cons_append, List.nil_append]

end

end Diagnostic

/-- A place is shown by digits around a colon. -/
theorem Location.bar_not_mem_text (location : Location) : '|' ∉ location.text.toList := by
  have hdigits : ∀ n : Nat, '|' ∉ (toString n).toList := by
    intro n hmem
    have hdigits : '|' ∈ Nat.toDigits 10 n := by simpa using hmem
    have hdigit := Nat.isDigit_of_mem_toDigits (by decide) (by decide) hdigits
    cases hdigit
  have hline := hdigits location.line
  have hcolumn := hdigits location.column
  rw [Location.text, String.toList_append, String.toList_append, List.mem_append, List.mem_append]
  rintro ((hmem | hmem) | hmem)
  · exact hline hmem
  · simp at hmem
  · exact hcolumn hmem

namespace Diagnostic

/-- What stands in front of a source line in its row. -/
def margin (number : Int) : List Char := padLeft 3 (toString number).toList ++ " | ".toList

section

variable {number : Int} {extent : Extent} {line : String}

theorem toList_sourceRow (number : Int) (line : String) :
    (sourceRow number line).toList = margin number ++ line.toList := by
  simp [sourceRow, margin]

theorem length_margin (number : Int) :
    (margin number).length = max 3 (toString number).length + 3 := by
  simp only [margin, padLeft, List.length_append, List.length_replicate, String.length_toList]
  change 3 - _ + _ + 3 = _
  omega

/-- A field of three characters holds the numbers of up to three digits, and below zero those of up
to two. -/
theorem length_number_le_iff : (toString number).length ≤ 3 ↔ -100 < number ∧ number < 1000 := by
  cases number with
  | ofNat n =>
      change (Nat.repr n).length ≤ 3 ↔ _
      rw [Nat.length_repr_le_iff (by omega)]
      simp only [Int.ofNat_eq_natCast]
      omega
  | negSucc n =>
      have hsigned : (toString (Int.negSucc n)).length = (Nat.repr (n + 1)).length + 1 := by
        change ("-" ++ Nat.repr (n + 1)).length = _
        rw [String.length_append, Nat.add_comm]
        rfl
      have hdigits := Nat.length_repr_le_iff (n := n + 1) (k := 2) (by omega)
      rw [hsigned]
      omega

theorem toList_caretRow (extent : Extent) (line : String) :
    (caretRow extent line).toList =
      ("    | ".toList ++ List.replicate (extent.start.column - 1).toNat ' ') ++
        List.replicate (underlineLength extent line) '^' := by
  simp [caretRow]

theorem underlineLength_pos (extent : Extent) (line : String) : 0 < underlineLength extent line :=
  Nat.le_max_left 1 _

/-- Within one line the marks are as many as there are columns, and one if there are none. -/
theorem underlineLength_of_single (hsingle : extent.start.line = extent.stop.line) :
    (underlineLength extent line : Int) = max 1 (extent.stop.column - extent.start.column) := by
  rw [underlineLength, lastColumn, if_pos hsingle]
  omega

theorem count_caretRow (extent : Extent) (line : String) :
    (caretRow extent line).toList.count '^' = underlineLength extent line := by
  have hblanks : (List.replicate (extent.start.column - 1).toNat ' ').count '^' = 0 := by
    apply List.count_eq_zero.mpr
    intro hmem
    cases List.eq_of_mem_replicate hmem
  rw [toList_caretRow, List.count_append, List.count_append, hblanks, List.count_replicate_self]
  exact Nat.zero_add _

/-- The first mark stands behind the bar, a blank and the columns in front of it. -/
theorem idxOf_caretRow (extent : Extent) (line : String) :
    (caretRow extent line).toList.idxOf '^' = 6 + (extent.start.column - 1).toNat := by
  have hbefore : '^' ∉ "    | ".toList ++ List.replicate (extent.start.column - 1).toNat ' ' := by
    intro hmem
    rcases List.mem_append.mp hmem with hmem | hmem
    · revert hmem
      decide
    · cases List.eq_of_mem_replicate hmem
  obtain ⟨more, hmarks⟩ := Nat.exists_eq_add_of_lt (underlineLength_pos extent line)
  rw [toList_caretRow, hmarks, Nat.zero_add, List.replicate_succ, List.idxOf_append,
    if_neg hbefore, List.idxOf_cons_self, Nat.zero_add, List.length_append, List.length_replicate]
  rfl

theorem isLineBreak_of_isDigit {c : Char} (hc : c.isDigit = true) : isLineBreak c = false := by
  have hcode : 48 ≤ c.toNat ∧ c.toNat ≤ 57 := by
    simpa [Char.isDigit, UInt32.le_iff_toNat_le] using hc
  simp only [isLineBreak, List.mem_cons, List.not_mem_nil, or_false, decide_eq_false_iff_not]
  omega

theorem isLineBreak_of_mem_number {c : Char} (hc : c ∈ (toString number).toList) :
    isLineBreak c = false := by
  have hdigits : ∀ n : Nat, c ∈ (Nat.repr n).toList → isLineBreak c = false := by
    intro n hmem
    rw [Nat.toList_repr] at hmem
    exact isLineBreak_of_isDigit (Nat.isDigit_of_mem_toDigits (by decide) (by decide) hmem)
  cases number with
  | ofNat n => exact hdigits n hc
  | negSucc n =>
      change c ∈ ("-" ++ Nat.repr (n + 1)).toList at hc
      rw [String.toList_append, List.mem_append] at hc
      rcases hc with hc | hc
      · rw [List.mem_singleton.mp hc]
        rfl
      · exact hdigits (n + 1) hc

theorem isLineBreak_of_mem_margin {c : Char} (hc : c ∈ margin number) : isLineBreak c = false := by
  rw [margin, padLeft, List.append_assoc, List.mem_append, List.mem_append] at hc
  rcases hc with hc | hc | hc
  · rw [List.eq_of_mem_replicate hc]
    rfl
  · exact isLineBreak_of_mem_number hc
  · have hbar : (" | ".toList.all fun c => !isLineBreak c) = true := by decide
    simpa using List.all_eq_true.mp hbar c hc

theorem isLineBreak_of_mem_caretRow {c : Char} (hc : c ∈ (caretRow extent line).toList) :
    isLineBreak c = false := by
  rw [toList_caretRow, List.mem_append, List.mem_append] at hc
  rcases hc with (hc | hc) | hc
  · have hbar : ("    | ".toList.all fun c => !isLineBreak c) = true := by decide
    simpa using List.all_eq_true.mp hbar c hc
  · rw [List.eq_of_mem_replicate hc]
    rfl
  · rw [List.eq_of_mem_replicate hc]
    rfl

/-- In front of the hints stand the source line and its marks, one row each. -/
theorem format_eq_rows {diagnostic : Diagnostic} (hextent : diagnostic.extent = some extent)
    (hline : diagnostic.sourceLine = some line) :
    diagnostic.format = joinRows ([diagnostic.header, "  |"] ++
      sourceRow extent.start.line line :: caretRow extent line :: diagnostic.hintRows) := by
  rw [format, sourceRows_of_line hextent hline]
  rfl

/-- The last two rows in front of the hints are the source line behind its margin, and marks.  There
are as many marks as the part has columns, and the first of them stands as far left of that part as
the line number has characters beyond three.  So it stands below it for all numbers that fit the
field of three characters, and for no others. -/
theorem carets_below_line (diagnostic : Diagnostic) (hextent : diagnostic.extent = some extent)
    (hline : diagnostic.sourceLine = some line)
    (hsingle : extent.start.line = extent.stop.line) (hcolumn : 1 ≤ extent.start.column)
    (hbreaks : ∀ c ∈ line.toList, isLineBreak c = false) :
    ∃ above row marks,
      diagnostic.format = joinRows (above ++ row :: marks :: diagnostic.hintRows) ∧
      row.toList = margin extent.start.line ++ line.toList ∧
      (∀ c ∈ row.toList ++ marks.toList, isLineBreak c = false) ∧
      (marks.toList.count '^' : Int) = max 1 (extent.stop.column - extent.start.column) ∧
      (marks.toList.idxOf '^' : Int) + ((toString extent.start.line).length - 3 : Nat) =
        (margin extent.start.line).length + (extent.start.column - 1) ∧
      ((marks.toList.idxOf '^' : Int) =
          (margin extent.start.line).length + (extent.start.column - 1) ↔
        -100 < extent.start.line ∧ extent.start.line < 1000) := by
  have hfits : (toString extent.start.line).length ≤ 3 ↔
      -100 < extent.start.line ∧ extent.start.line < 1000 := length_number_le_iff
  refine ⟨_, _, _, format_eq_rows hextent hline, toList_sourceRow _ _, ?_, ?_, ?_, ?_⟩
  · intro c hc
    rw [toList_sourceRow, List.mem_append, List.mem_append] at hc
    rcases hc with (hc | hc) | hc
    · exact isLineBreak_of_mem_margin hc
    · exact hbreaks c hc
    · exact isLineBreak_of_mem_caretRow hc
  · rw [count_caretRow, underlineLength_of_single hsingle]
  · rw [idxOf_caretRow, length_margin]
    omega
  · rw [idxOf_caretRow, length_margin, ← hfits]
    omega

/-- An unknown character in the fifth column of a line. -/
def strayDollar (number : Int) : Diagnostic :=
  ⟨"E001", "unexpected character '$' at offset 4", some ⟨⟨number, 5, 4⟩, ⟨number, 6, 5⟩⟩,
    some "1 + $x", []⟩

theorem carets_below_line_lastNumber : ∃ above row marks,
    (strayDollar 999).format = joinRows (above ++ row :: marks :: (strayDollar 999).hintRows) ∧
    row.toList = margin 999 ++ "1 + $x".toList ∧ marks.toList.count '^' = 1 ∧
    (marks.toList.idxOf '^' : Int) = (margin 999).length + 4 := by
  have hbreaks : ∀ c ∈ "1 + $x".toList, isLineBreak c = false := by
    have hplain : ("1 + $x".toList.all fun c => !isLineBreak c) = true := by decide
    intro c hc
    simpa using List.all_eq_true.mp hplain c hc
  obtain ⟨above, row, marks, hformat, hrow, -, hcount, -, hbelow⟩ :=
    carets_below_line (strayDollar 999) rfl rfl rfl (by decide) hbreaks
  exact ⟨above, row, marks, hformat, hrow, Int.ofNat.inj hcount, hbelow.mpr (by decide)⟩

/-- The thousandth line is shown one place further to the right than its mark. -/
theorem carets_beside_line :
    (strayDollar 1000).format = joinRows
      ["1000:5: error[E001]: unexpected character '$' at offset 4", "  |",
        "1000 | 1 + $x",
        "    |     ^"] ∧
    "1000 | 1 + $x".toList.idxOf '$' = 11 ∧ "    |     ^".toList.idxOf '^' = 10 := by
  refine ⟨?_, by decide, by decide⟩
  decide +kernel

end

end Diagnostic

end Reckon
