/-
Positions in a source text, and cursors that read it.  Lines and columns count from one, offsets
from zero, and only a line feed begins a new line.
-/

namespace Reckon

structure Location where
  line : Nat
  column : Nat
  offset : Nat
deriving DecidableEq, Repr

namespace Location

def origin : Location := ⟨1, 1, 0⟩

/-- The location behind a character that stands at this one. -/
def next (location : Location) (c : Char) : Location :=
  if c = '\n' then ⟨location.line + 1, 1, location.offset + 1⟩
  else ⟨location.line, location.column + 1, location.offset + 1⟩

/-- The location behind a text that begins at this one. -/
def after (location : Location) (text : List Char) : Location := text.foldl next location

def text (location : Location) : String :=
  toString location.line ++ ":" ++ toString location.column

@[simp] theorem after_nil (location : Location) : location.after [] = location := rfl

@[simp] theorem after_cons (location : Location) (c : Char) (rest : List Char) :
    location.after (c :: rest) = (location.next c).after rest := rfl

@[simp] theorem after_append (location : Location) (first second : List Char) :
    location.after (first ++ second) = (location.after first).after second := by
  simp [after]

theorem next_offset (location : Location) (c : Char) :
    (location.next c).offset = location.offset + 1 := by
  unfold next
  split <;> rfl

theorem after_offset (location : Location) (text : List Char) :
    (location.after text).offset = location.offset + text.length := by
  induction text generalizing location with
  | nil => rfl
  | cons c rest ih =>
      rw [after_cons, ih, next_offset, List.length_cons]
      omega

theorem next_line (location : Location) (c : Char) :
    (location.next c).line = location.line + if c = '\n' then 1 else 0 := by
  unfold next
  split <;> simp

/-- The line number counts the line feeds passed. -/
theorem after_line (location : Location) (text : List Char) :
    (location.after text).line = location.line + text.count '\n' := by
  induction text generalizing location with
  | nil => rfl
  | cons c rest ih =>
      rw [after_cons, ih, next_line, List.count_cons]
      by_cases hc : c = '\n'
      · simp [hc]
        omega
      · simp [hc]

/-- A text without line feeds stays on its line. -/
theorem after_of_not_mem (location : Location) {text : List Char} (htext : '\n' ∉ text) :
    location.after text =
      ⟨location.line, location.column + text.length, location.offset + text.length⟩ := by
  induction text generalizing location with
  | nil => rfl
  | cons c rest ih =>
      simp only [List.mem_cons, not_or] at htext
      have hc : c ≠ '\n' := fun heq => htext.1 heq.symm
      rw [after_cons, ih _ htext.2]
      simp only [next, hc, ↓reduceIte, List.length_cons, Location.mk.injEq, true_and]
      omega

end Location

/-- The text that is still to be read and the location of its first character. -/
structure Cursor where
  rest : List Char
  location : Location
deriving DecidableEq, Repr

namespace Cursor

def ofSource (source : String) : Cursor := ⟨source.toList, Location.origin⟩

/-- The cursor behind a text at the front of the rest. -/
def pass (cursor : Cursor) (text rest : List Char) : Cursor :=
  ⟨rest, cursor.location.after text⟩

/-- The cursor where only this much of the rest is left. -/
def leave (cursor : Cursor) (rest : List Char) : Cursor :=
  cursor.pass (cursor.rest.take (cursor.rest.length - rest.length)) rest

/-- What is passed is what stood in front of the rest. -/
theorem leave_append (text rest : List Char) (location : Location) :
    (Cursor.mk (text ++ rest) location).leave rest = ⟨rest, location.after text⟩ := by
  simp [leave, pass]

end Cursor

/-- The part of the source from one location up to another. -/
structure Span where
  start : Location
  stop : Location
deriving DecidableEq, Repr

def Span.text (span : Span) : String := span.start.text ++ "-" ++ span.stop.text

end Reckon
