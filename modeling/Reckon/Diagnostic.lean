import Reckon.Source

/-
What is shown of an error: a header with code and message, the source line with the faulty part
underlined, and hints.
-/

namespace Reckon

/-- A location as it is shown.  It need not lie in any text, so its numbers are arbitrary. -/
structure Place where
  line : Int
  column : Int
  offset : Int
deriving DecidableEq, Repr

/-- What lies from one place up to another. -/
structure Extent where
  start : Place
  stop : Place
deriving DecidableEq, Repr

def Place.text (place : Place) : String := toString place.line ++ ":" ++ toString place.column

def Extent.text (extent : Extent) : String := extent.start.text ++ "-" ++ extent.stop.text

def Location.place (location : Location) : Place :=
  ⟨location.line, location.column, location.offset⟩

def Span.extent (span : Span) : Extent := ⟨span.start.place, span.stop.place⟩

structure Diagnostic where
  code : String
  message : String
  extent : Option Extent
  sourceLine : Option String
  hints : List String
deriving DecidableEq, Repr

namespace Diagnostic

def header (diagnostic : Diagnostic) : String :=
  let place := match diagnostic.extent with
    | some extent => extent.start.text ++ ": "
    | none => ""
  place ++ "error[" ++ diagnostic.code ++ "]: " ++ diagnostic.message

def padLeft (width : Nat) (text : List Char) : List Char :=
  List.replicate (width - text.length) ' ' ++ text

/-- The row that shows the source line behind its number. -/
def sourceRow (line : Int) (sourceLine : String) : String :=
  String.ofList (padLeft 3 (toString line).toList) ++ " | " ++ sourceLine

/-- The column behind the underlined part: an extent over several lines runs to the end of the
line it begins in. -/
def lastColumn (extent : Extent) (sourceLine : String) : Int :=
  if extent.start.line = extent.stop.line then extent.stop.column else sourceLine.length + 1

/-- An empty part is underlined by one mark. -/
def underlineLength (extent : Extent) (sourceLine : String) : Nat :=
  max 1 (lastColumn extent sourceLine - extent.start.column).toNat

def caretRow (extent : Extent) (sourceLine : String) : String :=
  "    | " ++ String.ofList (List.replicate (extent.start.column - 1).toNat ' ' ++
    List.replicate (underlineLength extent sourceLine) '^')

/-- Nothing is shown of the source where the place or the line is not known. -/
def sourceRows (diagnostic : Diagnostic) : List String :=
  match diagnostic.extent, diagnostic.sourceLine with
  | some extent, some line => ["  |", sourceRow extent.start.line line, caretRow extent line]
  | _, _ => []

def hintRows (diagnostic : Diagnostic) : List String :=
  diagnostic.hints.map ("    = hint: " ++ ·)

def joinRows (rows : List String) : String := "\n".intercalate rows

/-- All of the diagnostic. -/
def format (diagnostic : Diagnostic) : String :=
  joinRows (diagnostic.header :: diagnostic.sourceRows ++ diagnostic.hintRows)

/-- The diagnostic without the source line. -/
def short (diagnostic : Diagnostic) : String :=
  joinRows (diagnostic.header :: diagnostic.hintRows)

end Diagnostic

end Reckon
