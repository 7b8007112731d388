import Reckon.Datum.Basic
import Reckon.Expr.Eval

/-
Sheets: documents that name constants.  A constant is a number or an expression, and an
expression may use the constants above it and all that is defined elsewhere.
-/

namespace Reckon

/-- Why a document does not define constants. -/
inductive SheetError
  | notMapping (origin : String)
  | unsupportedVersion (version origin : String)
  | constantsNotMapping (origin : String)
  | invalidName (name origin : String)
  | invalidValue (name origin : String)
  | expression (error : EvaluationError)
  | number (error : Datum.ConversionError)
deriving DecidableEq

namespace SheetError

/-- The message of a document of the wrong form. -/
def formMessage? : SheetError → Option String
  | .notMapping origin =>
      some ("Invalid context format in " ++ origin ++ ": expected mapping at root")
  | .unsupportedVersion version origin =>
      some ("Unsupported schema version '" ++ version ++ "' in " ++ origin ++
        ". Expected version 1.x")
  | .constantsNotMapping origin =>
      some ("'constants' in " ++ origin ++ " must be a mapping of name to value")
  | .invalidName name origin => some ("Invalid constant name " ++ name ++ " in " ++ origin)
  | .invalidValue name origin =>
      some ("Constant '" ++ name ++ "' in " ++ origin ++
        " must be a number or an expression string")
  | _ => none

end SheetError

/-- A name begins with a letter or an underscore and goes on with these and with digits. -/
def isName : List Char → Bool
  | [] => false
  | c :: rest => isNameStart c && rest.all isNamePart

namespace Sheet

/-- The scope of an expression in a sheet: the constants so far in front of the inner scope. -/
def layered (constants : Bindings Float) (inner : Scope Float) : Scope Float :=
  .chain (.table ⟨constants, Bindings.empty⟩) inner

/-- The name and the value of one entry. -/
def entryValue (inner : Scope Float) (origin : String) (constants : Bindings Float)
    (key value : Datum) : Except SheetError (String × Float) :=
  match key with
  | .text name =>
      if isName name.toList then
        match value with
        | .text source =>
            match evaluateText source (layered constants inner) with
            | .ok x => .ok (name, x)
            | .error error => .error (.expression error)
        | .int _ | .float _ =>
            match value.toFloat with
            | .ok x => .ok (name, x)
            | .error error => .error (.number error)
        | _ => .error (.invalidValue name origin)
      else .error (.invalidName key.shown origin)
  | _ => .error (.invalidName key.shown origin)

/-- The constants so far and those of the entries, each defined before the next is looked at. -/
def defineAll (inner : Scope Float) (origin : String) (constants : Bindings Float) :
    List (Datum × Datum) → Except SheetError (Bindings Float)
  | [] => .ok constants
  | (key, value) :: rest =>
      match entryValue inner origin constants key value with
      | .ok (name, x) => defineAll inner origin (constants.put name x) rest
      | .error error => .error error

def isSupportedVersion : Datum → Bool
  | .text version => ['1', '.'].isPrefixOf version.toList
  | _ => false

/-- The constants of a document.  Its version is that of the first schema unless it says so
itself, and it may leave out the constants. -/
def constants (inner : Scope Float) (origin : String) (document : Datum) :
    Except SheetError (Bindings Float) :=
  match document with
  | .map entries =>
      let version := (Datum.entry? entries "schema_version").getD (.text "1.0")
      if isSupportedVersion version then
        match (Datum.entry? entries "constants").getD .null with
        | .null => .ok Bindings.empty
        | .map definitions => defineAll inner origin Bindings.empty definitions
        | _ => .error (.constantsNotMapping origin)
      else .error (.unsupportedVersion version.plain origin)
  | _ => .error (.notMapping origin)

/-- The scope of a document: its constants in front of the inner scope. -/
def scope (inner : Scope Float) (origin : String) (document : Datum) :
    Except SheetError (Scope Float) :=
  (constants inner origin document).map fun found => layered found inner

end Sheet

end Reckon
