import Reckon.Scope.Store
import Reckon.Sheet.Path
import Reckon.Text.Blank

/-
Loading the constants of a file.  The file is given by a path, or else by a setting; where
neither is given there is nothing to load and the context stays as it is.  What a path leads to
and how the content of a file is read as a document is left to the surroundings.
-/

namespace Reckon

/-- The files there are and the reader of their contents, with the errors of both. -/
structure Surroundings (ε : Type) where
  /-- The path with the home of a user written out. -/
  expand : Path → Path
  isThere : Path → Bool
  content : Path → Except ε String
  read : String → Except ε Datum

/-- Why a file is not loaded. -/
inductive LoadError (ε : Type)
  | notFound (path : String)
  | outside (error : ε)
  | sheet (error : SheetError)
deriving DecidableEq

variable {ε : Type}

def LoadError.notFoundMessage (path : String) : String := "Context file not found: " ++ path

namespace Sheet

/-- The path of the file to load.  Blanks around a setting do not count, and a setting of blanks
alone is none. -/
def path? (given setting : Option String) : Option Path :=
  match given with
  | some path => some (Path.ofString path)
  | none =>
      match trimBlanks (setting.getD "").toList with
      | [] => none
      | trimmed => some (Path.ofString (String.ofList trimmed))

/-- A file without a value defines nothing. -/
def ofValue : Datum → Datum
  | .null => .map []
  | document => document

/-- The document of a file. -/
def document (surroundings : Surroundings ε) (path : Path) : Except (LoadError ε) Datum :=
  if surroundings.isThere path then
    match surroundings.content path with
    | .ok text => (surroundings.read text).mapError .outside |>.map ofValue
    | .error error => .error (.outside error)
  else .error (.notFound path.text)

end Sheet

/-- A context with the constants of a file before it, if there is a file to load. -/
def Store.load (store : Store) (inner : Ref) (surroundings : Surroundings ε)
    (given setting : Option String) : Except (LoadError ε) (Ref × Store) :=
  match (Sheet.path? given setting).map surroundings.expand with
  | none => .ok (inner, store)
  | some path =>
      match Sheet.document surroundings path with
      | .error error => .error error
      | .ok document => (store.addSheet inner path.text document).mapError .sheet

end Reckon
