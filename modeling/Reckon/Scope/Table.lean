import Reckon.Scope.Catalog

/-
Tables of constants and functions.  A name may stand for a constant and for a function at once.
-/

namespace Reckon

/-- `ι` says how the functions of the table are carried out. -/
structure Table (ι : Type) where
  constants : Bindings Float
  functions : Bindings (Function ι)

namespace Table

variable {ι κ : Type}

def empty : Table ι := ⟨Bindings.empty, Bindings.empty⟩

/-- A table that starts with the built-in constants and functions. -/
def ofCatalog (implement : Builtin → ι) : Table ι where
  constants := Catalog.constants
  functions := Catalog.functions.map fun builtin =>
    ⟨builtin.name, builtin.meaning.arity, implement builtin, builtin.doc⟩

def withConstant (table : Table ι) (name : String) (value : Float) : Table ι :=
  { table with constants := table.constants.put name value }

def withFunction (table : Table ι) (function : Function ι) : Table ι :=
  { table with functions := table.functions.put function.name function }

/-- The table without the constant and the function of this name. -/
def without (table : Table ι) (name : String) : Table ι :=
  ⟨table.constants.erase name, table.functions.erase name⟩

def map (f : ι → κ) (table : Table ι) : Table κ :=
  ⟨table.constants, table.functions.map (Function.map f)⟩

def text (table : Table ι) : String :=
  "Context(" ++ toString table.constants.size ++ " constants, " ++
    toString table.functions.size ++ " functions)"

end Table

end Reckon
