import Columnar.Row.Value

/-! # Append errors

    Why a row was not appended.
-/

namespace Columnar

inductive AppendError where
  /-- An accessor failed. -/
  | access (path : Path) (source : AccessError)
  | typeMismatch (path : Path) (expected actual : String)
  | nullMapKey (path : Path)
  | decimalOverflow (path : Path) (value : Int) (precision : UInt8)
  | capacityExceeded (path : Path) (limit : Nat)
  /-- The vector of that number does not take what is written to the column. -/
  | vectorMismatch (column : ColumnId) (path : Path)
  deriving Repr, DecidableEq

def AppendError.message : AppendError → String
  | .access path source => s!"accessor failed for {path}: {source.message}"
  | .typeMismatch path expected actual =>
    s!"value for {path} does not match column type: expected {expected}, got {actual}"
  | .nullMapKey path => s!"map {path} has a null key"
  | .decimalOverflow path value precision =>
    s!"decimal value {value} for {path} exceeds precision {precision.toNat}"
  | .capacityExceeded path limit =>
    s!"list {path} would exceed {limit} buffered elements; finish the batch first"
  | .vectorMismatch column path =>
    s!"column vector {column} does not accept the staged value for {path}"

end Columnar
