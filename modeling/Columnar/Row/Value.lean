import Columnar.Calendar
import Columnar.Number.Binary
import Columnar.Plan.Basic

/-! # Rows

    A row is known only by what its accessors return.  Reading an accessor
    gives a value or fails; a nested struct value is a row again and is not
    read until its own accessors are.
-/

namespace Columnar

/-- Failure of a row to read one of its fields. -/
structure AccessError where
  message : String
  deriving Repr, DecidableEq

/-- The row has no such accessor. -/
def AccessError.unknown (a : Accessor) : AccessError := ⟨s!"unknown accessor '{a}'"⟩

/-- A value read from a row.  Only `null` is absent; zero and empty values are present.  A decimal
    is given unscaled. -/
inductive Value where
  | null
  | boolean (value : Bool)
  | byte (value : Int8)
  | short (value : Int16)
  | int (value : Int32)
  | long (value : Int64)
  | float (value : Single)
  | double (value : Double)
  | string (value : String)
  | binary (value : List UInt8)
  | date (value : Date)
  | timestamp (value : Timestamp)
  | decimal (value : Int)
  | struct (read : Accessor → Except AccessError Value)
  | list (items : List Value)
  | map (entries : List (Value × Value))

/-- A row or struct value, by what its accessors return. -/
abbrev Record := Accessor → Except AccessError Value

/-- The record with the given fields, each with what reading it gives. -/
def Record.ofFields (fields : List (String × Except AccessError Value)) : Record := fun accessor =>
  match fields.lookup accessor.name with
  | some result => result
  | none => .error (.unknown accessor)

namespace Value

def isNull : Value → Bool
  | .null => true
  | _ => false

/-- The sort of value, as errors name it. -/
def kindName : Value → String
  | .null => "null"
  | .boolean _ => "boolean"
  | .byte _ => "tinyint"
  | .short _ => "smallint"
  | .int _ => "int"
  | .long _ => "bigint"
  | .float _ => "float"
  | .double _ => "double"
  | .string _ => "string"
  | .binary _ => "binary"
  | .date _ => "date"
  | .timestamp _ => "timestamp"
  | .decimal _ => "decimal"
  | .struct _ => "struct"
  | .list _ => "list"
  | .map _ => "map"

end Value

end Columnar
