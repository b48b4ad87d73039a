import Columnar.Row.Error

/-! # Leaf values

    A leaf value is converted to the layout of its column: integers and floats
    widen without loss, dates and timestamps become distances from 1970-01-01,
    decimals have to have no more digits than the column.  Nothing else is
    converted.
-/

namespace Columnar

/-- A value as leaf arrays hold it. -/
inductive Scalar where
  | boolean (value : Bool)
  | int8 (value : Int8)
  | int16 (value : Int16)
  | int32 (value : Int32)
  | int64 (value : Int64)
  | float32 (value : Single)
  | float64 (value : Double)
  | utf8 (value : String)
  | binary (value : List UInt8)
  | date32 (days : Int32)
  | timestampMicros (micros : Int64)
  | decimal128 (value : Int)
  deriving Repr, DecidableEq

/-- Can an array of that layout hold the value? -/
def LeafType.accepts : LeafType → Scalar → Bool
  | .boolean, .boolean _ | .int8, .int8 _ | .int16, .int16 _ | .int32, .int32 _
  | .int64, .int64 _ | .float32, .float32 _ | .float64, .float64 _ | .utf8, .utf8 _
  | .binary, .binary _ | .date32, .date32 _ | .timestampMicros, .timestampMicros _
  | .decimal128 _ _, .decimal128 _ => true
  | _, _ => false

/-- The value of a column of that kind, for the column of the given path. -/
def convert (path : Path) (kind : PrimitiveKind) (value : Value) : Except AppendError Scalar :=
  match kind, value with
  | .boolean, .boolean b => .ok (.boolean b)
  | .byte, .byte n => .ok (.int8 n)
  | .short, .byte n => .ok (.int16 n.toInt16)
  | .short, .short n => .ok (.int16 n)
  | .int, .byte n => .ok (.int32 n.toInt32)
  | .int, .short n => .ok (.int32 n.toInt32)
  | .int, .int n => .ok (.int32 n)
  | .long, .byte n => .ok (.int64 n.toInt64)
  | .long, .short n => .ok (.int64 n.toInt64)
  | .long, .int n => .ok (.int64 n.toInt64)
  | .long, .long n => .ok (.int64 n)
  | .float, .float x => .ok (.float32 x)
  | .double, .float x => .ok (.float64 x.toDouble)
  | .double, .double x => .ok (.float64 x)
  | .string, .string s => .ok (.utf8 s)
  | .binary, .binary bytes => .ok (.binary bytes)
  | .date, .date d => .ok (.date32 (Int32.ofInt d.epochDay))
  | .timestamp, .timestamp t => .ok (.timestampMicros (Int64.ofInt t.epochMicros))
  | .decimal precision _, .decimal n =>
    if n.natAbs < decimalLimit precision then .ok (.decimal128 n)
    else .error (.decimalOverflow path n precision)
  | kind, value => .error (.typeMismatch path kind.typeName value.kindName)

end Columnar
