import Columnar.Json.Printer
import Columnar.Schema.Kind

/-! # Storage types

    The types of the arrays that a batch consists of.  A leaf has the fixed
    layout of its primitive kind; nested types carry named fields.
-/

namespace Columnar

/-- The layout of a leaf array. -/
inductive LeafType where
  | boolean
  | int8
  | int16
  | int32
  | int64
  | float32
  | float64
  | utf8
  | binary
  | date32
  | timestampMicros
  | decimal128 (precision : UInt8) (scale : Int8)
  deriving Repr, DecidableEq

/-- The least number that has more digits than the precision allows. -/
def decimalLimit (precision : UInt8) : Nat := Nat.pow 10 precision.toNat

/-- The layout in which a primitive kind is stored. -/
def PrimitiveKind.storage : PrimitiveKind → LeafType
  | .boolean => .boolean
  | .byte => .int8
  | .short => .int16
  | .int => .int32
  | .long => .int64
  | .float => .float32
  | .double => .float64
  | .string => .utf8
  | .binary => .binary
  | .date => .date32
  | .timestamp => .timestampMicros
  | .decimal precision scale => .decimal128 precision scale

/-- A named part of a nested type. -/
structure FieldOf (α : Type) where
  name : String
  type : α
  nullable : Bool
  deriving Repr

inductive StorageType where
  | leaf (type : LeafType)
  | struct (fields : List (FieldOf StorageType))
  | list (item : FieldOf StorageType)
  | map (entries : FieldOf StorageType)
  deriving Repr

abbrev StorageField := FieldOf StorageType

namespace StorageType

/-- The type of lists of elements of that type. -/
def listOf (element : StorageType) : StorageType :=
  .list ⟨"item", element, true⟩

/-- The entries of a map: keys are never null. -/
def entryFields (key value : StorageType) : List StorageField :=
  [⟨"key", key, false⟩, ⟨"value", value, true⟩]

/-- The type of maps between those types. -/
def mapOf (key value : StorageType) : StorageType :=
  .map ⟨"entries", .struct (entryFields key value), false⟩

/-! ### Equality -/

mutual

def decEq : (a b : StorageType) → Decidable (a = b)
  | .leaf a, .leaf b => if h : a = b then .isTrue (by rw [h]) else .isFalse (by simp [h])
  | .struct as, .struct bs =>
    match decEqFields as bs with
    | .isTrue h => .isTrue (by rw [h])
    | .isFalse h => .isFalse (by simp [h])
  | .list a, .list b =>
    match decEqField a b with
    | .isTrue h => .isTrue (by rw [h])
    | .isFalse h => .isFalse (by simp [h])
  | .map a, .map b =>
    match decEqField a b with
    | .isTrue h => .isTrue (by rw [h])
    | .isFalse h => .isFalse (by simp [h])
  | .leaf _, .struct _ | .leaf _, .list _ | .leaf _, .map _
  | .struct _, .leaf _ | .struct _, .list _ | .struct _, .map _
  | .list _, .leaf _ | .list _, .struct _ | .list _, .map _
  | .map _, .leaf _ | .map _, .struct _ | .map _, .list _ => .isFalse (by simp)

def decEqField : (a b : FieldOf StorageType) → Decidable (a = b)
  | ⟨n, t, u⟩, ⟨n', t', u'⟩ =>
    match decEq t t' with
    | .isTrue ht =>
      if h : n = n' ∧ u = u' then .isTrue (by simp [ht, h]) else .isFalse (by simp; grind)
    | .isFalse ht => .isFalse (by simp [ht])

def decEqFields : (as bs : List (FieldOf StorageType)) → Decidable (as = bs)
  | [], [] => .isTrue rfl
  | a :: as, b :: bs =>
    match decEqField a b, decEqFields as bs with
    | .isTrue h, .isTrue hs => .isTrue (by rw [h, hs])
    | .isFalse h, _ => .isFalse (by simp [h])
    | _, .isFalse hs => .isFalse (by simp [hs])
  | [], _ :: _ | _ :: _, [] => .isFalse (by simp)

end

instance : DecidableEq StorageType := decEq

instance : DecidableEq (FieldOf StorageType) := decEqField

end StorageType

/-! ### Texts -/

def LeafType.text : LeafType → String
  | .boolean => "Boolean"
  | .int8 => "Int8"
  | .int16 => "Int16"
  | .int32 => "Int32"
  | .int64 => "Int64"
  | .float32 => "Float32"
  | .float64 => "Float64"
  | .utf8 => "Utf8"
  | .binary => "Binary"
  | .date32 => "Date32"
  | .timestampMicros => "TimestampMicros"
  | .decimal128 precision scale => s!"Decimal128({precision.toNat},{scale.toInt})"

namespace StorageType

mutual

def text : StorageType → String
  | .leaf type => type.text
  | .struct fields => "Struct<" ++ ",".intercalate (fieldTexts fields) ++ ">"
  | .list item => "List<" ++ fieldText item ++ ">"
  | .map entries => "Map<" ++ fieldText entries ++ ",sorted=false>"

/-- The quoted name, the type, and a mark for whether the field may be null. -/
def fieldText : FieldOf StorageType → String
  | ⟨name, type, nullable⟩ => Json.literal name ++ ":" ++ text type ++ if nullable then "?" else "!"

def fieldTexts : List (FieldOf StorageType) → List String
  | [] => []
  | f :: rest => fieldText f :: fieldTexts rest

end

/-- The text of the fields of a batch. -/
def schemaText (fields : List StorageField) : String :=
  ",".intercalate (fieldTexts fields)

end StorageType

end Columnar
