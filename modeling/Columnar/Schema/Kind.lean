import Columnar.Text.Blank

/-! # Kinds

    Primitive kinds with their type names, and the kind tags that metadata
    uses.  A tag may be written in any case, with blanks around it, and by an
    alias.
-/

namespace Columnar

/-- Kind of a leaf column. -/
inductive PrimitiveKind where
  | boolean
  | byte
  | short
  | int
  | long
  | float
  | double
  | string
  | binary
  | date
  | timestamp
  | decimal (precision : UInt8) (scale : Int8)
  deriving Repr, DecidableEq

/-- The most digits that a decimal can have. -/
def maxPrecision : UInt8 := 38

/-- The name of a primitive type in type strings and listings. -/
def PrimitiveKind.typeName : PrimitiveKind → String
  | .boolean => "boolean"
  | .byte => "tinyint"
  | .short => "smallint"
  | .int => "int"
  | .long => "bigint"
  | .float => "float"
  | .double => "double"
  | .string => "string"
  | .binary => "binary"
  | .date => "date"
  | .timestamp => "timestamp"
  | .decimal precision scale => s!"decimal({precision.toNat},{scale.toInt})"

/-- What a kind tag asks for, before nested types are looked at. -/
inductive KindTag where
  | scalar (kind : PrimitiveKind)
  | decimal
  | struct
  | list
  | map
  deriving Repr, DecidableEq

namespace KindTag

def label : KindTag → String
  | .scalar _ | .decimal => "primitive"
  | .struct => "struct"
  | .list => "list"
  | .map => "map"

/-- The tags in lower case. -/
def table : List (String × KindTag) :=
  [("boolean", .scalar .boolean), ("bool", .scalar .boolean),
   ("byte", .scalar .byte), ("tinyint", .scalar .byte),
   ("short", .scalar .short), ("smallint", .scalar .short),
   ("int", .scalar .int), ("integer", .scalar .int),
   ("long", .scalar .long), ("bigint", .scalar .long),
   ("float", .scalar .float), ("double", .scalar .double),
   ("string", .scalar .string), ("varchar", .scalar .string),
   ("binary", .scalar .binary), ("date", .scalar .date), ("timestamp", .scalar .timestamp),
   ("decimal", .decimal), ("struct", .struct),
   ("list", .list), ("array", .list), ("map", .map)]

/-- The meaning of a written tag: blanks around it and the case of ASCII letters do not count. -/
def parse? (written : String) : Option KindTag :=
  table.lookup ((Text.trim written).map Char.toLower)

end KindTag

end Columnar
