import Columnar.Path

/-! # Schema errors

    The ways in which metadata can be malformed.
-/

namespace Columnar

inductive SchemaError where
  | unknownRootType (typeName : String)
  | unknownKind (path : Path) (kind : String)
  /-- A list without element type, or a map without key or value type. -/
  | missingChildType (path : Path) (kind role : String)
  | missingTypeName (path : Path)
  | undefinedType (path : Path) (typeName : String)
  /-- A type that is met again while it is being expanded, with the types on the way. -/
  | cycle (path : Path) (types : List String)
  | duplicateField (typeName field : String)
  | invalidAverageSize (path : Path)
  | unexpectedAverageSize (path : Path) (kind : String)
  | invalidDecimal (path : Path) (precision : UInt8) (scale : Int8)
  deriving Repr, DecidableEq

def SchemaError.message : SchemaError → String
  | .unknownRootType t => s!"root type '{t}' is not described by the metadata provider"
  | .unknownKind path kind => s!"unknown field kind '{kind}' at {path}"
  | .missingChildType path kind role =>
    s!"{kind} field {path} is missing its required {role} type"
  | .missingTypeName path => s!"struct field {path} does not name its struct type"
  | .undefinedType path t => s!"field {path} references undefined type '{t}'"
  | .cycle path types => s!"cyclic type metadata at {path}: " ++ " -> ".intercalate types
  | .duplicateField t field => s!"type '{t}' declares field '{field}' more than once"
  | .invalidAverageSize path =>
    s!"list field {path} has invalid average_size 0, expected a positive integer"
  | .unexpectedAverageSize path kind =>
    s!"average_size is only valid on list fields, found it on {kind} field {path}"
  | .invalidDecimal path precision scale =>
    s!"decimal field {path} has invalid precision/scale ({precision.toNat}, {scale.toInt})"

end Columnar
