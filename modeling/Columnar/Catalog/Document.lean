import Columnar.Catalog.Basic
import Columnar.Document

/-! # Catalogs as documents

    A catalog is written as a table with the members `root` and `types`.  The
    members of a type reference stand in the same table as those of the field
    that has it.  Members that are not given are left out when writing and may
    be `null` when reading; unknown members are ignored, a known member given
    twice is an error.
-/

namespace Columnar

namespace TypeRef

def memberNames : List String :=
  ["kind", "type_name", "element", "key", "value", "average_size", "precision", "scale"]

/-! ### Writing -/

mutual

def toMembers : TypeRef → List (String × Document)
  | ⟨kind, typeName, element, key, value, averageSize, precision, scale⟩ =>
    ("kind", .text kind)
      :: (typeName.map fun s => ("type_name", Document.text s)).toList
      ++ toMember "element" element ++ toMember "key" key ++ toMember "value" value
      ++ (averageSize.map fun n => ("average_size", Document.integer n.toNat)).toList
      ++ (precision.map fun n => ("precision", Document.integer n.toNat)).toList
      ++ (scale.map fun n => ("scale", Document.integer n.toInt)).toList

def toMember (name : String) : Option TypeRef → List (String × Document)
  | none => []
  | some t => [(name, .table (toMembers t))]

end

/-! ### Reading -/

/-- A member of a document, and what it is if it is read as a type reference. -/
structure Reading where
  document : Document
  reference : Option TypeRef

/-- The nested type reference of that name; absent and `null` members count as not given. -/
def nested (name : String) (readings : List (String × Reading)) : Option (Option TypeRef) :=
  match readings.find? (·.1 == name) with
  | none => some none
  | some (_, reading) =>
    match reading.document with
    | .null => some none
    | _ => reading.reference.map some

/-- The type reference with these members. -/
def ofReadings (readings : List (String × Reading)) : Option TypeRef := do
  let members := readings.map fun (name, reading) => (name, reading.document)
  let averageSize ← Document.optional (Document.integerWithin? 0 4294967295) "average_size" members
  let precision ← Document.optional (Document.integerWithin? 0 255) "precision" members
  let scale ← Document.optional (Document.integerWithin? (-128) 127) "scale" members
  return {
    kind := ← Document.required Document.text? "kind" members
    typeName := ← Document.optional Document.text? "type_name" members
    element := ← nested "element" readings
    key := ← nested "key" readings
    value := ← nested "value" readings
    averageSize := averageSize.map fun n => UInt32.ofNat n.toNat
    precision := precision.map fun n => UInt8.ofNat n.toNat
    scale := scale.map Int8.ofInt }

mutual

/-- The type reference that a document holds. -/
def ofDocument : Document → Option TypeRef
  | .table members =>
    if memberNames.all fun n => members.countP (·.1 == n) ≤ 1 then ofReadings (readMembers members)
    else none
  | .list items =>
    if items.length ≤ memberNames.length then ofReadings (memberNames.zip (readItems items))
    else none
  | _ => none

def readMembers : List (String × Document) → List (String × Reading)
  | [] => []
  | (name, d) :: rest => (name, ⟨d, ofDocument d⟩) :: readMembers rest

def readItems : List Document → List Reading
  | [] => []
  | d :: rest => ⟨d, ofDocument d⟩ :: readItems rest

end

end TypeRef

namespace FieldDescriptor

def toDocument (f : FieldDescriptor) : Document :=
  .table (("name", .text f.name)
    :: (f.accessor.map fun s => ("accessor", Document.text s)).toList ++ f.type.toMembers)

/-- The field that a table holds.  All of the table is read, also what is not known. -/
def ofDocument (d : Document) : Option FieldDescriptor :=
  match d with
  | .table members => do
    guard d.readable
    guard (["name", "accessor"].all fun n => members.countP (·.1 == n) ≤ 1)
    return {
      name := ← Document.required Document.text? "name" members
      accessor := ← Document.optional Document.text? "accessor" members
      type := ← TypeRef.ofDocument d }
  | _ => none

end FieldDescriptor

namespace TypeDescription

def toDocument (t : TypeDescription) : Document :=
  .table (("name", .text t.name)
    :: (t.accessors.map fun names => ("accessors", Document.list (names.map .text))).toList
    ++ [("fields", .list (t.fields.map FieldDescriptor.toDocument))])

def ofDocument (surplus : Document.Surplus) (d : Document) : Option TypeDescription := do
  let members ← d.members? surplus ["name", "accessors", "fields"]
  let texts (d : Document) := d.list?.bind fun items => items.mapM Document.text?
  let fields (d : Document) := d.list?.bind fun items => items.mapM FieldDescriptor.ofDocument
  return {
    name := ← Document.required Document.text? "name" members
    accessors := ← Document.optional texts "accessors" members
    fields := ← Document.withDefault [] fields "fields" members }

end TypeDescription

namespace Catalog

def toDocument (c : Catalog) : Document :=
  .table [("root", .text c.root), ("types", .list (c.types.map TypeDescription.toDocument))]

/-- The catalog that a document holds.  A list may stand for the catalog and for each of its
    types. -/
def ofDocument (surplus : Document.Surplus) (d : Document) : Option Catalog := do
  let members ← d.members? surplus ["root", "types"]
  let types (d : Document) :=
    d.list?.bind fun items => items.mapM (TypeDescription.ofDocument surplus)
  return ofList (← Document.required Document.text? "root" members)
    (← Document.withDefault [] types "types" members)

end Catalog

end Columnar
