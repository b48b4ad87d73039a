import Columnar.Batch.Basic

/-! # Assembling batches

    The vectors of a batch are drained into arrays, bottom up, and each array
    is checked to be well formed.  An array knows its type from what it is
    made of; the batch as a whole is checked against the schema of its
    specification.
-/

namespace Columnar

/-- The finished content of a column. -/
inductive ColumnArray where
  | leaf (type : LeafType) (slots : Array (Option Scalar))
  | struct (validity : Array Bool) (fields : List (String × ColumnArray))
  | list (validity : Array Bool) (offsets : Array Nat) (element : ColumnArray)
  | map (validity : Array Bool) (offsets : Array Nat) (key value : ColumnArray)
  deriving Repr

namespace ColumnArray

mutual

def type : ColumnArray → StorageType
  | .leaf type _ => .leaf type
  | .struct _ fields => .struct (fieldTypes fields)
  | .list _ _ element => .listOf (type element)
  | .map _ _ key value => .mapOf (type key) (type value)

def fieldTypes : List (String × ColumnArray) → List StorageField
  | [] => []
  | (name, a) :: rest => ⟨name, type a, true⟩ :: fieldTypes rest

end

/-- The number of slots. -/
def size : ColumnArray → Nat
  | .leaf _ slots => slots.size
  | .struct validity _ | .list validity _ _ | .map validity _ _ _ => validity.size

/-- Which slots are present. -/
def validity : ColumnArray → Array Bool
  | .leaf _ slots => slots.map Option.isSome
  | .struct validity _ | .list validity _ _ | .map validity _ _ _ => validity

end ColumnArray

/-! ### Errors -/

/-- Why vectors could not be made, or could not be assembled into a batch. -/
inductive AssemblyError where
  | unsupportedDecimal (precision : UInt8) (scale : Int8)
  | noVector (column : ColumnId) (name : String)
  /-- A leaf column whose vector is that of a struct, list or map. -/
  | nestedVector (name : String)
  /-- Fields of a struct, or keys and values of a map, that differ in length. -/
  | fieldLength
  /-- A record of which slots are present that is not as long as the array. -/
  | validityLength
  /-- Offsets that end behind the last element. -/
  | offsetRange
  | nullKey
  /-- Columns of a batch that differ in length. -/
  | columnLength
  /-- A column of a type that is not that of the schema. -/
  | columnType
  deriving Repr, DecidableEq

/-- The message of an error that has one. -/
def AssemblyError.message? : AssemblyError → Option String
  | .noVector column name =>
    some s!"arrow error: Invalid argument error: no column vector for column {column} ({name})"
  | .nestedVector name =>
    some s!"arrow error: Invalid argument error: primitive column {name} has a nested vector"
  | _ => none

/-! ### Building arrays -/

/-- The record of absent slots, or `none` if there are none. -/
def nullRecord (validity : Array Bool) : Option (Array Bool) :=
  if validity.all id then none else some validity

/-- Which of so many slots are present, if the record is as long as that. -/
def validityOf (nulls : Option (Array Bool)) (size : Nat) : Except AssemblyError (Array Bool) :=
  match nulls with
  | none => .ok (Array.replicate size true)
  | some validity => if validity.size = size then .ok validity else .error .validityLength

namespace ColumnArray

def mkStruct (nulls : Option (Array Bool)) (fields : List (String × ColumnArray)) :
    Except AssemblyError ColumnArray := do
  let size := match fields with
    | (_, a) :: _ => a.size
    | [] => 0
  let validity ← validityOf nulls size
  if fields.any fun (_, a) => a.size != size then throw .fieldLength
  return .struct validity fields

def mkList (nulls : Option (Array Bool)) (offsets : Array Nat) (element : ColumnArray) :
    Except AssemblyError ColumnArray := do
  if element.size < offsets.back?.getD 0 then throw .offsetRange
  return .list (← validityOf nulls (offsets.size - 1)) offsets element

def mkMap (nulls : Option (Array Bool)) (offsets : Array Nat) (key value : ColumnArray) :
    Except AssemblyError ColumnArray := do
  if key.size != value.size then throw .fieldLength
  if !key.validity.all id then throw .nullKey
  if key.size < offsets.back?.getD 0 then throw .offsetRange
  return .map (← validityOf nulls (offsets.size - 1)) offsets key value

end ColumnArray

/-! ### Draining vectors -/

/-- Draining ends with arrays or an error, and with the vectors left. -/
abbrev Draining := ExceptT AssemblyError (StateM (Array ColumnVector))

namespace Draining

/-- Replace one vector. -/
def put (column : ColumnId) (v : ColumnVector) : Draining Unit :=
  modify fun vectors => vectors.setIfInBounds column v

/-- The record of absent slots of a struct vector; other vectors have none and stay as they are. -/
def takeValidity (column : ColumnId) (v : ColumnVector) : Draining (Option (Array Bool)) := do
  match v with
  | .struct validity =>
    put column (.struct #[])
    return nullRecord validity
  | _ => return none

/-- The record of absent slots and the offsets of a list or map vector; other vectors count as
    empty ones and stay as they are. -/
def takeOffsets (column : ColumnId) (v : ColumnVector) :
    Draining (Option (Array Bool) × Array Nat) := do
  match v with
  | .list offsets validity =>
    put column (.list #[0] #[])
    return (nullRecord validity, offsets)
  | .map offsets validity =>
    put column (.map #[0] #[])
    return (nullRecord validity, offsets)
  | _ => return (none, #[0])

/-- What remains to be done for a column: nothing if its vector is that of a leaf. -/
def start (head : ColumnHead) : Draining (ColumnArray ⊕ ColumnVector) := do
  match (← get)[head.id]? with
  | none => throw (.noVector head.id head.name)
  | some (.leaf type slots) =>
    put head.id (.leaf type #[])
    return .inl (.leaf type slots)
  | some v => return .inr v

end Draining

mutual

/-- The array of a column, from the vector of its number and those of the columns below it. -/
def Column.drain : Column → Draining ColumnArray
  | .primitive head _ => do
    match ← Draining.start head with
    | .inl array => return array
    | .inr _ => throw (.nestedVector head.name)
  | .struct head _ children => do
    match ← Draining.start head with
    | .inl array => return array
    | .inr v =>
      let nulls ← Draining.takeValidity head.id v
      let fields ← Column.drainAll children
      liftExcept (ColumnArray.mkStruct nulls fields)
  | .list head _ element => do
    match ← Draining.start head with
    | .inl array => return array
    | .inr v =>
      let (nulls, offsets) ← Draining.takeOffsets head.id v
      let element ← Column.drain element
      liftExcept (ColumnArray.mkList nulls offsets element)
  | .map head key value => do
    match ← Draining.start head with
    | .inl array => return array
    | .inr v =>
      let (nulls, offsets) ← Draining.takeOffsets head.id v
      let key ← Column.drain key
      let value ← Column.drain value
      liftExcept (ColumnArray.mkMap nulls offsets key value)

/-- The arrays of columns one after the other, with their names. -/
def Column.drainAll : List Column → Draining (List (String × ColumnArray))
  | [] => return []
  | c :: rest => do
    let array ← Column.drain c
    let arrays ← Column.drainAll rest
    return (c.name, array) :: arrays

end

/-! ### Record batches -/

/-- Finished rows: a column for each field of the schema. -/
structure RecordBatch where
  fields : List StorageField
  columns : List ColumnArray
  deriving Repr

namespace RecordBatch

/-- The number of rows. -/
def rows (b : RecordBatch) : Nat :=
  match b.columns with
  | a :: _ => a.size
  | [] => 0

/-- The batch of these columns, if they are equally long and of the types of the schema. -/
def make (fields : List StorageField) (columns : List ColumnArray) :
    Except AssemblyError RecordBatch :=
  let b : RecordBatch := ⟨fields, columns⟩
  if columns.any fun a => a.size != b.rows then .error .columnLength
  else if columns.map ColumnArray.type ≠ fields.map FieldOf.type then .error .columnType
  else .ok b

end RecordBatch

/-- Assemble the rows written so far.  The batch is empty afterwards; if a column cannot be
    assembled, the columns before it are and the rows still count. -/
def Batch.finish (s : Specification) (b : Batch) : Except AssemblyError RecordBatch × Batch :=
  match (Column.drainAll s.root.children).run.run b.vectors with
  | (.ok arrays, vectors) => (RecordBatch.make s.fields (arrays.map (·.2)), ⟨vectors, 0⟩)
  | (.error e, vectors) => (.error e, { b with vectors })

end Columnar
