import Columnar.Row.Scalar

/-! # Staging rows

    Before anything is written, a whole row is staged: every field is read
    through its accessor and converted for its column.  Staging follows the
    append plan depth first, a field's value is staged before the next field
    is read, and nothing below an absent value is read.

    The elements that the row adds to each element vector are counted, so that
    no list or map outgrows the range of its offsets.
-/

namespace Columnar

/-- A value that is ready to be written. -/
inductive Staged where
  | null
  | scalar (value : Scalar)
  | struct (fields : List Staged)
  | list (items : List Staged)
  | map (entries : List (Staged × Staged))
  deriving Repr

/-- The largest number of elements that the offsets of a list or map can count. -/
def maxElements : Nat := 0x7FFFFFFF

/-- The elements that the row being staged adds to each vector. -/
structure Scratch where
  pending : Array Nat
  deriving Repr, DecidableEq

/-- Nothing added yet, for so many columns. -/
def Scratch.fresh (columnCount : Nat) : Scratch := ⟨Array.replicate columnCount 0⟩

/-- How far staging has come: what the row adds so far, and the accessors read. -/
structure Progress where
  scratch : Scratch
  calls : Array Accessor
  deriving Repr, DecidableEq

/-- Staging ends with a value or an error, and with the progress made until then. -/
abbrev Staging := ExceptT AppendError (StateM Progress)

namespace Staging

/-- Count elements that a list or map of that path adds to a vector holding `slots` elements. -/
def reserve (path : Path) (element : ColumnId) (slots count : Nat) : Staging Unit := do
  let progress ← get
  match progress.scratch.pending[element]? with
  | none => throw (.vectorMismatch element path)
  | some pending =>
    if maxElements < slots + pending + count then throw (.capacityExceeded path maxElements)
    let pending := progress.scratch.pending.setIfInBounds element (pending + count)
    set { progress with scratch := ⟨pending⟩ }

/-- Read an accessor for the column of that path. -/
def read (record : Record) (path : Path) (accessor : Accessor) : Staging Value := do
  modify fun progress => { progress with calls := progress.calls.push accessor }
  match record accessor with
  | .ok value => return value
  | .error source => throw (.access path source)

end Staging

mutual

/-- Stage a value for the column of an operation; `slots` tells the length of each vector. -/
def Operation.stage (slots : ColumnId → Nat) (op : Operation) (value : Value) : Staging Staged :=
  match op, value with
  | _, .null => return .null
  | .primitive target kind, value =>
    match convert target.path kind value with
    | .ok scalar => return .scalar scalar
    | .error e => throw e
  | .struct _ fields, .struct record => return .struct (← Operation.stageFields slots fields record)
  | .list target element, .list items => do
    Staging.reserve target.path element.column (slots element.column) items.length
    return .list (← items.mapM fun item => Operation.stage slots element item)
  | .map target key value, .map entries => do
    Staging.reserve target.path key.column (slots key.column) entries.length
    return .map (← entries.mapM fun (k, v) => do
      if k.isNull then throw (.nullMapKey target.path)
      let k ← Operation.stage slots key k
      let v ← Operation.stage slots value v
      return (k, v))
  | op, value => throw (.typeMismatch op.path op.label value.kindName)
termination_by structural op

/-- Stage the fields of a row or struct value. -/
def Operation.stageFields (slots : ColumnId → Nat) (fields : List (Accessor × Operation))
    (record : Record) : Staging (List Staged) :=
  match fields with
  | [] => return []
  | (accessor, op) :: rest => do
    let value ← Staging.read record op.path accessor
    let staged ← Operation.stage slots op value
    let others ← Operation.stageFields slots rest record
    return staged :: others
termination_by structural fields

end

end Columnar
