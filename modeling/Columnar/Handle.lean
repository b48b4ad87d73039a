import Columnar.Batch.Assembly
import Columnar.Batch.Writing
import Columnar.Text.Quoted

/-! # Writer handles

    A handle holds the batch that rows of one specification are appended to.
    A row is staged as a whole before any of it is written.
-/

namespace Columnar

/-! ### Options -/

structure WriterOptions where
  /-- The rows that vectors have room for from the start. -/
  batchSize : Nat
  /-- Is room for elements reserved as the capacity hints ask for? -/
  capacityHints : Bool
  deriving Repr, DecidableEq

namespace WriterOptions

/-- A batch size of zero counts as one. -/
def withBatchSize (o : WriterOptions) (batchSize : Nat) : WriterOptions :=
  { o with batchSize := max batchSize 1 }

def withCapacityHints (o : WriterOptions) (capacityHints : Bool) : WriterOptions :=
  { o with capacityHints }

end WriterOptions

/-! ### Reserved room -/

/-- Hints reserve no more than so many slots for a vector. -/
def maxReserved : Nat := 0x400000

/-- The product, or the largest size there is. -/
def saturatingMul (a b : Nat) : Nat := min (a * b) (UInt64.size - 1)

mutual

/-- The slots reserved for each column of a tree, in pre-order: as many as for the column around
    it, times the average size below a list. -/
def Column.reserved (capacityHints : Bool) (capacity : Nat) : Column → List Nat
  | .primitive _ _ => [capacity]
  | .struct _ _ children => capacity :: Column.reservedAll capacityHints capacity children
  | .list _ averageSize element =>
    let below :=
      if capacityHints then min (saturatingMul capacity averageSize.toNat) maxReserved
      else capacity
    capacity :: Column.reserved capacityHints below element
  | .map _ key value =>
    capacity
      :: (Column.reserved capacityHints capacity key ++ Column.reserved capacityHints capacity value)

def Column.reservedAll (capacityHints : Bool) (capacity : Nat) : List Column → List Nat
  | [] => []
  | c :: rest =>
    Column.reserved capacityHints capacity c ++ Column.reservedAll capacityHints capacity rest

end

/-! ### Handles -/

structure WriterHandle where
  specification : Specification
  rowCapacity : Nat
  reserved : List Nat
  batch : Batch
  scratch : Scratch

/-- What a step on a handle gives: a result, the accessors read, and the handle afterwards. -/
structure HandleStep (α : Type) where
  result : Except AppendError α
  calls : List Accessor
  handle : WriterHandle

/-- Decimals are stored with 1 to 38 digits, of which no more than all follow the point. -/
def LeafType.supported : LeafType → Except AssemblyError Unit
  | .decimal128 precision scale =>
    if 1 ≤ precision && precision ≤ maxPrecision && scale.toInt ≤ maxPrecision.toNat
        && (scale ≤ 0 || scale.toInt ≤ precision.toNat) then .ok ()
    else .error (.unsupportedDecimal precision scale)
  | _ => .ok ()

/-- Can a vector be made for the column? -/
def Column.supported : Column → Except AssemblyError Unit
  | .primitive _ kind => kind.storage.supported
  | _ => .ok ()

namespace WriterHandle

/-- A handle with an empty batch. -/
def create (s : Specification) (o : WriterOptions) : Except AssemblyError WriterHandle := do
  s.root.preorder.forM Column.supported
  return {
    specification := s
    rowCapacity := o.batchSize
    reserved := s.root.reserved o.capacityHints o.batchSize
    batch := .empty s.root
    scratch := .fresh s.columnCount }

/-- Append one row.  If it cannot be staged nothing is written. -/
def append (h : WriterHandle) (row : Record) : HandleStep Unit :=
  let start : Progress := ⟨.fresh h.specification.columnCount, #[]⟩
  let staging := Operation.stageFields h.batch.slotCount h.specification.plan row
  match staging.run.run start with
  | (.error e, progress) => ⟨.error e, progress.calls.toList, { h with scratch := progress.scratch }⟩
  | (.ok staged, progress) =>
    let h := { h with scratch := progress.scratch }
    match (Operation.writeFields h.specification.plan staged).run.run h.batch with
    | (.error e, batch) => ⟨.error e, progress.calls.toList, { h with batch }⟩
    | (.ok (), batch) =>
      ⟨.ok (), progress.calls.toList, { h with batch := { batch with rows := batch.rows + 1 } }⟩

/-- Append rows in order until one fails; the result is their number. -/
def appendAll (h : WriterHandle) (rows : List Record) : HandleStep Nat :=
  match rows with
  | [] => ⟨.ok 0, [], h⟩
  | row :: rest =>
    let step := h.append row
    match step.result with
    | .error e => ⟨.error e, step.calls, step.handle⟩
    | .ok () =>
      let others := step.handle.appendAll rest
      { others with result := others.result.map (· + 1), calls := step.calls ++ others.calls }

/-- Assemble the rows appended so far and begin a new batch. -/
def finish (h : WriterHandle) : Except AssemblyError RecordBatch × WriterHandle :=
  let (result, batch) := h.batch.finish h.specification
  (result, { h with batch })

def rows (h : WriterHandle) : Nat := h.batch.rows

/-- Does the batch hold as many rows as it was made for? -/
def isFull (h : WriterHandle) : Bool := h.rowCapacity ≤ h.batch.rows

/-- The slots reserved for the vector of that number. -/
def reservedSlots (h : WriterHandle) (column : ColumnId) : Nat := h.reserved[column]?.getD 0

/-- The text that shows a handle. -/
def describe (h : WriterHandle) : String :=
  "WriterHandle \x7b name: " ++ Text.quoted h.specification.name ++ s!", rows: {h.rows} "
    ++ "\x7d"

end WriterHandle

end Columnar
