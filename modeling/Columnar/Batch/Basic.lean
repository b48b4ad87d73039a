import Columnar.Batch.Vector
import Columnar.Row.Staging

/-! # Batches

    The vectors of the columns of a tree, addressed by column number, and the
    rows written to them so far.  A number beyond the last vector has no
    slots, ignores nulls and takes nothing else.
-/

namespace Columnar

structure Batch where
  vectors : Array ColumnVector
  rows : Nat
  deriving Repr, DecidableEq

namespace Batch

/-- The empty batch for a tree: its vectors stand in pre-order. -/
def empty (root : Column) : Batch :=
  ⟨(root.preorder.map ColumnVector.empty).toArray, 0⟩

def slotCount (b : Batch) (column : ColumnId) : Nat :=
  (b.vectors[column]?).elim 0 ColumnVector.size

/-- The offsets of a list or map vector. -/
def offsets? (b : Batch) (column : ColumnId) : Option (Array Nat) :=
  (b.vectors[column]?).bind ColumnVector.offsets?

/-- Change one vector, unless that fails. -/
def update? (b : Batch) (column : ColumnId) (change : ColumnVector → Option ColumnVector) :
    Option Batch := do
  let v ← b.vectors[column]?
  let v ← change v
  return { b with vectors := b.vectors.setIfInBounds column v }

def appendNull (b : Batch) (column : ColumnId) : Batch :=
  { b with vectors := b.vectors.modify column ColumnVector.appendNull }

def appendScalar? (b : Batch) (column : ColumnId) (s : Scalar) : Option Batch :=
  b.update? column (ColumnVector.appendScalar? s)

def markPresent? (b : Batch) (column : ColumnId) : Option Batch :=
  b.update? column ColumnVector.markPresent?

/-- Close a slot of a list or map vector behind the last element of another vector. -/
def close? (b : Batch) (column element : ColumnId) : Option Batch :=
  let stop := b.slotCount element
  if stop ≤ maxElements then b.update? column (ColumnVector.close? stop) else none

end Batch

end Columnar
