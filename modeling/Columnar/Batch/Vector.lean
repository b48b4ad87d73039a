import Columnar.Row.Scalar
import Columnar.Schema.Column

/-! # Column vectors

    One vector for each column.  A leaf vector holds the values; a struct
    vector holds which slots are present; a list or map vector also holds
    offsets: slot `i` consists of the elements from offset `i` to offset
    `i + 1` of its element (key and value) vector.
-/

namespace Columnar

inductive ColumnVector where
  | leaf (type : LeafType) (slots : Array (Option Scalar))
  | struct (validity : Array Bool)
  | list (offsets : Array Nat) (validity : Array Bool)
  | map (offsets : Array Nat) (validity : Array Bool)
  deriving Repr, DecidableEq

namespace ColumnVector

/-- The empty vector of a column. -/
def empty : Column → ColumnVector
  | .primitive _ kind => .leaf kind.storage #[]
  | .struct _ _ _ => .struct #[]
  | .list _ _ _ => .list #[0] #[]
  | .map _ _ _ => .map #[0] #[]

/-- The number of slots. -/
def size : ColumnVector → Nat
  | .leaf _ slots => slots.size
  | .struct validity => validity.size
  | .list offsets _ | .map offsets _ => offsets.size - 1

def offsets? : ColumnVector → Option (Array Nat)
  | .list offsets _ | .map offsets _ => some offsets
  | _ => none

/-- Add an absent slot. -/
def appendNull : ColumnVector → ColumnVector
  | .leaf type slots => .leaf type (slots.push none)
  | .struct validity => .struct (validity.push false)
  | .list offsets validity => .list (offsets.push (offsets.back?.getD 0)) (validity.push false)
  | .map offsets validity => .map (offsets.push (offsets.back?.getD 0)) (validity.push false)

/-- Add a leaf value, if the vector takes it. -/
def appendScalar? (s : Scalar) : ColumnVector → Option ColumnVector
  | .leaf type slots => if type.accepts s then some (.leaf type (slots.push (some s))) else none
  | _ => none

/-- Add a present slot to a struct vector. -/
def markPresent? : ColumnVector → Option ColumnVector
  | .struct validity => some (.struct (validity.push true))
  | _ => none

/-- Add a slot that ends at that element to a list or map vector. -/
def close? (stop : Nat) : ColumnVector → Option ColumnVector
  | .list offsets validity => some (.list (offsets.push stop) (validity.push true))
  | .map offsets validity => some (.map (offsets.push stop) (validity.push true))
  | _ => none

end ColumnVector

end Columnar
