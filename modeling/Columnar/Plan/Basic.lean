import Columnar.Path
import Columnar.Schema.Column
import Columnar.Storage

/-! # Writer specifications

    A specification is what is known about writing rows of one type: the
    storage type of the batches, hints for the size of element vectors, and
    the append plan, which says for every column where its values come from.
-/

namespace Columnar

/-- The number of a specification within a session. -/
abbrev WriterId := Nat

/-- An accessor of a struct type: its position among those that the type offers, and its name. -/
structure Accessor where
  index : Nat
  name : String
  deriving Repr, DecidableEq

namespace Accessor

def text (a : Accessor) : String := s!"{a.name}#{a.index}"

instance : ToString Accessor := ⟨text⟩

end Accessor

/-- The column that an operation fills, and its path. -/
structure Target where
  column : ColumnId
  path : Path
  deriving Repr, DecidableEq

/-- How the values of one column are appended.  The value of a struct's field is read through an
    accessor of the struct; elements, keys and values come with their collection. -/
inductive Operation where
  | primitive (target : Target) (kind : PrimitiveKind)
  | struct (target : Target) (fields : List (Accessor × Operation))
  | list (target : Target) (element : Operation)
  | map (target : Target) (key value : Operation)
  deriving Repr

namespace Operation

def target : Operation → Target
  | .primitive target _ | .struct target _ | .list target _ | .map target _ _ => target

def column (op : Operation) : ColumnId := op.target.column

def path (op : Operation) : Path := op.target.path

/-- The type that the operation appends to, as listings and errors name it. -/
def label : Operation → String
  | .primitive _ kind => kind.typeName
  | .struct _ _ => "struct"
  | .list _ _ => "list"
  | .map _ _ _ => "map"

end Operation

/-- A list column's element vector should have room for so many elements for each list. -/
structure CapacityHint where
  list : ColumnId
  element : ColumnId
  averageSize : UInt32
  path : Path
  deriving Repr, DecidableEq

structure Specification where
  writerId : WriterId
  rootType : String
  root : Column
  fields : List StorageField
  hints : List CapacityHint
  plan : List (Accessor × Operation)
  deriving Repr

namespace Specification

/-- The name of the writer: that of the row type, and the number. -/
def name (s : Specification) : String := s!"{s.rootType}$RowWriter_{s.writerId}"

def columnCount (s : Specification) : Nat := s.root.count

end Specification

end Columnar
