import Columnar.Schema.Kind

/-! # Column trees

    A row type is stored as a tree of columns: a leaf for each primitive
    value, a struct column with a child for each field, a list column with its
    element, a map column with key and value.  Columns are numbered in
    pre-order.
-/

namespace Columnar

/-- The number of a column within its tree. -/
abbrev ColumnId := Nat

/-- What every column has. -/
structure ColumnHead where
  id : ColumnId
  name : String
  /-- The accessor that reads the column from the struct value around it; roots and parts of
      collections have none. -/
  accessor : Option String := none
  deriving Repr, DecidableEq

inductive Column where
  | primitive (head : ColumnHead) (kind : PrimitiveKind)
  | struct (head : ColumnHead) (typeName : String) (children : List Column)
  | list (head : ColumnHead) (averageSize : UInt32) (element : Column)
  | map (head : ColumnHead) (key value : Column)
  deriving Repr

namespace Column

def head : Column → ColumnHead
  | .primitive head _ | .struct head _ _ | .list head _ _ | .map head _ _ => head

def id (c : Column) : ColumnId := c.head.id

def name (c : Column) : String := c.head.name

def accessor (c : Column) : Option String := c.head.accessor

def children : Column → List Column
  | .primitive _ _ => []
  | .struct _ _ children => children
  | .list _ _ element => [element]
  | .map _ key value => [key, value]

/-- The sort of column, as errors name it. -/
def label : Column → String
  | .primitive _ _ => "primitive"
  | .struct _ _ _ => "struct"
  | .list _ _ _ => "list"
  | .map _ _ _ => "map"

/-! ### Whole trees -/

mutual

/-- The columns of the tree in pre-order. -/
def preorder : Column → List Column
  | .primitive head kind => [.primitive head kind]
  | .struct head typeName children =>
    .struct head typeName children :: preorderChildren children
  | .list head averageSize element => .list head averageSize element :: preorder element
  | .map head key value => .map head key value :: (preorder key ++ preorder value)

def preorderChildren : List Column → List Column
  | [] => []
  | c :: rest => preorder c ++ preorderChildren rest

end

mutual

/-- How many columns the tree has. -/
def count : Column → Nat
  | .primitive _ _ => 1
  | .struct _ _ children => countChildren children + 1
  | .list _ _ element => count element + 1
  | .map _ key value => count key + count value + 1

def countChildren : List Column → Nat
  | [] => 0
  | c :: rest => count c + countChildren rest

end

mutual

/-- The type of the column with the names of all nested fields. -/
def typeString : Column → String
  | .primitive _ kind => kind.typeName
  | .struct _ _ children => "struct<" ++ ",".intercalate (fieldStrings children) ++ ">"
  | .list _ _ element => "array<" ++ typeString element ++ ">"
  | .map _ key value => "map<" ++ typeString key ++ "," ++ typeString value ++ ">"

def fieldStrings : List Column → List String
  | [] => []
  | c :: rest => (c.name ++ ":" ++ typeString c) :: fieldStrings rest

end

/-- The column reached by choosing children by position, one after the other. -/
def descend? (c : Column) : List Nat → Option Column
  | [] => some c
  | i :: rest => (c.children[i]?).bind fun child => child.descend? rest

end Column

end Columnar
