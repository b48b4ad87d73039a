import Columnar.Catalog.Basic
import Columnar.Schema.Column
import Columnar.Schema.Error

/-! # Compiling catalogs

    Compiling unfolds the struct references of a catalog, beginning with the
    root type, into a column tree.  The types being expanded on the way to a
    reference are remembered: a reference to one of them is a cycle.  As every
    struct that is entered is described and not on the way yet, the number of
    described types that are not on the way bounds the unfolding.

    A column is numbered one higher than its parent if it is the first child,
    and one behind the last column of its elder sibling's tree otherwise.
-/

namespace Columnar

def defaultPrecision : UInt8 := 38

def defaultScale : Int8 := 10

/-- May a decimal column have this precision and scale? -/
def validDecimal (precision : UInt8) (scale : Int8) : Bool :=
  1 ≤ precision && precision ≤ maxPrecision && 0 ≤ scale && scale.toInt ≤ precision.toNat

/-- How many described types are not being expanded. -/
def Catalog.remaining (c : Catalog) (expanding : List String) : Nat :=
  (c.types.filter fun d => !expanding.contains d.name).length

/-- Entering a described type that is not being expanded leaves fewer. -/
theorem Catalog.remaining_lt {c : Catalog} {expanding : List String} {typeName : String}
    {d : TypeDescription} (hd : c.describe typeName = some d) (hn : typeName ∉ expanding) :
    c.remaining (expanding ++ [typeName]) < c.remaining expanding := by
  have hmem := List.mem_of_find?_eq_some hd
  have hname : d.name = typeName := by simpa using List.find?_some hd
  unfold Catalog.remaining
  generalize c.types = types at hmem
  have hle : ∀ l : List TypeDescription,
      (l.filter fun e => !(expanding ++ [typeName]).contains e.name).length
        ≤ (l.filter fun e => !expanding.contains e.name).length := by
    intro l
    induction l with
    | nil => simp
    | cons a l ih => simp only [List.filter_cons]; grind
  induction types with
  | nil => cases hmem
  | cons a l ih =>
    have := hle l
    simp only [List.filter_cons]
    rcases List.mem_cons.1 hmem with h | h
    · subst h
      rw [hname]
      simp only [List.contains_eq_mem, hn, List.mem_append, List.mem_singleton,
        or_true, decide_true, Bool.not_true, decide_false, Bool.not_false, if_true]
      simp only [List.contains_eq_mem] at this
      simp only [List.mem_append, List.mem_singleton] at this
      simp only [Bool.false_eq_true, if_false, List.length_cons]
      omega
    · have := ih h
      grind

theorem TypeRef.sizeOf_pos (t : TypeRef) : 0 < sizeOf t := by
  cases t
  rw [TypeRef.mk.sizeOf_spec]
  omega

theorem FieldDescriptor.sizeOf_type_lt (f : FieldDescriptor) (rest : List FieldDescriptor) :
    sizeOf f.type < sizeOf (f :: rest) := by
  rcases f with ⟨name, accessor, type⟩
  rw [List.cons.sizeOf_spec, FieldDescriptor.mk.sizeOf_spec]
  show sizeOf type < _
  omega

theorem TypeRef.sizeOf_lt_of_element {t e : TypeRef} (h : t.element = some e) :
    sizeOf e < sizeOf t := by
  cases t; cases h; simp; omega

theorem TypeRef.sizeOf_lt_of_key {t e : TypeRef} (h : t.key = some e) : sizeOf e < sizeOf t := by
  cases t; cases h; simp; omega

theorem TypeRef.sizeOf_lt_of_value {t e : TypeRef} (h : t.value = some e) :
    sizeOf e < sizeOf t := by
  cases t; cases h; simp; omega

/-- The tag of a type reference.  Only lists may have an average size. -/
def TypeRef.tag (t : TypeRef) (path : Path) : Except SchemaError KindTag :=
  match KindTag.parse? t.kind with
  | none => .error (.unknownKind path t.kind)
  | some tag =>
    if t.averageSize.isSome && tag != .list then .error (.unexpectedAverageSize path tag.label)
    else .ok tag

/-- The types from a type that is met again to the end of the way, and that type once more. -/
def cycleThrough (expanding : List String) (typeName : String) : List String :=
  expanding.dropWhile (· != typeName) ++ [typeName]

mutual

/-- Expand a reference to a struct type. -/
def expandStruct (c : Catalog) (expanding : List String) (head : ColumnHead) (path : Path)
    (typeName : String) : Except SchemaError Column :=
  if _hn : typeName ∈ expanding then .error (.cycle path (cycleThrough expanding typeName))
  else match hd : c.describe typeName with
    | none => .error (.undefinedType path typeName)
    | some d => do
      let children ←
        expandFields c (expanding ++ [typeName]) (head.id + 1) path typeName [] d.fields
      return .struct head typeName children
termination_by (c.remaining expanding, 0)
decreasing_by exact Prod.Lex.left _ _ (Catalog.remaining_lt hd _hn)

/-- Expand the fields of a struct type, the first one with the given number; `seen` holds the
    names of the fields before them. -/
def expandFields (c : Catalog) (expanding : List String) (next : ColumnId) (path : Path)
    (typeName : String) (seen : List String) (fields : List FieldDescriptor) :
    Except SchemaError (List Column) :=
  match fields with
  | [] => return []
  | f :: rest => do
    if f.name ∈ seen then throw (.duplicateField typeName f.name)
    let column ←
      expandType c expanding ⟨next, f.name, some f.accessorName⟩ (path.child f.name) f.type
    let columns ←
      expandFields c expanding (next + column.count) path typeName (f.name :: seen) rest
    return column :: columns
termination_by (c.remaining expanding, sizeOf fields)
decreasing_by
  · exact Prod.Lex.right _ (FieldDescriptor.sizeOf_type_lt f rest)
  · exact Prod.Lex.right _ (by rw [List.cons.sizeOf_spec]; omega)

/-- Expand a type reference. -/
def expandType (c : Catalog) (expanding : List String) (head : ColumnHead) (path : Path)
    (type : TypeRef) : Except SchemaError Column :=
  do match ← type.tag path with
    | .scalar kind => return .primitive head kind
    | .decimal =>
      let precision := type.precision.getD defaultPrecision
      let scale := type.scale.getD defaultScale
      if validDecimal precision scale then return .primitive head (.decimal precision scale)
      else throw (.invalidDecimal path precision scale)
    | .struct =>
      match type.typeName with
      | none => throw (.missingTypeName path)
      | some typeName => expandStruct c expanding head path typeName
    | .list =>
      match he : type.element with
      | none => throw (.missingChildType path "list" "element")
      | some element =>
        if type.averageSize = some 0 then throw (.invalidAverageSize path)
        let element ←
          expandType c expanding ⟨head.id + 1, "element", none⟩ (path.child "element") element
        return .list head (type.averageSize.getD 1) element
    | .map =>
      match hk : type.key, hv : type.value with
      | none, _ => throw (.missingChildType path "map" "key")
      | some _, none => throw (.missingChildType path "map" "value")
      | some key, some value =>
        let key ← expandType c expanding ⟨head.id + 1, "key", none⟩ (path.child "key") key
        let value ←
          expandType c expanding ⟨head.id + 1 + key.count, "value", none⟩ (path.child "value") value
        return .map head key value
termination_by (c.remaining expanding, sizeOf type)
decreasing_by
  · exact Prod.Lex.right _ (TypeRef.sizeOf_pos type)
  · exact Prod.Lex.right _ (TypeRef.sizeOf_lt_of_element he)
  · exact Prod.Lex.right _ (TypeRef.sizeOf_lt_of_key hk)
  · exact Prod.Lex.right _ (TypeRef.sizeOf_lt_of_value hv)

end

/-- The column tree of the row type of a catalog. -/
def compile (c : Catalog) : Except SchemaError Column :=
  if (c.describe c.root).isNone then .error (.unknownRootType c.root)
  else expandStruct c [] ⟨0, c.root, none⟩ ⟨c.root, []⟩ c.root

end Columnar
