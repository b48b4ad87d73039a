import Columnar.Schema.Compile

/-! # Expanding

    A column tree is expanded from the references of a catalog step by step.
    There is a rule here for each step that succeeds: what has to be known about
    a reference for it to be expanded to the trees below it, and what about these
    trees for the tree of the reference. -/

namespace Columnar

section Expanding

variable {c : Catalog} {expanding : List String} {head : ColumnHead} {path : Path}

/-- A known kind is the tag of a reference that asks for no average size. -/
theorem TypeRef.tag_of_parse? {t : TypeRef} {tag : KindTag} (h : KindTag.parse? t.kind = some tag)
    (hsize : t.averageSize = none) : t.tag path = .ok tag := by
  unfold TypeRef.tag
  rw [h, hsize]
  rfl

/-- Only lists may ask for one. -/
theorem TypeRef.tag_list {t : TypeRef} (h : KindTag.parse? t.kind = some .list) :
    t.tag path = .ok .list := by
  unfold TypeRef.tag
  rw [h]
  exact if_neg (by simp)

/-- A type is not expanded below itself. -/
theorem expandStruct_of_mem {typeName : String} (hn : typeName ∈ expanding) :
    expandStruct c expanding head path typeName =
      .error (.cycle path (cycleThrough expanding typeName)) := by
  rw [expandStruct, dif_pos hn]

theorem expandStruct_of_undescribed {typeName : String} (hn : typeName ∉ expanding)
    (hd : c.describe typeName = none) :
    expandStruct c expanding head path typeName = .error (.undefinedType path typeName) := by
  rw [expandStruct, dif_neg hn]
  generalize c.describe typeName = description at hd
  cases hd
  rfl

/-- A described type that is not being expanded gives a struct of its fields. -/
theorem expandStruct_eq {typeName : String} {d : TypeDescription} (hn : typeName ∉ expanding)
    (hd : c.describe typeName = some d) : expandStruct c expanding head path typeName =
      expandFields c (expanding ++ [typeName]) (head.id + 1) path typeName [] d.fields
        >>= fun children => .ok (.struct head typeName children) := by
  rw [expandStruct, dif_neg hn]
  generalize c.describe typeName = description at hd
  cases hd
  rfl

theorem expandStruct_eq_ok {typeName : String} {d : TypeDescription} {children : List Column}
    (hn : typeName ∉ expanding) (hd : c.describe typeName = some d)
    (hc : expandFields c (expanding ++ [typeName]) (head.id + 1) path typeName [] d.fields
      = .ok children) :
    expandStruct c expanding head path typeName = .ok (.struct head typeName children) := by
  rw [expandStruct_eq hn hd, hc]
  rfl

theorem expandFields_nil_eq_ok {next : ColumnId} {typeName : String} {seen : List String} :
    expandFields c expanding next path typeName seen [] = .ok [] := by
  rw [expandFields]
  rfl

/-- The next field is numbered behind the whole tree of the one before. -/
theorem expandFields_cons_eq {next : ColumnId} {typeName : String} {seen : List String}
    {f : FieldDescriptor} {rest : List FieldDescriptor} (hf : f.name ∉ seen) :
    expandFields c expanding next path typeName seen (f :: rest) =
      expandType c expanding ⟨next, f.name, some f.accessorName⟩ (path.child f.name) f.type
        >>= fun column => expandFields c expanding (next + column.count) path typeName
          (f.name :: seen) rest >>= fun columns => .ok (column :: columns) := by
  rw [expandFields, if_neg hf]
  rfl

theorem expandFields_cons_eq_ok {next : ColumnId} {typeName : String} {seen : List String}
    {f : FieldDescriptor} {rest : List FieldDescriptor} {column : Column} {columns : List Column}
    (hf : f.name ∉ seen)
    (hcolumn : expandType c expanding ⟨next, f.name, some f.accessorName⟩ (path.child f.name) f.type
      = .ok column)
    (hcolumns : expandFields c expanding (next + column.count) path typeName (f.name :: seen) rest
      = .ok columns) :
    expandFields c expanding next path typeName seen (f :: rest) = .ok (column :: columns) := by
  rw [expandFields_cons_eq hf, hcolumn]
  show (expandFields _ _ _ _ _ _ _ >>= _) = _
  rw [hcolumns]
  rfl

theorem expandType_scalar_eq_ok {t : TypeRef} {kind : PrimitiveKind}
    (htag : t.tag path = .ok (.scalar kind)) :
    expandType c expanding head path t = .ok (.primitive head kind) := by
  rw [expandType, htag]
  rfl

theorem expandType_decimal_eq_ok {t : TypeRef} (htag : t.tag path = .ok .decimal)
    (hvalid : validDecimal (t.precision.getD defaultPrecision) (t.scale.getD defaultScale)) :
    expandType c expanding head path t = .ok (.primitive head
      (.decimal (t.precision.getD defaultPrecision) (t.scale.getD defaultScale))) := by
  rw [expandType, htag]
  exact if_pos hvalid

theorem expandType_struct_eq {t : TypeRef} {typeName : String}
    (htag : t.tag path = .ok .struct) (hname : t.typeName = some typeName) :
    expandType c expanding head path t = expandStruct c expanding head path typeName := by
  rw [expandType, htag]
  dsimp only [bind, Except.bind]
  rw [hname]

theorem expandType_struct_eq_ok {t : TypeRef} {typeName : String} {column : Column}
    (htag : t.tag path = .ok .struct) (hname : t.typeName = some typeName)
    (hcolumn : expandStruct c expanding head path typeName = .ok column) :
    expandType c expanding head path t = .ok column :=
  (expandType_struct_eq htag hname).trans hcolumn

theorem expandType_list_eq {t element : TypeRef} (htag : t.tag path = .ok .list)
    (helement : t.element = some element) (hsize : t.averageSize ≠ some 0) :
    expandType c expanding head path t =
      expandType c expanding ⟨head.id + 1, "element", none⟩ (path.child "element") element
        >>= fun column => .ok (.list head (t.averageSize.getD 1) column) := by
  rw [expandType, htag]
  dsimp only [bind, Except.bind]
  generalize t.element = part at helement
  cases helement
  exact if_neg hsize

theorem expandType_list_eq_ok {t element : TypeRef} {column : Column}
    (htag : t.tag path = .ok .list) (helement : t.element = some element)
    (hsize : t.averageSize ≠ some 0)
    (hcolumn : expandType c expanding ⟨head.id + 1, "element", none⟩ (path.child "element") element
      = .ok column) :
    expandType c expanding head path t = .ok (.list head (t.averageSize.getD 1) column) := by
  rw [expandType_list_eq htag helement hsize, hcolumn]
  rfl

/-- The values are numbered behind the whole tree of the keys. -/
theorem expandType_map_eq {t key value : TypeRef} (htag : t.tag path = .ok .map)
    (hkey : t.key = some key) (hvalue : t.value = some value) :
    expandType c expanding head path t =
      expandType c expanding ⟨head.id + 1, "key", none⟩ (path.child "key") key
        >>= fun keys => expandType c expanding ⟨head.id + 1 + keys.count, "value", none⟩
          (path.child "value") value >>= fun values => .ok (.map head keys values) := by
  rw [expandType, htag]
  dsimp only [bind, Except.bind]
  generalize t.key = part at hkey
  generalize t.value = other at hvalue
  cases hkey
  cases hvalue
  rfl

end Expanding

end Columnar
