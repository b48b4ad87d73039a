import Columnar.Proofs.Outcome
import Columnar.Schema.Compile

/-! # Regular column trees

    What every compiled tree has in common, whatever the catalog: columns
    are numbered in pre-order, the fields of a struct have different names and
    an accessor each, element, key and value columns have their fixed names,
    average sizes are positive and decimals have a possible precision.

    The property is stated by recursion on the tree, and `compile_regular`
    follows the recursion of compiling.  Whatever depends on the shape of a
    compiled tree is derived from it. -/

namespace Columnar

/-! ### The property -/

/-- Decimals have a precision and a scale that a column may have. -/
def PrimitiveKind.Valid : PrimitiveKind → Prop
  | .decimal precision scale => validDecimal precision scale = true
  | _ => True

namespace Column

mutual

/-- The tree is one that compiling can give for the column of its head. -/
def Regular : Column → Prop
  | .primitive _ kind => kind.Valid
  | .struct head _ children => RegularFrom (head.id + 1) children
  | .list head averageSize element =>
    averageSize ≠ 0 ∧ element.head = ⟨head.id + 1, "element", none⟩ ∧ Regular element
  | .map head key value =>
    key.head = ⟨head.id + 1, "key", none⟩ ∧ Regular key ∧
      value.head = ⟨head.id + 1 + key.count, "value", none⟩ ∧ Regular value

/-- The trees are those of the fields of a struct, the first one with the given number. -/
def RegularFrom (next : ColumnId) : List Column → Prop
  | [] => True
  | c :: rest =>
    (c.id = next ∧ c.accessor.isSome ∧ ∀ d ∈ rest, d.name ≠ c.name) ∧
      Regular c ∧ RegularFrom (next + c.count) rest

end

/-! ### Parts of collections -/

variable {head : ColumnHead}

/-- The element column comes right behind its list column. -/
theorem Regular.element {averageSize : UInt32} {element : Column}
    (h : (list head averageSize element).Regular) :
    element.id = head.id + 1 ∧ element.Regular := by
  obtain ⟨-, hhead, hr⟩ := h
  exact ⟨by rw [id, hhead], hr⟩

theorem Regular.key {key value : Column} (h : (map head key value).Regular) :
    key.id = head.id + 1 ∧ key.Regular := by
  obtain ⟨hhead, hr, -⟩ := h
  exact ⟨by rw [id, hhead], hr⟩

/-- The value column comes behind the whole tree of the key column. -/
theorem Regular.value {key value : Column} (h : (map head key value).Regular) :
    value.id = key.id + key.count ∧ value.Regular := by
  obtain ⟨hkey, -, hvalue, hr⟩ := h
  exact ⟨by rw [id, id, hkey, hvalue], hr⟩

end Column

/-! ### Numbers -/

theorem Column.count_pos (c : Column) : 0 < c.count := by
  cases c <;> simp [Column.count]

mutual

/-- The numbers of a tree's columns are consecutive in pre-order. -/
theorem Column.preorder_ids {c : Column} (h : c.Regular) :
    c.preorder.map Column.id = List.range' c.id c.count := by
  match c with
  | .primitive head kind => rfl
  | .struct head typeName children =>
    rw [Column.preorder, List.map_cons, Column.preorderChildren_ids h, Column.count]
    rfl
  | .list head averageSize element =>
    obtain ⟨hid, hr⟩ := h.element
    rw [Column.preorder, List.map_cons, Column.preorder_ids hr, hid, Column.count]
    rfl
  | .map head key value =>
    obtain ⟨hkid, hkr⟩ := h.key
    obtain ⟨hvid, hvr⟩ := h.value
    -- the range of the values begins where that of the keys ends
    rw [Column.preorder, List.map_cons, List.map_append, Column.preorder_ids hkr,
      Column.preorder_ids hvr, hvid, hkid, List.range'_append_1, Column.count]
    rfl

theorem Column.preorderChildren_ids {next : ColumnId} {columns : List Column}
    (h : RegularFrom next columns) :
    (preorderChildren columns).map Column.id = List.range' next (countChildren columns) := by
  match columns with
  | [] => rfl
  | c :: rest =>
    obtain ⟨⟨rfl, -, -⟩, hc, hrest⟩ := h
    rw [preorderChildren, List.map_append, Column.preorder_ids hc,
      Column.preorderChildren_ids hrest, countChildren, List.range'_append_1]

end

/-! ### Compiled trees -/

/-- Only the tag of decimals stands for a kind with precision and scale. -/
theorem KindTag.valid_of_parse? {written : String} {kind : PrimitiveKind}
    (h : KindTag.parse? written = some (.scalar kind)) : kind.Valid := by
  obtain ⟨before, after, htable, -⟩ := List.lookup_eq_some_iff.1 h
  have hmem : ((Text.trim written).map Char.toLower, KindTag.scalar kind) ∈ KindTag.table := by
    simp [htable]
  -- the table has no entry for a decimal of certain precision and scale
  have hall : ∀ e ∈ KindTag.table, ∀ precision scale,
      e.2 ≠ .scalar (.decimal precision scale) := by simp [KindTag.table]
  cases kind with
  | decimal precision scale => exact absurd rfl (hall _ hmem precision scale)
  | _ => trivial

theorem TypeRef.parse?_of_tag {t : TypeRef} {path : Path} {tag : KindTag}
    (h : t.tag path = .ok tag) : KindTag.parse? t.kind = some tag := by
  unfold TypeRef.tag at h
  split at h
  · cases h
  · next hp =>
    split at h
    · cases h
    · cases h; exact hp

mutual

theorem expandStruct_regular {c : Catalog} {expanding : List String} {head : ColumnHead}
    {path : Path} {typeName : String} {column : Column}
    (h : expandStruct c expanding head path typeName = .ok column) :
    ∃ children, column = .struct head typeName children ∧ column.Regular := by
  rw [expandStruct] at h
  split at h
  · cases h
  · split at h
    · cases h
    -- the type is described and not being expanded: only then there is a tree
    · obtain ⟨children, hc, h⟩ := exists_of_bind_eq_ok h
      cases h
      exact ⟨children, rfl, (expandFields_regular hc).2⟩
termination_by (c.remaining expanding, 0)
decreasing_by exact Prod.Lex.left _ _ (Catalog.remaining_lt ‹_› ‹_›)

theorem expandFields_regular {c : Catalog} {expanding : List String} {next : ColumnId}
    {path : Path} {typeName : String} {seen : List String} {fields : List FieldDescriptor}
    {columns : List Column}
    (h : expandFields c expanding next path typeName seen fields = .ok columns) :
    (∀ d ∈ columns, d.name ∉ seen) ∧ Column.RegularFrom next columns := by
  match fields with
  | [] =>
    rw [expandFields] at h
    cases h
    exact ⟨by simp, trivial⟩
  | f :: rest =>
    rw [expandFields] at h
    split at h
    · cases h
    · next hf =>
      obtain ⟨column, hcol, h⟩ := exists_of_bind_eq_ok h
      obtain ⟨columns, hcols, h⟩ := exists_of_bind_eq_ok h
      cases h
      obtain ⟨hhead, hreg⟩ := expandType_regular hcol
      obtain ⟨hseen, hrest⟩ := expandFields_regular hcols
      -- no later field has a name seen by then, and this field's name is one of those
      have hname : column.name = f.name := by simp [Column.name, hhead]
      refine ⟨?_, ⟨by simp [Column.id, hhead], by simp [Column.accessor, hhead], ?_⟩, hreg, hrest⟩
      · intro d hd
        rcases List.mem_cons.1 hd with rfl | hd
        · exact hname ▸ hf
        · exact fun hs => hseen d hd (by simp [hs])
      · intro d hd heq
        exact hseen d hd (by simp [heq, hname])
termination_by (c.remaining expanding, sizeOf fields)
decreasing_by
  · exact Prod.Lex.right _ (FieldDescriptor.sizeOf_type_lt f rest)
  · exact Prod.Lex.right _ (by rw [List.cons.sizeOf_spec]; omega)

theorem expandType_regular {c : Catalog} {expanding : List String} {head : ColumnHead}
    {path : Path} {type : TypeRef} {column : Column}
    (h : expandType c expanding head path type = .ok column) :
    column.head = head ∧ column.Regular := by
  rw [expandType] at h
  obtain ⟨tag, htag, h⟩ := exists_of_bind_eq_ok h
  -- the tag decides which parts of the reference are expanded
  cases tag with
  | scalar kind =>
    cases h
    exact ⟨rfl, KindTag.valid_of_parse? (TypeRef.parse?_of_tag htag)⟩
  | decimal =>
    simp only at h
    split at h
    · next hv => cases h; exact ⟨rfl, hv⟩
    · cases h
  | struct =>
    simp only at h
    split at h
    · cases h
    · obtain ⟨children, rfl, hreg⟩ := expandStruct_regular h
      exact ⟨rfl, hreg⟩
  | list =>
    simp only at h
    split at h
    · cases h
    · next element he =>
      split at h
      · cases h
      · next hsize =>
        obtain ⟨column, hcol, h⟩ := exists_of_bind_eq_ok h
        cases h
        obtain ⟨hhead, hreg⟩ := expandType_regular hcol
        refine ⟨rfl, ?_, hhead, hreg⟩
        -- an average size that is not written counts as one
        cases hs : type.averageSize with
        | none => simp
        | some n => simpa [hs] using hsize
  | map =>
    simp only at h
    split at h
    · cases h
    · cases h
    · obtain ⟨key, hkey, h⟩ := exists_of_bind_eq_ok h
      obtain ⟨value, hvalue, h⟩ := exists_of_bind_eq_ok h
      cases h
      obtain ⟨hkhead, hkreg⟩ := expandType_regular hkey
      obtain ⟨hvhead, hvreg⟩ := expandType_regular hvalue
      exact ⟨rfl, hkhead, hkreg, hvhead, hvreg⟩
termination_by (c.remaining expanding, sizeOf type)
decreasing_by
  · exact Prod.Lex.right _ (TypeRef.sizeOf_pos type)
  · exact Prod.Lex.right _ (TypeRef.sizeOf_lt_of_element ‹_›)
  · exact Prod.Lex.right _ (TypeRef.sizeOf_lt_of_key ‹_›)
  · exact Prod.Lex.right _ (TypeRef.sizeOf_lt_of_value ‹_›)

end

/-- A compiled tree is that of a struct with number 0, named like the row type. -/
theorem compile_regular {c : Catalog} {root : Column} (h : compile c = .ok root) :
    ∃ children, root = .struct ⟨0, c.root, none⟩ c.root children ∧ root.Regular := by
  unfold compile at h
  split at h
  · cases h
  · exact expandStruct_regular h

end Columnar
