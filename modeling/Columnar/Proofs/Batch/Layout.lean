import Columnar.Batch.Basic
import Columnar.Proofs.Plan.Shape
import Columnar.Proofs.Schema.Subtree

/-! # Layout of staged values

    Values written to a column are scattered over the vectors of the column
    and of those below it.  `Column.spread` says which value goes where: every
    column of the tree, in pre-order, with the values of its slots.  A struct
    has the same slots as its fields, so an absent struct has absent fields; the
    slots of an element column are the elements of all lists, one list after
    the other, and absent lists have none.

    `Column.vector` is the vector of a column with given slots, and adding a
    slot to a vector is adding a value at the end (`vector_snoc_*`). -/

namespace Columnar

/-! ### Parts of staged values -/

namespace Staged

def present : Staged → Bool
  | .null => false
  | _ => true

def scalar? : Staged → Option Scalar
  | .scalar s => some s
  | _ => none

def fields : Staged → List Staged
  | .struct values => values
  | _ => []

def items : Staged → List Staged
  | .list items => items
  | _ => []

def entries : Staged → List (Staged × Staged)
  | .map entries => entries
  | _ => []

end Staged

namespace Column

mutual

/-- The column stores values of that form; map keys are never absent. -/
def Admits : Column → Staged → Prop
  | _, .null => True
  | .primitive _ kind, .scalar s => kind.storage.accepts s
  | .struct _ _ children, .struct values => AdmitsAll children values
  | .list _ _ element, .list items => ∀ v ∈ items, Admits element v
  | .map _ key value, .map entries =>
    ∀ e ∈ entries, e.1.present ∧ Admits key e.1 ∧ Admits value e.2
  | _, _ => False

/-- The columns store the values, one for each. -/
def AdmitsAll : List Column → List Staged → Prop
  | [], [] => True
  | c :: rest, v :: values => Admits c v ∧ AdmitsAll rest values
  | _, _ => False

end

theorem admits_null (c : Column) : c.Admits .null := by
  cases c <;> simp [Admits]

/-- The fields of admitted structs are admitted; absent structs have none. -/
theorem admits_fields {head : ColumnHead} {typeName : String} {children : List Column}
    {values : List Staged} (h : ∀ v ∈ values, (struct head typeName children).Admits v) :
    ∀ row ∈ values.map Staged.fields, row = [] ∨ AdmitsAll children row := by
  intro row hrow
  obtain ⟨v, hv, rfl⟩ := List.mem_map.1 hrow
  -- what is not a struct value is absent
  cases v with
  | struct values => exact .inr (h _ hv)
  | _ => exact .inl rfl

theorem admits_items {head : ColumnHead} {averageSize : UInt32} {element : Column}
    {values : List Staged} (h : ∀ v ∈ values, (list head averageSize element).Admits v) :
    ∀ item ∈ values.flatMap Staged.items, element.Admits item := by
  intro item hitem
  obtain ⟨v, hv, hitem⟩ := List.mem_flatMap.1 hitem
  cases v with
  | list items => exact h _ hv item hitem
  | _ => cases hitem

theorem admits_entries {head : ColumnHead} {key value : Column} {values : List Staged}
    (h : ∀ v ∈ values, (map head key value).Admits v) :
    ∀ e ∈ values.flatMap Staged.entries,
      e.1.present ∧ key.Admits e.1 ∧ value.Admits e.2 := by
  intro e he
  obtain ⟨v, hv, he⟩ := List.mem_flatMap.1 he
  cases v with
  | map entries => exact h _ hv e he
  | _ => cases he

theorem admits_keys {head : ColumnHead} {key value : Column} {values : List Staged}
    (h : ∀ v ∈ values, (map head key value).Admits v) :
    ∀ k ∈ (values.flatMap Staged.entries).map (·.1), k.present ∧ key.Admits k := by
  intro k hk
  obtain ⟨e, he, rfl⟩ := List.mem_map.1 hk
  exact ⟨(admits_entries h e he).1, (admits_entries h e he).2.1⟩

theorem admits_values {head : ColumnHead} {key value : Column} {values : List Staged}
    (h : ∀ v ∈ values, (map head key value).Admits v) :
    ∀ v ∈ (values.flatMap Staged.entries).map (·.2), value.Admits v := by
  intro v hv
  obtain ⟨e, he, rfl⟩ := List.mem_map.1 hv
  exact (admits_entries h e he).2.2

/-- The first fields of rows are admitted, and so are the others. -/
theorem admits_rows {c : Column} {rest : List Column} {rows : List (List Staged)}
    (h : ∀ row ∈ rows, row = [] ∨ AdmitsAll (c :: rest) row) :
    (∀ v ∈ rows.map (·.headD .null), c.Admits v) ∧
      ∀ row ∈ rows.map List.tail, row = [] ∨ AdmitsAll rest row := by
  constructor
  · intro v hv
    obtain ⟨row, hrow, rfl⟩ := List.mem_map.1 hv
    rcases h row hrow with rfl | hadmits
    · exact admits_null c
    · cases row with
      | nil => exact hadmits.elim
      | cons v row => exact hadmits.1
  · intro tail htail
    obtain ⟨row, hrow, rfl⟩ := List.mem_map.1 htail
    rcases h row hrow with rfl | hadmits
    · exact .inl rfl
    · cases row with
      | nil => exact hadmits.elim
      | cons v row => exact .inr hadmits.2

/-! ### Slots -/

mutual

/-- The columns of the tree with the values of their slots, in pre-order. -/
def spread (c : Column) (values : List Staged) : List (Column × List Staged) :=
  match c with
  | .primitive head kind => [(.primitive head kind, values)]
  | .struct head typeName children =>
    (.struct head typeName children, values) :: spreadAll children (values.map Staged.fields)
  | .list head averageSize element =>
    (.list head averageSize element, values) :: spread element (values.flatMap Staged.items)
  | .map head key value =>
    (.map head key value, values)
      :: (spread key ((values.flatMap Staged.entries).map (·.1))
        ++ spread value ((values.flatMap Staged.entries).map (·.2)))

/-- The same for the fields of rows or struct values; a row without fields counts as absent. -/
def spreadAll (columns : List Column) (rows : List (List Staged)) : List (Column × List Staged) :=
  match columns with
  | [] => []
  | c :: rest => spread c (rows.map (·.headD .null)) ++ spreadAll rest (rows.map List.tail)

end

theorem mem_spread_self (c : Column) (values : List Staged) :
    (c, values) ∈ c.spread values := by
  cases c <;> simp [spread]

/-- Every field has a slot for each row. -/
theorem exists_mem_spreadAll {columns : List Column} {d : Column} (hd : d ∈ columns)
    (rows : List (List Staged)) :
    ∃ values, (d, values) ∈ spreadAll columns rows ∧ values.length = rows.length := by
  induction columns generalizing rows with
  | nil => cases hd
  | cons c rest ih =>
    rcases List.mem_cons.1 hd with rfl | hd
    · exact ⟨_, List.mem_append_left _ (mem_spread_self d _), by simp⟩
    · obtain ⟨values, hmem, hlength⟩ := ih hd (rows.map List.tail)
      exact ⟨values, List.mem_append_right _ hmem, by simpa using hlength⟩

mutual

/-- What is below a column of the tree is in the tree. -/
theorem spread_subset {c : Column} {values : List Staged} {e : Column × List Staged}
    (he : e ∈ c.spread values) : e.1.spread e.2 ⊆ c.spread values := by
  match c with
  | .primitive head kind =>
    rw [List.mem_singleton.1 he]
    exact List.Subset.refl _
  | .struct head typeName children =>
    rcases List.mem_cons.1 he with rfl | he
    · exact List.Subset.refl _
    · exact List.subset_cons_of_subset _ (spreadAll_subset he)
  | .list head averageSize element =>
    rcases List.mem_cons.1 he with rfl | he
    · exact List.Subset.refl _
    · exact List.subset_cons_of_subset _ (spread_subset he)
  | .map head key value =>
    rcases List.mem_cons.1 he with rfl | he
    · exact List.Subset.refl _
    · apply List.subset_cons_of_subset
      rcases List.mem_append.1 he with he | he
      · exact List.subset_append_of_subset_left _ (spread_subset he)
      · exact List.subset_append_of_subset_right _ (spread_subset he)

theorem spreadAll_subset {columns : List Column} {rows : List (List Staged)}
    {e : Column × List Staged} (he : e ∈ spreadAll columns rows) :
    e.1.spread e.2 ⊆ spreadAll columns rows := by
  match columns with
  | [] => cases he
  | c :: rest =>
    rcases List.mem_append.1 he with he | he
    · exact List.subset_append_of_subset_left _ (spread_subset he)
    · exact List.subset_append_of_subset_right _ (spreadAll_subset he)

end

mutual

/-- No collection column of the tree has more elements than offsets can count. -/
def Bounded : Column → List Staged → Prop
  | .primitive _ _, _ => True
  | .struct _ _ children, values => BoundedAll children (values.map Staged.fields)
  | .list _ _ element, values =>
    (values.flatMap Staged.items).length ≤ maxElements ∧
      Bounded element (values.flatMap Staged.items)
  | .map _ key value, values =>
    (values.flatMap Staged.entries).length ≤ maxElements ∧
      Bounded key ((values.flatMap Staged.entries).map (·.1)) ∧
      Bounded value ((values.flatMap Staged.entries).map (·.2))

def BoundedAll : List Column → List (List Staged) → Prop
  | [], _ => True
  | c :: rest, rows =>
    Bounded c (rows.map (·.headD .null)) ∧ BoundedAll rest (rows.map List.tail)

end

end Column

/-! ### Vectors -/

/-- Which slots are present. -/
def presence (values : List Staged) : Array Bool :=
  (values.map Staged.present).toArray

theorem presence_eq_false_iff {values : List Staged} {i : Nat} :
    (presence values)[i]? = some false ↔ values[i]? = some .null := by
  -- a value is absent only if it is null
  have habsent : ∀ v : Staged, v.present = false ↔ v = .null := by
    intro v
    cases v <;> simp [Staged.present]
  simp [presence, habsent]

/-- A slot begins behind the parts of all slots before it; the last offset is the number of all
    parts. -/
def slotOffsets {α : Type} (parts : Staged → List α) (values : List Staged) : Array Nat :=
  ((List.range (values.length + 1)).map fun i => ((values.take i).flatMap parts).length).toArray

namespace Column

/-- The vector of a column with these slots. -/
def vector (c : Column) (values : List Staged) : ColumnVector :=
  match c with
  | .primitive _ kind => .leaf kind.storage (values.map Staged.scalar?).toArray
  | .struct _ _ _ => .struct (presence values)
  | .list _ _ _ => .list (slotOffsets Staged.items values) (presence values)
  | .map _ _ _ => .map (slotOffsets Staged.entries values) (presence values)

/-- The vectors of the tree of a column with these slots. -/
def vectors (c : Column) (values : List Staged) : List ColumnVector :=
  (c.spread values).map fun e => e.1.vector e.2

/-- The vectors of the trees of all fields of these rows. -/
def vectorsAll (columns : List Column) (rows : List (List Staged)) : List ColumnVector :=
  (spreadAll columns rows).map fun e => e.1.vector e.2

@[simp] theorem vectors_primitive (head : ColumnHead) (kind : PrimitiveKind)
    (values : List Staged) :
    (Column.primitive head kind).vectors values = [(Column.primitive head kind).vector values] :=
  rfl

@[simp] theorem vectors_struct (head : ColumnHead) (typeName : String) (children : List Column)
    (values : List Staged) :
    (Column.struct head typeName children).vectors values =
      (Column.struct head typeName children).vector values
        :: vectorsAll children (values.map Staged.fields) :=
  rfl

@[simp] theorem vectors_list (head : ColumnHead) (averageSize : UInt32) (element : Column)
    (values : List Staged) :
    (Column.list head averageSize element).vectors values =
      (Column.list head averageSize element).vector values
        :: element.vectors (values.flatMap Staged.items) :=
  rfl

@[simp] theorem vectors_map (head : ColumnHead) (key value : Column) (values : List Staged) :
    (Column.map head key value).vectors values =
      (Column.map head key value).vector values
        :: (key.vectors ((values.flatMap Staged.entries).map (·.1))
          ++ value.vectors ((values.flatMap Staged.entries).map (·.2))) := by
  simp [vectors, spread]

@[simp] theorem vectorsAll_nil (rows : List (List Staged)) : vectorsAll [] rows = [] := rfl

@[simp] theorem vectorsAll_cons (c : Column) (rest : List Column) (rows : List (List Staged)) :
    vectorsAll (c :: rest) rows =
      c.vectors (rows.map (·.headD .null)) ++ vectorsAll rest (rows.map List.tail) := by
  simp [vectorsAll, vectors, spreadAll]

/-- The first vector of a tree is that of its root. -/
theorem vectors_eq_cons (c : Column) (values : List Staged) :
    ∃ below, c.vectors values = c.vector values :: below := by
  cases c <;> simp

mutual

theorem spread_columns (c : Column) (values : List Staged) :
    (c.spread values).map (·.1) = c.preorder := by
  match c with
  | .primitive head kind => rfl
  | .struct head typeName children =>
    simp [spread, preorder, spreadAll_columns children]
  | .list head averageSize element =>
    simp [spread, preorder, spread_columns element]
  | .map head key value =>
    simp [spread, preorder, spread_columns key, spread_columns value]

theorem spreadAll_columns (columns : List Column) (rows : List (List Staged)) :
    (spreadAll columns rows).map (·.1) = preorderChildren columns := by
  match columns with
  | [] => rfl
  | c :: rest => simp [spreadAll, preorderChildren, spread_columns c, spreadAll_columns rest]

end

@[simp] theorem length_vectors (c : Column) (values : List Staged) :
    (c.vectors values).length = c.count := by
  rw [← length_preorder, ← spread_columns c values]
  simp [vectors]

/-- What stands behind the vectors of a tree begins with the number after those of the tree. -/
theorem length_append_vectors {pre : List ColumnVector} {c : Column} (hp : pre.length = c.id)
    (values : List Staged) : (pre ++ c.vectors values).length = c.id + c.count := by
  rw [List.length_append, hp, length_vectors]

theorem length_snoc {pre : List ColumnVector} {column : ColumnId} (hp : pre.length = column)
    (x : ColumnVector) : (pre ++ [x]).length = column + 1 := by
  rw [List.length_append, hp]
  rfl

@[simp] theorem size_vector (c : Column) (values : List Staged) :
    (c.vector values).size = values.length := by
  cases c <;> simp [vector, ColumnVector.size, presence, slotOffsets]

end Column

/-! ### Adding a slot -/

@[simp] theorem presence_append (values : List Staged) (v : Staged) :
    presence (values ++ [v]) = (presence values).push v.present := by
  simp [presence]

theorem slotOffsets_append {α : Type} (parts : Staged → List α) (values : List Staged)
    (v : Staged) :
    slotOffsets parts (values ++ [v]) =
      (slotOffsets parts values).push ((values ++ [v]).flatMap parts).length := by
  -- an offset depends on the slots before it only
  have htake : ∀ i ∈ List.range (values.length + 1),
      ((values ++ [v]).take i).flatMap parts = (values.take i).flatMap parts := by
    intro i hi
    have hle : i ≤ values.length := by simpa [Nat.lt_succ_iff] using hi
    rw [List.take_append_of_le_length hle]
  -- the new last offset counts the parts of all slots
  have hlast : (values ++ [v]).take (values.length + 1) = values ++ [v] :=
    List.take_of_length_le (by simp)
  unfold slotOffsets
  rw [List.length_append, List.length_singleton, List.range_succ, List.map_append]
  simp only [List.map_cons, List.map_nil, hlast]
  rw [List.map_congr_left fun i hi => congrArg List.length (htake i hi)]
  simp

theorem back?_slotOffsets {α : Type} (parts : Staged → List α) (values : List Staged) :
    (slotOffsets parts values).back? = some (values.flatMap parts).length := by
  simp [slotOffsets, List.range_succ, -List.length_flatMap]

namespace Column

theorem vector_snoc_null (c : Column) (values : List Staged) :
    (c.vector values).appendNull = c.vector (values ++ [.null]) := by
  cases c with
  | primitive head kind => simp [vector, ColumnVector.appendNull, Staged.scalar?]
  | struct head typeName children => simp [vector, ColumnVector.appendNull, Staged.present]
  | list head averageSize element =>
    simp [vector, ColumnVector.appendNull, slotOffsets_append, back?_slotOffsets, Staged.items,
      Staged.present]
  | map head key value =>
    simp [vector, ColumnVector.appendNull, slotOffsets_append, back?_slotOffsets, Staged.entries,
      Staged.present]

theorem vector_snoc_scalar (head : ColumnHead) {kind : PrimitiveKind} {s : Scalar}
    (hs : kind.storage.accepts s) (values : List Staged) :
    ((Column.primitive head kind).vector values).appendScalar? s =
      some ((Column.primitive head kind).vector (values ++ [.scalar s])) := by
  simp [vector, ColumnVector.appendScalar?, hs, Staged.scalar?]

theorem vector_snoc_struct (head : ColumnHead) (typeName : String) (children : List Column)
    (values fields : List Staged) :
    ((Column.struct head typeName children).vector values).markPresent? =
      some ((Column.struct head typeName children).vector (values ++ [.struct fields])) := by
  simp [vector, ColumnVector.markPresent?, Staged.present]

theorem vector_snoc_list (head : ColumnHead) (averageSize : UInt32) (element : Column)
    (values items : List Staged) :
    ((Column.list head averageSize element).vector values).close?
        (values.flatMap Staged.items ++ items).length =
      some ((Column.list head averageSize element).vector (values ++ [.list items])) := by
  simp [vector, ColumnVector.close?, slotOffsets_append, Staged.items, Staged.present]

theorem vector_snoc_map (head : ColumnHead) (key value : Column) (values : List Staged)
    (entries : List (Staged × Staged)) :
    ((Column.map head key value).vector values).close?
        (values.flatMap Staged.entries ++ entries).length =
      some ((Column.map head key value).vector (values ++ [.map entries])) := by
  simp [vector, ColumnVector.close?, slotOffsets_append, Staged.entries, Staged.present]

/-! ### Within bounds -/

mutual

theorem bounded_nil (c : Column) : c.Bounded [] := by
  match c with
  | .primitive head kind => trivial
  | .struct head typeName children => exact boundedAll_nil children
  | .list head averageSize element => exact ⟨Nat.zero_le _, bounded_nil element⟩
  | .map head key value => exact ⟨Nat.zero_le _, bounded_nil key, bounded_nil value⟩

theorem boundedAll_nil (columns : List Column) : BoundedAll columns [] := by
  match columns with
  | [] => trivial
  | c :: rest => exact ⟨bounded_nil c, boundedAll_nil rest⟩

end

mutual

theorem Bounded.of_append {c : Column} {values : List Staged} (more : List Staged)
    (h : c.Bounded (values ++ more)) : c.Bounded values := by
  -- without the later values there are only fewer parts
  match c with
  | .primitive head kind => trivial
  | .struct head typeName children =>
    simp only [Bounded, List.map_append] at h ⊢
    exact BoundedAll.of_append _ h
  | .list head averageSize element =>
    simp only [Bounded, List.flatMap_append, List.length_append] at h ⊢
    exact ⟨by omega, Bounded.of_append _ h.2⟩
  | .map head key value =>
    simp only [Bounded, List.flatMap_append, List.map_append, List.length_append] at h ⊢
    exact ⟨by omega, Bounded.of_append _ h.2.1, Bounded.of_append _ h.2.2⟩

theorem BoundedAll.of_append {columns : List Column} {rows : List (List Staged)}
    (more : List (List Staged)) (h : BoundedAll columns (rows ++ more)) :
    BoundedAll columns rows := by
  match columns with
  | [] => trivial
  | c :: rest =>
    simp only [BoundedAll, List.map_append] at h ⊢
    exact ⟨Bounded.of_append _ h.1, BoundedAll.of_append _ h.2⟩

end

end Column

/-! ### Whole batches -/

/-- The batch of a list of vectors. -/
def Batch.of (vectors : List ColumnVector) (rows : Nat) : Batch := ⟨vectors.toArray, rows⟩

/-- The batch that holds these rows: the vector of the root has no slots. -/
def Specification.holding (s : Specification) (rows : List (List Staged)) : Batch :=
  .of (s.root.vector [] :: Column.vectorsAll s.root.children rows) rows.length

namespace Column

@[simp] theorem vector_nil (c : Column) : c.vector [] = ColumnVector.empty c := by
  cases c <;> rfl

mutual

/-- Without any slots the vectors of a tree are empty ones, in pre-order. -/
theorem vectors_nil (c : Column) : c.vectors [] = c.preorder.map ColumnVector.empty := by
  match c with
  | .primitive head kind => rfl
  | .struct head typeName children =>
    simp [preorder, vectorsAll_nil_rows children]
  | .list head averageSize element =>
    simp [preorder, vectors_nil element]
  | .map head key value =>
    simp [preorder, vectors_nil key, vectors_nil value]

theorem vectorsAll_nil_rows (columns : List Column) :
    vectorsAll columns [] = (preorderChildren columns).map ColumnVector.empty := by
  match columns with
  | [] => rfl
  | c :: rest => simp [preorderChildren, vectors_nil c, vectorsAll_nil_rows rest]

end

end Column

/-! ### Finding a column -/

/-- The vector with the number of a column is the one with the column's slots. -/
theorem Specification.WellFormed.getElem?_holding {s : Specification} (hs : s.WellFormed)
    {rows : List (List Staged)} {e : Column × List Staged}
    (he : e ∈ Column.spreadAll s.root.children rows) :
    (s.holding rows).vectors[e.1.id]? = some (e.1.vector e.2) := by
  obtain ⟨k, hk⟩ := List.getElem?_of_mem he
  -- the root has number 0, so the column at position `k` below it has number `k + 1`
  have hid : e.1.id = k + 1 := by
    have hids := Column.preorderChildren_ids hs.regular
    rw [← Column.spreadAll_columns s.root.children rows, List.map_map] at hids
    have hlook : (List.range' 1 (Column.countChildren s.root.children))[k]? = some e.1.id := by
      rw [← hids, List.getElem?_map, hk]
      rfl
    obtain ⟨hlt, hget⟩ := List.getElem?_eq_some_iff.1 hlook
    rw [List.getElem_range'] at hget
    rw [← hget, Nat.one_mul, Nat.add_comm]
  rw [hid]
  simp [Specification.holding, Batch.of, Column.vectorsAll, hk]

theorem Specification.WellFormed.slotCount_holding {s : Specification} (hs : s.WellFormed)
    {rows : List (List Staged)} {e : Column × List Staged}
    (he : e ∈ Column.spreadAll s.root.children rows) :
    (s.holding rows).slotCount e.1.id = e.2.length := by
  unfold Batch.slotCount
  rw [hs.getElem?_holding he]
  exact Column.size_vector e.1 e.2

end Columnar
