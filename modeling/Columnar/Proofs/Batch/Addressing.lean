import Columnar.Handle
import Columnar.Proofs.Batch.Layout
import Columnar.Proofs.Plan.Agreement

/-! # Vectors and the numbers of columns

    The vectors of a new batch stand in the order of the columns, beginning
    with that of the root, while operations and draining address the vector of
    a column by the column's number.  Both agree for the root of a compiled
    tree, which has number zero.  A struct within the tree keeps its number, and
    so do the columns below it: for such a root every number leads past the
    vector that was made for the column, and the last one past all vectors. -/

namespace Columnar

/-! ### Where vectors stand -/

section Vectors

variable {root column : Column}

/-- The vector made for a column stands as far behind that of the root as the numbers differ. -/
theorem Batch.getElem?_empty (h : root.Regular) (hcolumn : column ∈ root.preorder) :
    ∃ i, column.id = root.id + i ∧
      (Batch.empty root).vectors[i]? = some (.empty column) := by
  obtain ⟨i, hid, hi⟩ := h.getElem?_preorder hcolumn
  refine ⟨i, hid, ?_⟩
  rw [Batch.empty, List.getElem?_toArray, List.getElem?_map, hi]
  rfl

theorem Batch.getElem?_empty_eq_none {id : ColumnId} (h : root.count ≤ id) :
    (Batch.empty root).vectors[id]? = none := by
  rw [Batch.empty, List.getElem?_toArray, List.getElem?_eq_none]
  rwa [List.length_map, Column.length_preorder]

/-- The last column of a tree has the last number. -/
theorem Column.Regular.exists_last (h : root.Regular) :
    ∃ column ∈ root.preorder, column.id + 1 = root.id + root.count := by
  have hpos := root.count_pos
  have hlast : root.id + (root.count - 1) ∈ root.preorder.map Column.id := by
    rw [Column.preorder_ids h, List.mem_range'_1]
    exact ⟨Nat.le_add_right _ _, Nat.add_lt_add_left (Nat.sub_lt hpos Nat.one_pos) _⟩
  obtain ⟨column, hmem, hid⟩ := List.mem_map.1 hlast
  exact ⟨column, hmem, by rw [hid, Nat.add_assoc, Nat.sub_add_cancel hpos]⟩

/-- A column of a compiled tree with number zero is the root of the tree. -/
theorem Column.Regular.eq_of_id_eq {tree : Column} (h : tree.Regular) (htree : tree.id = 0)
    (hroot : root ∈ tree.preorder) (hid : root.id = 0) : root = tree := by
  have hmem : tree ∈ tree.preorder := by
    rw [preorder_eq_cons]
    exact List.mem_cons_self
  exact h.eq_of_id hroot hmem (hid.trans htree.symm)

end Vectors

/-! ### Which specifications address their own vectors -/

/-- Every column of the specification finds the vector made for it under its own number. -/
def Specification.AddressesOwn (s : Specification) : Prop :=
  ∀ column ∈ s.root.preorder,
    (Batch.empty s.root).vectors[column.id]? = some (.empty column)

theorem Specification.addressesOwn_iff {s : Specification} (h : s.root.Regular) :
    s.AddressesOwn ↔ s.root.id = 0 := by
  constructor
  · intro haddresses
    by_contra hid
    -- the number of the last column is too great for it to have a vector at all
    obtain ⟨column, hmem, hlast⟩ := h.exists_last
    have hcount : s.root.count ≤ column.id := by
      have hlt : s.root.count < s.root.id + s.root.count :=
        Nat.lt_add_of_pos_left (Nat.pos_of_ne_zero hid)
      rw [← hlast] at hlt
      exact Nat.le_of_lt_succ hlt
    have hnone := Batch.getElem?_empty_eq_none hcount
    rw [haddresses column hmem] at hnone
    cases hnone
  · intro hid column hcolumn
    obtain ⟨i, hi, hget⟩ := Batch.getElem?_empty h hcolumn
    rw [hid, Nat.zero_add] at hi
    rwa [hi]

/-- The vectors made for a specification are those of its columns, shifted by the number of its
    root, so columns address their own vectors just if the whole compiled tree is written. -/
theorem addresses_own_iff_whole_tree {c : Catalog} {tree root : Column}
    (hcompile : compile c = .ok tree) (hroot : root ∈ tree.preorder) {owner : Owner}
    {writerId : WriterId} {s : Specification} (hs : synthesize root owner writerId = .ok s) :
    (∀ column ∈ s.root.preorder, ∃ i, column.id = s.root.id + i ∧
      (Batch.empty s.root).vectors[i]? = some (.empty column)) ∧
    (s.AddressesOwn ↔ root = tree) := by
  obtain ⟨_, htree, hregular⟩ := compile_regular hcompile
  obtain rfl := (synthesize_eq_ok hs).1
  have hzero : tree.id = 0 := by rw [htree]; rfl
  have hr := hregular.of_mem_preorder hroot
  refine ⟨fun column hcolumn => Batch.getElem?_empty hr hcolumn, ?_⟩
  rw [Specification.addressesOwn_iff hr]
  exact ⟨hregular.eq_of_id_eq hzero hroot, fun heq => heq ▸ hzero⟩

/-- Orders address their own vectors; the buyers within them do not. -/
theorem orders_address_own :
    ordersSpecification.AddressesOwn ∧ ¬ buyersSpecification.AddressesOwn := by
  have hroot : ordersSpecification.root ∈ ordersSpecification.root.preorder := by
    simp [ordersSpecification, Column.preorder]
  refine ⟨(addresses_own_iff_whole_tree compile_orders hroot synthesize_orders).2.2 rfl, ?_⟩
  intro haddresses
  have heq := (addresses_own_iff_whole_tree compile_orders buyers_mem synthesize_buyers).2.1
    haddresses
  cases heq

/-- A new handle for buyers. -/
def buyersHandle : WriterHandle where
  specification := buyersSpecification
  rowCapacity := 4
  reserved := [4, 4]
  batch := .empty buyersSpecification.root
  scratch := .fresh 2

/-- The name of a buyer passes staging, but the column of names, number 3, has no vector: there are
    two vectors, which were made for the columns 2 and 3. -/
theorem buyers_refuse_name :
    compile orders = .ok ordersSpecification.root ∧
      buyersSpecification.root ∈ ordersSpecification.root.preorder ∧
      synthesize buyersSpecification.root orders.describe 1 = .ok buyersSpecification ∧
      WriterHandle.create buyersSpecification ⟨4, true⟩ = .ok buyersHandle ∧
      ¬ buyersSpecification.AddressesOwn ∧
      (buyersHandle.append (.ofFields [("name", .ok (.string "Ann"))])).result =
        .error (.vectorMismatch 3 ⟨"buyer", ["name"]⟩) ∧
      (Column.drainAll buyersSpecification.root.children).run.run buyersHandle.batch.vectors =
        (.error (.noVector 3 "name"), buyersHandle.batch.vectors) := by
  refine ⟨compile_orders, buyers_mem, synthesize_buyers, rfl, ?_, rfl, rfl⟩
  intro haddresses
  have hname := haddresses (.primitive ⟨3, "name", "name"⟩ .string)
    (by simp [buyersSpecification, Column.preorder, Column.preorderChildren])
  cases hname

end Columnar
