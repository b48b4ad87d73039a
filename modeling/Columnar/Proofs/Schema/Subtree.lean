import Columnar.Proofs.Schema.Regular

/-! # Subtrees

    Every column of a regular tree is the root of a regular tree itself, only
    that its number need not be zero.  Numbers tell where columns stand: in
    pre-order a column comes as many places behind the root as its number is
    greater. -/

namespace Columnar.Column

/-! ### Children -/

theorem preorder_eq_cons (c : Column) : c.preorder = c :: preorderChildren c.children := by
  cases c <;> simp [preorder, preorderChildren, children]

theorem count_eq_succ (c : Column) : c.count = countChildren c.children + 1 := by
  cases c <;> simp [count, countChildren, children]

theorem sizeOf_head_gt (head : ColumnHead) : 2 < sizeOf head := by
  obtain ⟨id, ⟨name⟩, accessor⟩ := head
  cases accessor <;> simp <;> omega

theorem sizeOf_children_lt (c : Column) : sizeOf c.children < sizeOf c := by
  have hhead := sizeOf_head_gt c.head
  cases c <;> simp only [children, head] at hhead ⊢ <;> simp <;> omega

/-! ### Columns of a tree -/

mutual

theorem length_preorder (c : Column) : c.preorder.length = c.count := by
  rw [preorder_eq_cons, List.length_cons, length_preorderChildren, count_eq_succ]
termination_by sizeOf c
decreasing_by exact sizeOf_children_lt c

theorem length_preorderChildren (columns : List Column) :
    (preorderChildren columns).length = countChildren columns := by
  match columns with
  | [] => rfl
  | c :: rest =>
    rw [preorderChildren, List.length_append, length_preorder, length_preorderChildren,
      countChildren]
termination_by sizeOf columns

end

mutual

theorem Regular.of_mem_preorder {root c : Column} (h : root.Regular) (hc : c ∈ root.preorder) :
    c.Regular := by
  match root with
  | .primitive head kind =>
    rw [List.mem_singleton.1 hc]
    exact h
  | .struct head typeName children =>
    rcases List.mem_cons.1 hc with rfl | hc
    · exact h
    · exact RegularFrom.of_mem_preorder h hc
  | .list head averageSize element =>
    rcases List.mem_cons.1 hc with rfl | hc
    · exact h
    · exact h.element.2.of_mem_preorder hc
  | .map head key value =>
    rcases List.mem_cons.1 hc with rfl | hc
    · exact h
    · rcases List.mem_append.1 hc with hc | hc
      · exact h.key.2.of_mem_preorder hc
      · exact h.value.2.of_mem_preorder hc

theorem RegularFrom.of_mem_preorder {next : ColumnId} {columns : List Column} {c : Column}
    (h : RegularFrom next columns) (hc : c ∈ preorderChildren columns) : c.Regular := by
  match columns with
  | [] => cases hc
  | d :: rest =>
    obtain ⟨-, hd, hrest⟩ := h
    rcases List.mem_append.1 hc with hc | hc
    · exact hd.of_mem_preorder hc
    · exact hrest.of_mem_preorder hc

end

mutual

/-- The columns of a subtree stand together. -/
theorem preorder_isInfix {c d : Column} (h : d ∈ c.preorder) : d.preorder <:+: c.preorder := by
  rw [preorder_eq_cons c, List.mem_cons] at h
  rcases h with rfl | h
  · exact List.infix_refl _
  · rw [preorder_eq_cons c]
    exact List.infix_cons (preorderChildren_isInfix h)
termination_by sizeOf c
decreasing_by exact sizeOf_children_lt c

theorem preorderChildren_isInfix {columns : List Column} {d : Column}
    (h : d ∈ preorderChildren columns) : d.preorder <:+: preorderChildren columns := by
  match columns with
  | [] => cases h
  | c :: rest =>
    rcases List.mem_append.1 h with h | h
    · exact (preorder_isInfix h).trans (List.prefix_append _ _).isInfix
    · exact (preorderChildren_isInfix h).trans (List.suffix_append _ _).isInfix
termination_by sizeOf columns

end

variable {root c : Column}

/-- The number of a column tells its place. -/
theorem Regular.id_of_getElem?_preorder (h : root.Regular) {i : Nat}
    (hi : root.preorder[i]? = some c) : c.id = root.id + i := by
  -- the number of the column is the one at its place among all numbers
  have hid : (root.preorder.map id)[i]? = some c.id := by rw [List.getElem?_map, hi]; rfl
  rw [preorder_ids h, List.getElem?_range'] at hid
  · simpa using hid.symm
  · have hlt := (List.getElem?_eq_some_iff.1 hid).1
    simpa using hlt

/-- A column stands where its number says. -/
theorem Regular.getElem?_preorder (h : root.Regular) (hc : c ∈ root.preorder) :
    ∃ i, c.id = root.id + i ∧ root.preorder[i]? = some c := by
  obtain ⟨i, hi⟩ := List.mem_iff_getElem?.1 hc
  exact ⟨i, h.id_of_getElem?_preorder hi, hi⟩

/-- Columns of a tree that have the same number are the same. -/
theorem Regular.eq_of_id {d : Column} (h : root.Regular) (hc : c ∈ root.preorder)
    (hd : d ∈ root.preorder) (hid : c.id = d.id) : c = d := by
  obtain ⟨i, hi, hget⟩ := h.getElem?_preorder hc
  obtain ⟨j, hj, hget'⟩ := h.getElem?_preorder hd
  obtain rfl : i = j := Nat.add_left_cancel (hi.symm.trans (hid.trans hj))
  exact Option.some.inj (hget.symm.trans hget')

/-- The columns of a tree come in the order of their numbers. -/
theorem Regular.pairwise_preorder (h : root.Regular) :
    root.preorder.Pairwise (·.id < ·.id) := by
  rw [← List.pairwise_map, preorder_ids h]
  exact List.pairwise_lt_range'

/-! ### Numbered trees -/

/-- The columns of the trees have consecutive numbers in pre-order, from the given one on. -/
def Numbered (next : ColumnId) (columns : List Column) : Prop :=
  (preorderChildren columns).map id = List.range' next (countChildren columns)

namespace Numbered

variable {next : ColumnId} {rest : List Column}

theorem cons_iff : Numbered next (c :: rest) ↔
    c.preorder.map id = List.range' next c.count ∧ Numbered (next + c.count) rest := by
  unfold Numbered
  rw [preorderChildren, List.map_append, countChildren, ← List.range'_append_1]
  constructor
  · intro h
    exact List.append_inj h (by rw [List.length_map, length_preorder, List.length_range'])
  · rintro ⟨hc, hrest⟩
    rw [hc, hrest]

/-- A tree begins with the column of its first number. -/
theorem id_eq (h : Numbered next (c :: rest)) : c.id = next := by
  have hc := (cons_iff.1 h).1
  rw [preorder_eq_cons, count_eq_succ, List.map_cons, List.range'_succ] at hc
  exact List.head_eq_of_cons_eq hc

theorem children (h : Numbered next (c :: rest)) : Numbered (next + 1) c.children := by
  have hc := (cons_iff.1 h).1
  rw [preorder_eq_cons, count_eq_succ, List.map_cons, List.range'_succ] at hc
  exact List.tail_eq_of_cons_eq hc

/-- The numbers of a subtree lie within those of the trees. -/
theorem of_mem {columns : List Column} (h : Numbered next columns)
    (hc : c ∈ preorderChildren columns) :
    next ≤ c.id ∧ c.id + c.count ≤ next + countChildren columns := by
  obtain ⟨before, after, heq⟩ := preorderChildren_isInfix hc
  have hids := h
  rw [Numbered, ← heq, List.append_assoc, List.map_append] at hids
  obtain ⟨k, hk, -, hids⟩ := List.range'_eq_append_iff.1 hids.symm
  have hlength := congrArg List.length hids
  rw [List.length_map, List.length_append, length_preorder, List.length_range'] at hlength
  -- the first of the numbers left is that of the root of the subtree
  rw [preorder_eq_cons, ← hlength, count_eq_succ, Nat.succ_add, List.range'_succ,
    Nat.mul_one] at hids
  have hid : c.id = next + k := List.head_eq_of_cons_eq hids
  have hle : k + c.count ≤ countChildren columns := by omega
  rw [hid, Nat.add_assoc]
  exact ⟨Nat.le_add_right _ _, Nat.add_le_add_left hle _⟩

end Numbered

theorem Regular.numbered (h : c.Regular) : Numbered c.id [c] := by
  rw [Numbered.cons_iff]
  exact ⟨preorder_ids h, rfl⟩

end Columnar.Column
