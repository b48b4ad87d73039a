import Columnar.Proofs.Batch.Assembly
import Columnar.Proofs.Plan.Relabelling

/-! # Parts of a tree

    Every column of a tree has its own piece among the vectors of the tree:
    they stand one after the other, from the number of the column on
    (`Column.Part`).  A column can therefore be drained wherever it is in the
    tree, and what is drained has the type that was synthesized for the column
    (`Column.Part.drain`).

    The checks on arrays ask for parts of equal length, offsets that end within
    the elements, and present keys: `ColumnArray.Consistent` says this for an
    array and all arrays below it. -/

namespace Columnar

/-! ### Consistent arrays -/

namespace ColumnArray

mutual

/-- The array and those below it are as the checks on arrays want them. -/
def Consistent : ColumnArray → Prop
  | .leaf _ _ => True
  | .struct validity fields =>
    (∀ f ∈ fields, f.2.size = validity.size) ∧ ConsistentFields fields
  | .list validity offsets element =>
    offsets.size = validity.size + 1 ∧ offsets.back?.getD 0 ≤ element.size ∧ Consistent element
  | .map validity offsets key value =>
    offsets.size = validity.size + 1 ∧ offsets.back?.getD 0 ≤ key.size ∧ value.size = key.size ∧
      key.validity.all id ∧ Consistent key ∧ Consistent value

def ConsistentFields : List (String × ColumnArray) → Prop
  | [] => True
  | (_, a) :: rest => Consistent a ∧ ConsistentFields rest

end

theorem ConsistentFields.of_mem {fields : List (String × ColumnArray)}
    (h : ConsistentFields fields) : ∀ f ∈ fields, f.2.Consistent := by
  induction fields with
  | nil => simp
  | cons f rest ih =>
    intro g hg
    rcases List.mem_cons.1 hg with rfl | hg
    · exact h.1
    · exact ih h.2 g hg

end ColumnArray

namespace Column

mutual

/-- The array of values that the column stores passes all checks. -/
theorem consistent_array {c : Column} {values : List Staged} (h : ∀ v ∈ values, c.Admits v) :
    (c.array values).Consistent := by
  match c with
  | .primitive head kind => trivial
  | .struct head typeName children =>
    refine ⟨fun f hf => ?_, consistent_arrayAll (admits_fields h)⟩
    rw [size_of_mem_arrayAll hf]
    simp [presence]
  | .list head averageSize element =>
    refine ⟨by simp [slotOffsets, presence], ?_, consistent_array (admits_items h)⟩
    -- the last offset is the number of elements
    rw [back?_slotOffsets, size_array]
    exact Nat.le_refl _
  | .map head key value =>
    -- the keys are present, and so are their slots
    have hkeys := presence_all.2 fun k hk => (admits_keys h k hk).1
    rw [← validity_array fun k hk => (admits_keys h k hk).2] at hkeys
    refine ⟨by simp [slotOffsets, presence], ?_, by simp, hkeys,
      consistent_array fun k hk => (admits_keys h k hk).2, consistent_array (admits_values h)⟩
    rw [back?_slotOffsets, size_array, List.length_map]
    exact Nat.le_refl _

theorem consistent_arrayAll {columns : List Column} {rows : List (List Staged)}
    (h : ∀ row ∈ rows, row = [] ∨ AdmitsAll columns row) :
    ColumnArray.ConsistentFields (arrayAll columns rows) := by
  match columns with
  | [] => trivial
  | c :: rest =>
    obtain ⟨hfirst, hothers⟩ := admits_rows h
    exact ⟨consistent_array hfirst, consistent_arrayAll hothers⟩

end

/-! ### Where a column stands -/

/-- Among vectors of which the first has the number `first`, those of the column `d` and the
    columns below it stand together and hold these slots. -/
structure Part (first : ColumnId) (vectors : List ColumnVector) (d : Column)
    (slots : List Staged) : Prop where
  regular : d.Regular
  stores : ∃ path type, storageType path d = .ok type
  admits : ∀ v ∈ slots, d.Admits v
  stands : ∃ before after, vectors = before ++ d.vectors slots ++ after ∧
    first + before.length = d.id

namespace Part

variable {first next : ColumnId} {vectors : List ColumnVector} {d : Column} {slots : List Staged}

/-- More vectors in front of the tree move what stands in it. -/
theorem append (h : Part next vectors d slots) (before after : List ColumnVector)
    (hnext : first + before.length = next) :
    Part first (before ++ vectors ++ after) d slots := by
  obtain ⟨regular, stores, admits, pre, post, rfl, hid⟩ := h
  refine ⟨regular, stores, admits, before ++ pre, post ++ after, by simp, ?_⟩
  rw [List.length_append, ← Nat.add_assoc, hnext, hid]

theorem cons (h : Part (first + 1) vectors d slots) (v : ColumnVector) :
    Part first (v :: vectors) d slots := by
  have happend := h.append [v] [] rfl
  rwa [List.append_nil] at happend

/-- Draining a column gives the array of its slots, of the type that was synthesized. -/
theorem drain (h : Part 0 vectors d slots) :
    ∃ left, d.drain.run.run vectors.toArray = (.ok (d.array slots), left) ∧
      ∀ path, storageType path d = .ok (d.array slots).type := by
  obtain ⟨hregular, ⟨path, type, htype⟩, hadmits, before, after, rfl, hid⟩ := h
  rw [Nat.zero_add] at hid
  refine ⟨_, drain_of htype hregular hadmits hid after, fun path' => ?_⟩
  rw [type_array htype]
  exact storageType_of_path htype

end Part

mutual

/-- Every column of a tree has its part in the vectors of the tree. -/
theorem part_of_mem_spread {path : Path} {c : Column} {type : StorageType}
    (hstores : storageType path c = .ok type) (hr : c.Regular) {values : List Staged}
    (hv : ∀ v ∈ values, c.Admits v) {e : Column × List Staged} (he : e ∈ c.spread values) :
    Part c.id (c.vectors values) e.1 e.2 := by
  -- the tree itself is the part of its root
  have hself : Part c.id (c.vectors values) c values :=
    ⟨hr, ⟨path, type, hstores⟩, hv, [], [], by simp, rfl⟩
  match c with
  | .primitive head kind =>
    rw [List.mem_singleton.1 he]
    exact hself
  | .struct head typeName children =>
    rcases List.mem_cons.1 he with rfl | he
    · exact hself
    · unfold storageType at hstores
      split at hstores
      · cases hstores
      · obtain ⟨fields, hfields, -⟩ := exists_of_bind_eq_ok hstores
        rw [vectors_struct]
        exact (part_of_mem_spreadAll hfields hr (admits_fields hv) he).cons _
  | .list head averageSize element =>
    rcases List.mem_cons.1 he with rfl | he
    · exact hself
    · obtain ⟨hid, hr⟩ := hr.element
      obtain ⟨type, htype, -⟩ := exists_of_bind_eq_ok hstores
      have hpart := part_of_mem_spread htype hr (admits_items hv) he
      rw [hid] at hpart
      rw [vectors_list]
      exact hpart.cons _
  | .map head key value =>
    rcases List.mem_cons.1 he with rfl | he
    · exact hself
    · obtain ⟨hkid, hkr⟩ := hr.key
      obtain ⟨hvid, hvr⟩ := hr.value
      obtain ⟨⟨ktype, htk⟩, vtype, htv⟩ := storageType_map hstores
      rw [vectors_map]
      rcases List.mem_append.1 he with he | he
      · have hpart := part_of_mem_spread htk hkr (fun k hk => (admits_keys hv k hk).2) he
        rw [hkid] at hpart
        exact (hpart.append [] _ rfl).cons _
      -- the values stand behind the whole tree of the keys
      · have hpart := part_of_mem_spread htv hvr (admits_values hv) he
        have hnext : head.id + 1 + (key.vectors ((values.flatMap Staged.entries).map (·.1))).length
            = value.id := by
          rw [length_vectors, hvid, hkid]
        have happend := hpart.append _ [] hnext
        rw [List.append_nil] at happend
        exact happend.cons _

theorem part_of_mem_spreadAll {path : Path} {columns : List Column} {fields : List StorageField}
    (hstores : storageFields path columns = .ok fields) {next : ColumnId}
    (hr : RegularFrom next columns) {rows : List (List Staged)}
    (hrows : ∀ row ∈ rows, row = [] ∨ AdmitsAll columns row) {e : Column × List Staged}
    (he : e ∈ spreadAll columns rows) : Part next (vectorsAll columns rows) e.1 e.2 := by
  match columns with
  | [] => cases he
  | c :: rest =>
    obtain ⟨type, htype, hstores⟩ := exists_of_bind_eq_ok hstores
    obtain ⟨fields, hfields, -⟩ := exists_of_bind_eq_ok hstores
    obtain ⟨⟨rfl, -, -⟩, hc, hrest⟩ := hr
    obtain ⟨hfirst, hothers⟩ := admits_rows hrows
    rw [vectorsAll_cons]
    rcases List.mem_append.1 he with he | he
    · exact (part_of_mem_spread htype hc hfirst he).append [] _ rfl
    · have happend := (part_of_mem_spreadAll hfields hrest hothers he).append
        (c.vectors (rows.map (·.headD .null))) [] (by rw [length_vectors])
      rwa [List.append_nil] at happend

end

end Column

end Columnar
