import Columnar.Proofs.Batch.Assembly

/-! # Reading batches

    A batch is read back slot by slot: a slot whose validity is clear is
    absent, a leaf slot is its value, a struct slot consists of the fields at
    the same slot, a list or map slot of the elements from its offset to the
    next one.

    Reading the arrays of a tree gives the values of its slots
    (`Column.read_array`).  Nothing else stands in the arrays: below an absent
    struct everything is absent, and every element belongs to a slot
    (`ColumnArray.Sound`). -/

namespace Columnar

/-! ### Reading -/

/-- The numbers of the elements of a slot. -/
def slotRange (offsets : Array Nat) (i : Nat) : List Nat :=
  List.range' (offsets.getD i 0) (offsets.getD (i + 1) 0 - offsets.getD i 0)

namespace ColumnArray

mutual

/-- The value at a slot. -/
def read : ColumnArray → Nat → Staged
  | .leaf _ slots, i =>
    match slots.getD i none with
    | some s => .scalar s
    | none => .null
  | .struct validity fields, i =>
    if validity.getD i false then .struct (readFields fields i) else .null
  | .list validity offsets element, i =>
    if validity.getD i false then .list ((slotRange offsets i).map fun j => read element j)
    else .null
  | .map validity offsets key value, i =>
    if validity.getD i false then
      .map ((slotRange offsets i).map fun j => (read key j, read value j))
    else .null

def readFields : List (String × ColumnArray) → Nat → List Staged
  | [], _ => []
  | (_, a) :: rest, i => read a i :: readFields rest i

end

end ColumnArray

/-- All rows of a batch, each by the values of its columns. -/
def RecordBatch.readRows (b : RecordBatch) : List (List Staged) :=
  (List.range b.rows).map fun i => b.columns.map (·.read i)

/-! ### Nothing else to read -/

/-- The offsets cut so many elements into consecutive ranges, one for each of so many slots. -/
structure Cuts (offsets : Array Nat) (slots elements : Nat) : Prop where
  size : offsets.size = slots + 1
  first : offsets[0]? = some 0
  rising : ∀ i < slots, offsets.getD i 0 ≤ offsets.getD (i + 1) 0
  last : offsets.back? = some elements

namespace ColumnArray

mutual

/-- Everything below the array belongs to one of its slots that is present. -/
def Sound : ColumnArray → Prop
  | .leaf _ _ => True
  | .struct validity fields =>
    (∀ f ∈ fields,
        f.2.size = validity.size ∧ ∀ i, validity[i]? = some false → f.2.read i = .null) ∧
      SoundFields fields
  | .list validity offsets element =>
    Cuts offsets validity.size element.size ∧
      (∀ i, validity[i]? = some false → slotRange offsets i = []) ∧ Sound element
  | .map validity offsets key value =>
    Cuts offsets validity.size key.size ∧ Cuts offsets validity.size value.size ∧
      (∀ i, validity[i]? = some false → slotRange offsets i = []) ∧ Sound key ∧ Sound value

def SoundFields : List (String × ColumnArray) → Prop
  | [] => True
  | (_, a) :: rest => Sound a ∧ SoundFields rest

end

end ColumnArray

/-! ### Offsets of slots -/

theorem getD_slotOffsets {α : Type} (parts : Staged → List α) {values : List Staged} {i : Nat}
    (h : i ≤ values.length) :
    (slotOffsets parts values).getD i 0 = ((values.take i).flatMap parts).length := by
  have hi : i < values.length + 1 := by omega
  rw [Array.getD_eq_getD_getElem?]
  simp [slotOffsets, List.getElem?_range hi, -List.length_flatMap]

/-- The range of a slot is as long as the value there. -/
theorem getD_slotOffsets_succ {α : Type} (parts : Staged → List α) {values : List Staged}
    {i : Nat} {v : Staged} (hv : values[i]? = some v) :
    (slotOffsets parts values).getD (i + 1) 0 =
      (slotOffsets parts values).getD i 0 + (parts v).length := by
  obtain ⟨hi, hvi⟩ := List.getElem?_eq_some_iff.1 hv
  rw [getD_slotOffsets parts hi, getD_slotOffsets parts (Nat.le_of_lt hi),
    List.take_succ_eq_append_getElem hi, List.flatMap_append, List.length_append, hvi]
  simp

theorem cuts_slotOffsets {α : Type} (parts : Staged → List α) (values : List Staged) :
    Cuts (slotOffsets parts values) values.length (values.flatMap parts).length := by
  refine ⟨by simp [slotOffsets], by simp [slotOffsets], ?_, back?_slotOffsets parts values⟩
  intro i hi
  rw [getD_slotOffsets_succ parts (List.getElem?_eq_getElem hi)]
  exact Nat.le_add_right _ _

/-- An absent value has no parts, so its range is empty. -/
theorem slotRange_of_absent {α : Type} {parts : Staged → List α} (hparts : parts .null = [])
    {values : List Staged} {i : Nat} (h : (presence values)[i]? = some false) :
    slotRange (slotOffsets parts values) i = [] := by
  unfold slotRange
  rw [getD_slotOffsets_succ parts (presence_eq_false_iff.1 h), hparts]
  simp

/-- The elements in the range of a slot are the parts of the value there. -/
theorem map_slotRange {α β : Type} (parts : Staged → List α) (f : Nat → β) (g : α → β)
    {values : List Staged} {i : Nat} {v : Staged} (hv : values[i]? = some v)
    (hf : ∀ j a, (values.flatMap parts)[j]? = some a → f j = g a) :
    (slotRange (slotOffsets parts values) i).map f = (parts v).map g := by
  obtain ⟨hi, hvi⟩ := List.getElem?_eq_some_iff.1 hv
  -- the parts of the slot stand between those of the slots before and behind it
  have hsplit : values = values.take i ++ v :: values.drop (i + 1) := by
    rw [← hvi, List.getElem_cons_drop, List.take_append_drop]
  have hflat : values.flatMap parts =
      (values.take i).flatMap parts ++ (parts v ++ (values.drop (i + 1)).flatMap parts) := by
    conv => lhs; rw [hsplit]
    rw [List.flatMap_append, List.flatMap_cons]
  unfold slotRange
  rw [getD_slotOffsets_succ parts hv, Nat.add_sub_cancel_left,
    getD_slotOffsets parts (Nat.le_of_lt hi)]
  apply List.ext_getElem
  · simp
  · intro k hk hk'
    rw [List.getElem_map, List.getElem_map, List.getElem_range']
    apply hf
    have hk : k < (parts v).length := by simpa using hk'
    rw [hflat, Nat.one_mul, List.getElem?_append_right (by omega), Nat.add_sub_cancel_left,
      List.getElem?_append_left hk, List.getElem?_eq_getElem hk]

/-! ### Arrays of trees -/

namespace Column

mutual

/-- What is read from the array of a column is what was written to the column. -/
theorem read_array {c : Column} {values : List Staged} (h : ∀ v ∈ values, c.Admits v) {i : Nat}
    {v : Staged} (hv : values[i]? = some v) : (c.array values).read i = v := by
  have hadmits := h v (List.mem_of_getElem? hv)
  have hpresent : (presence values).getD i false = v.present := by
    simp [presence, hv]
  -- the column admits no value of another sort, so validity tells all there is to tell
  match c with
  | .primitive head kind =>
    have hslot : (values.map Staged.scalar?).toArray.getD i none = v.scalar? := by simp [hv]
    rw [array, ColumnArray.read, hslot]
    cases v with
    | null => rfl
    | scalar s => rfl
    | _ => exact hadmits.elim
  | .struct head typeName children =>
    rw [array, ColumnArray.read, hpresent]
    cases v with
    | null => rfl
    | struct row =>
      have hrow : (values.map Staged.fields)[i]? = some row := by simp [hv, Staged.fields]
      exact congrArg Staged.struct (readFields_arrayAll (admits_fields h) hrow hadmits)
    | _ => exact hadmits.elim
  | .list head averageSize element =>
    rw [array, ColumnArray.read, hpresent]
    cases v with
    | null => rfl
    | list items =>
      have hitems := map_slotRange Staged.items
        (fun j => (element.array (values.flatMap Staged.items)).read j) (fun item => item) hv
        fun j item hj => read_array (admits_items h) hj
      rw [List.map_id'] at hitems
      exact congrArg Staged.list hitems
    | _ => exact hadmits.elim
  | .map head key value =>
    rw [array, ColumnArray.read, hpresent]
    cases v with
    | null => rfl
    | map entries =>
      -- key and value of an entry have the same number in their columns
      have hentries := map_slotRange Staged.entries
        (fun j => ((key.array ((values.flatMap Staged.entries).map (·.1))).read j,
          (value.array ((values.flatMap Staged.entries).map (·.2))).read j)) (fun e => e) hv
        fun j e hj => by
          have hk : ((values.flatMap Staged.entries).map (·.1))[j]? = some e.1 := by
            rw [List.getElem?_map, hj]
            rfl
          have hv : ((values.flatMap Staged.entries).map (·.2))[j]? = some e.2 := by
            rw [List.getElem?_map, hj]
            rfl
          rw [read_array (fun k hmem => (admits_keys h k hmem).2) hk,
            read_array (admits_values h) hv]
      rw [List.map_id'] at hentries
      exact congrArg Staged.map hentries
    | _ => exact hadmits.elim

theorem readFields_arrayAll {columns : List Column} {rows : List (List Staged)}
    (h : ∀ row ∈ rows, row = [] ∨ AdmitsAll columns row) {i : Nat} {row : List Staged}
    (hi : rows[i]? = some row) (hrow : AdmitsAll columns row) :
    ColumnArray.readFields (arrayAll columns rows) i = row := by
  match columns with
  | [] =>
    cases row with
    | nil => rfl
    | cons v row => exact hrow.elim
  | c :: rest =>
    cases row with
    | nil => exact hrow.elim
    | cons v row =>
      obtain ⟨hfirst, hothers⟩ := admits_rows h
      have hv : (rows.map (·.headD .null))[i]? = some v := by simp [hi]
      have htail : (rows.map List.tail)[i]? = some row := by simp [hi]
      rw [arrayAll, ColumnArray.readFields, read_array hfirst hv,
        readFields_arrayAll hothers htail hrow.2]

end

/-- Below an absent struct everything is absent. -/
theorem read_of_mem_arrayAll {columns : List Column} {rows : List (List Staged)}
    (h : ∀ row ∈ rows, row = [] ∨ AdmitsAll columns row) {f : String × ColumnArray}
    (hf : f ∈ arrayAll columns rows) {i : Nat} (hi : rows[i]? = some []) :
    f.2.read i = .null := by
  induction columns generalizing rows with
  | nil => cases hf
  | cons c rest ih =>
    obtain ⟨hfirst, hothers⟩ := admits_rows h
    rcases List.mem_cons.1 hf with rfl | hf
    · exact read_array hfirst (by simp [hi])
    · exact ih hothers hf (by simp [hi])

mutual

theorem sound_array {c : Column} {values : List Staged} (h : ∀ v ∈ values, c.Admits v) :
    (c.array values).Sound := by
  match c with
  | .primitive head kind => trivial
  | .struct head typeName children =>
    -- an absent struct has the row without fields, from which every field is absent
    refine ⟨fun f hf => ⟨?_, fun i hi => ?_⟩, soundFields_arrayAll (admits_fields h)⟩
    · rw [size_of_mem_arrayAll hf]
      simp [presence]
    · refine read_of_mem_arrayAll (admits_fields h) hf ?_
      rw [List.getElem?_map, presence_eq_false_iff.1 hi]
      rfl
  | .list head averageSize element =>
    refine ⟨?_, fun i => slotRange_of_absent rfl, sound_array (admits_items h)⟩
    simpa [presence, -List.length_flatMap] using cuts_slotOffsets Staged.items values
  | .map head key value =>
    have hcuts := cuts_slotOffsets Staged.entries values
    refine ⟨?_, ?_, fun i => slotRange_of_absent rfl,
      sound_array fun k hmem => (admits_keys h k hmem).2, sound_array (admits_values h)⟩
    · simpa [presence, -List.length_flatMap] using hcuts
    · simpa [presence, -List.length_flatMap] using hcuts

theorem soundFields_arrayAll {columns : List Column} {rows : List (List Staged)}
    (h : ∀ row ∈ rows, row = [] ∨ AdmitsAll columns row) :
    ColumnArray.SoundFields (arrayAll columns rows) := by
  match columns with
  | [] => trivial
  | c :: rest =>
    obtain ⟨hfirst, hothers⟩ := admits_rows h
    exact ⟨sound_array hfirst, soundFields_arrayAll hothers⟩

end

theorem sound_of_mem_arrayAll {columns : List Column} {rows : List (List Staged)}
    (h : ∀ row ∈ rows, row = [] ∨ AdmitsAll columns row) {f : String × ColumnArray}
    (hf : f ∈ arrayAll columns rows) : f.2.Sound := by
  induction columns generalizing rows with
  | nil => cases hf
  | cons c rest ih =>
    obtain ⟨hfirst, hothers⟩ := admits_rows h
    rcases List.mem_cons.1 hf with rfl | hf
    · exact sound_array hfirst
    · exact ih hothers hf

end Column

/-! ### Batches -/

theorem readFields_eq_map (arrays : List (String × ColumnArray)) (i : Nat) :
    ColumnArray.readFields arrays i = (arrays.map (·.2)).map (·.read i) := by
  induction arrays with
  | nil => rfl
  | cons a rest ih => simp [ColumnArray.readFields, ih]

namespace RecordBatch

theorem rows_arrayAll {columns : List Column} (hne : columns ≠ []) (rows : List (List Staged))
    (fields : List StorageField) :
    (RecordBatch.mk fields ((Column.arrayAll columns rows).map (·.2))).rows = rows.length := by
  cases columns with
  | nil => contradiction
  | cons c rest => simp [RecordBatch.rows, Column.arrayAll]

/-- The rows of a batch are read back in order. -/
theorem readRows_arrayAll {columns : List Column} (hne : columns ≠ [])
    {rows : List (List Staged)} (h : ∀ row ∈ rows, Column.AdmitsAll columns row)
    (fields : List StorageField) :
    (RecordBatch.mk fields ((Column.arrayAll columns rows).map (·.2))).readRows = rows := by
  unfold readRows
  rw [rows_arrayAll hne]
  -- row by row, as both lists have the same number of them
  apply List.ext_getElem
  · simp
  · intro i hi hi'
    have hrow := List.getElem_mem hi'
    rw [List.getElem_map, List.getElem_range, ← readFields_eq_map]
    exact Column.readFields_arrayAll (fun row hmem => .inr (h row hmem))
      (List.getElem?_eq_getElem hi') (h _ hrow)

end RecordBatch

end Columnar
