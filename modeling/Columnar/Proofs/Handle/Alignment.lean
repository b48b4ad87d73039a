import Columnar.Proofs.Batch.Reading
import Columnar.Proofs.Handle.Invariant

/-! # Alignment of vectors

    The vectors of a handle are in step with each other after whatever steps:
    fields have a slot for each slot of their struct, and the offsets of a list
    or map cut its elements into as many ranges as there are slots.

    Which value a slot stands for is told by `Column.spreadAll`, applied to the
    rows accepted since the last finished batch. -/

namespace Columnar

open Operation (storedFields)

/-- Offsets and validity of a collection vector tell how the elements belong to the values of the
    slots. -/
structure Delimits {α : Type} (parts : Staged → List α) (values : List Staged) (elements : Nat)
    (offsets : Array Nat) (validity : Array Bool) : Prop where
  cuts : Cuts offsets values.length elements
  slots : validity.size = values.length
  absent : ∀ i, validity[i]? = some false → offsets.getD (i + 1) 0 = offsets.getD i 0
  present : ∀ i v, values[i]? = some v → validity[i]? = some true →
    offsets.getD (i + 1) 0 = offsets.getD i 0 + (parts v).length

/-- The offsets of slots delimit the parts of the values; an absent value has none. -/
theorem delimits_slotOffsets {α : Type} (parts : Staged → List α) (hparts : parts .null = [])
    (values : List Staged) :
    Delimits parts values (values.flatMap parts).length (slotOffsets parts values)
      (presence values) := by
  refine ⟨cuts_slotOffsets parts values, by simp [presence], ?_, ?_⟩
  -- an absent value has no parts, so its offsets are the same
  · intro i hi
    rw [getD_slotOffsets_succ parts (presence_eq_false_iff.1 hi), hparts]
    rfl
  · intro i v hv _
    exact getD_slotOffsets_succ parts hv

namespace Specification.WellFormed

variable {s : Specification} {rows : List (List Staged)}

/-- The column of a struct's field has as many slots as the column of the struct. -/
theorem slotCount_field (hs : s.WellFormed) {head : ColumnHead} {typeName : String}
    {children : List Column} {values : List Staged}
    (he : (Column.struct head typeName children, values) ∈ Column.spreadAll s.root.children rows)
    {d : Column} (hd : d ∈ children) :
    (s.holding rows).slotCount d.id = (s.holding rows).slotCount head.id := by
  -- every value of the struct has a row of fields, if only an empty one
  obtain ⟨slots, hmem, hlength⟩ := Column.exists_mem_spreadAll hd (values.map Staged.fields)
  have hslots := hs.slotCount_holding
    (Column.spreadAll_subset he (List.mem_cons_of_mem _ hmem))
  have hstruct : (s.holding rows).slotCount head.id = values.length := hs.slotCount_holding he
  rw [hslots, hlength, hstruct, List.length_map]

/-- The offsets of a list column are those of its values. -/
theorem delimits_list (hs : s.WellFormed) {head : ColumnHead} {averageSize : UInt32}
    {element : Column} {values : List Staged}
    (he : (Column.list head averageSize element, values)
      ∈ Column.spreadAll s.root.children rows) :
    ∃ offsets validity, (s.holding rows).vectors[head.id]? = some (.list offsets validity) ∧
      Delimits Staged.items values ((s.holding rows).slotCount element.id) offsets validity := by
  have helements := hs.slotCount_holding
    (Column.spreadAll_subset he (List.mem_cons_of_mem _ (Column.mem_spread_self element _)))
  refine ⟨_, _, hs.getElem?_holding he, ?_⟩
  rw [helements]
  exact delimits_slotOffsets Staged.items rfl values

/-- The offsets of a map column are those of its values, for keys and values alike. -/
theorem delimits_map (hs : s.WellFormed) {head : ColumnHead} {key value : Column}
    {values : List Staged}
    (he : (Column.map head key value, values) ∈ Column.spreadAll s.root.children rows) :
    ∃ offsets validity, (s.holding rows).vectors[head.id]? = some (.map offsets validity) ∧
      Delimits Staged.entries values ((s.holding rows).slotCount key.id) offsets validity ∧
      Delimits Staged.entries values ((s.holding rows).slotCount value.id) offsets validity := by
  have hkeys := hs.slotCount_holding (Column.spreadAll_subset he (List.mem_cons_of_mem _
    (List.mem_append_left _ (Column.mem_spread_self key _))))
  have hvalues := hs.slotCount_holding (Column.spreadAll_subset he (List.mem_cons_of_mem _
    (List.mem_append_right _ (Column.mem_spread_self value _))))
  have hdelimits := delimits_slotOffsets Staged.entries rfl values
  refine ⟨_, _, hs.getElem?_holding he, ?_, ?_⟩
  · rw [hkeys]
    simpa using hdelimits
  · rw [hvalues]
    simpa using hdelimits

/-- No row has a value for the root. -/
theorem slotCount_root (hs : s.WellFormed) : (s.holding rows).slotCount s.root.id = 0 := by
  rw [hs.root_id]
  exact Column.size_vector s.root []

end Specification.WellFormed

/-! ### The invariant -/

/-- The batch of the rows has all its vectors in step. -/
structure Batch.Aligned (s : Specification) (rows : List (List Staged)) (b : Batch) : Prop where
  count : b.rows = rows.length
  columns : (Column.spreadAll s.root.children rows).map (·.1) =
    Column.preorderChildren s.root.children
  slots : ∀ e ∈ Column.spreadAll s.root.children rows, b.slotCount e.1.id = e.2.length
  root : b.slotCount s.root.id = 0
  fields : ∀ c ∈ s.root.children, b.slotCount c.id = b.rows
  structs : ∀ head typeName children,
    .struct head typeName children ∈ Column.preorderChildren s.root.children →
      ∀ d ∈ children, b.slotCount d.id = b.slotCount head.id
  lists : ∀ head averageSize element values,
    (.list head averageSize element, values) ∈ Column.spreadAll s.root.children rows →
      ∃ offsets validity, b.vectors[head.id]? = some (.list offsets validity) ∧
        Delimits Staged.items values (b.slotCount element.id) offsets validity
  maps : ∀ head key value values,
    (.map head key value, values) ∈ Column.spreadAll s.root.children rows →
      ∃ offsets validity, b.vectors[head.id]? = some (.map offsets validity) ∧
        Delimits Staged.entries values (b.slotCount key.id) offsets validity ∧
        Delimits Staged.entries values (b.slotCount value.id) offsets validity

theorem Specification.WellFormed.aligned_holding {s : Specification} (hs : s.WellFormed)
    (rows : List (List Staged)) : (s.holding rows).Aligned s rows where
  count := rfl
  columns := Column.spreadAll_columns s.root.children rows
  slots _ he := hs.slotCount_holding he
  root := hs.slotCount_root
  fields := by
    intro c hc
    obtain ⟨values, hmem, hlength⟩ := Column.exists_mem_spreadAll hc rows
    rw [hs.slotCount_holding hmem, hlength]
    rfl
  structs := by
    intro head typeName children hstruct d hd
    -- every column of the tree has its slots in the layout
    rw [← Column.spreadAll_columns s.root.children rows] at hstruct
    obtain ⟨⟨c, values⟩, he, rfl⟩ := List.mem_map.1 hstruct
    exact hs.slotCount_field he hd
  lists _ _ _ _ he := hs.delimits_list he
  maps _ _ _ _ he := hs.delimits_map he

/-- After every run the vectors are in step with the rows accepted since the last finished batch. -/
theorem vectors_aligned {c : Catalog} {writerId : WriterId} {s : Specification}
    (hbuild : Specification.build c writerId = .ok s) {o : WriterOptions} {h : WriterHandle}
    (hcreate : WriterHandle.create s o = .ok h) (actions : List Action) :
    (h.after actions).batch.Aligned s
      ((Run.unfinished [] (h.trace actions)).map (storedFields s.plan)) := by
  have hs := Specification.build_wellFormed hbuild
  have hh := hs.holds_after hcreate actions
  rw [hh.batch]
  exact hs.aligned_holding _

/-- The vectors of two orders, without those of the order that failed between them. -/
theorem orders_vectors_aligned :
    (ordersHandle.after [.append (order 7 [.string "new", .null]),
        .append (order 8 [.boolean true]), .append (order 9 [])]).batch.Aligned
      ordersSpecification
      [[.scalar (.int64 7), .null, .list [.scalar (.utf8 "new"), .null]],
        [.scalar (.int64 9), .null, .list []]] :=
  vectors_aligned build_orders create_orders [.append (order 7 [.string "new", .null]),
    .append (order 8 [.boolean true]), .append (order 9 [])]

end Columnar
