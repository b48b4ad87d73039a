import Columnar.Proofs.Batch.Parts
import Columnar.Proofs.Handle.Atomicity

/-! # Opening and finishing

    A handle can be opened for every specification that was built from a
    catalog, and can be finished at any time.  The arrays are described twice,
    by the fields of the specification, top down from the column tree, and by
    what they are made of, bottom up from the vectors; both descriptions agree
    for every column of the tree.

    Finishing leaves a handle that does what the new one did: vectors are empty
    again, and the other parts of a handle never change. -/

namespace Columnar

open Operation (storedFields)

/-! ### What never changes -/

namespace WriterHandle

/-- What a handle was made with, its batch and counts apart. -/
def setup (h : WriterHandle) : Specification × Nat × List Nat :=
  (h.specification, h.rowCapacity, h.reserved)

theorem visible_eq_of_setup {h g : WriterHandle} (hsetup : h.setup = g.setup)
    (hbatch : h.batch = g.batch) : h.visible = g.visible := by
  obtain ⟨hspec, hcapacity, hreserved⟩ : h.specification = g.specification ∧
      h.rowCapacity = g.rowCapacity ∧ h.reserved = g.reserved := by
    simpa [setup] using hsetup
  exact visible_eq_iff.2 ⟨hspec, hcapacity, hreserved, hbatch⟩

theorem setup_append (h : WriterHandle) (row : Record) : (h.append row).handle.setup = h.setup := by
  rcases hstaged : h.staging row with ⟨e | staged, progress⟩
  · rw [append_of_staging_error hstaged]
    rfl
  · rcases hwrite : (Operation.writeFields h.specification.plan staged).run.run h.batch
      with ⟨e | u, batch⟩
    · rw [append_of_refused hstaged hwrite]
      rfl
    · rw [append_of_written hstaged hwrite]
      rfl

theorem setup_appendAll (h : WriterHandle) (rows : List Record) :
    (h.appendAll rows).handle.setup = h.setup := by
  induction rows generalizing h with
  | nil => rfl
  | cons row rest ih =>
    have hrow := h.setup_append row
    cases hr : (h.append row).result with
    | error e => simpa only [appendAll, hr] using hrow
    | ok u => simpa only [appendAll, hr] using (ih (h.append row).handle).trans hrow

/-- No step changes what the handle was made with. -/
theorem setup_act (h : WriterHandle) (a : Action) : (h.act a).2.setup = h.setup := by
  cases a with
  | append row => exact h.setup_append row
  | appendAll rows => exact h.setup_appendAll rows
  | finish => rfl
  | query q => rfl

theorem setup_after (h : WriterHandle) (actions : List Action) :
    (h.after actions).setup = h.setup := by
  induction actions generalizing h with
  | nil => rfl
  | cons a rest ih => exact (ih (h.act a).2).trans (h.setup_act a)

/-! ### Runs of handles that look alike -/

/-- Handles that look alike go through the same runs. -/
theorem trace_congr {h g : WriterHandle} (hv : h.visible = g.visible) (actions : List Action) :
    (h.trace actions).map Transition.seen = (g.trace actions).map Transition.seen := by
  induction actions generalizing h g with
  | nil => rfl
  | cons a rest ih =>
    obtain ⟨houtcome, hafter⟩ := act_congr hv a
    have hfirst : Transition.seen ⟨h, a, (h.act a).1, (h.act a).2⟩ =
        Transition.seen ⟨g, a, (g.act a).1, (g.act a).2⟩ := by
      simp only [Transition.seen, houtcome, hafter]
    rw [trace, trace, List.map_cons, List.map_cons, hfirst, ih hafter]

end WriterHandle

/-! ### Finished batches -/

/-- The batch has the fields of the specification, and columns that pass every check. -/
structure RecordBatch.Checked (s : Specification) (rows : Nat) (b : RecordBatch) : Prop where
  fields : b.fields = s.fields
  types : b.columns.map ColumnArray.type = s.fields.map FieldOf.type
  size : ∀ a ∈ b.columns, a.size = rows
  consistent : ∀ a ∈ b.columns, a.Consistent

namespace Holds

variable {s : Specification} {rows : List Record} {h : WriterHandle}

/-- Finishing returns a batch, of whose columns none is refused. -/
theorem finish_checked (hs : s.WellFormed) (hh : Holds s rows h) :
    ∃ b : RecordBatch, h.finish.1 = .ok b ∧ b.Checked s h.rows := by
  have hrows : h.rows = (rows.map (storedFields s.plan)).length := by
    rw [WriterHandle.rows, hh.batch]
    rfl
  refine ⟨_, (hh.finish hs).1, rfl, map_type_of_fieldTypes
    (Column.fieldTypes_arrayAll hs.stores _), ?_, ?_⟩
  · intro a ha
    obtain ⟨f, hf, rfl⟩ := List.mem_map.1 ha
    rw [hrows]
    exact Column.size_of_mem_arrayAll hf
  · intro a ha
    obtain ⟨f, hf, rfl⟩ := List.mem_map.1 ha
    exact (Column.consistent_arrayAll fun row hrow => .inr (hh.admits hs row hrow)).of_mem f hf

/-- Every column of the tree can be drained, to an array of its synthesized type. -/
theorem drain_column (hs : s.WellFormed) (hh : Holds s rows h) {column : Column}
    (hcolumn : column ∈ Column.preorderChildren s.root.children) :
    ∃ array left, column.drain.run.run h.batch.vectors = (.ok array, left) ∧
      (∀ path, storageType path column = .ok array.type) ∧ array.Consistent ∧
      array.size = h.batch.slotCount column.id := by
  rw [← Column.spreadAll_columns _ (rows.map (storedFields s.plan))] at hcolumn
  obtain ⟨⟨d, slots⟩, he, rfl⟩ := List.mem_map.1 hcolumn
  -- the vector of the root stands in front of all others
  have hbelow : Column.Part (0 + 1) _ d slots := Column.part_of_mem_spreadAll hs.stores hs.regular
    (fun row hrow => .inr (hh.admits hs row hrow)) he
  have hpart := hbelow.cons (s.root.vector [])
  obtain ⟨left, hdrain, htype⟩ := hpart.drain
  refine ⟨d.array slots, left, ?_, htype, Column.consistent_array hpart.admits, ?_⟩
  · rw [hh.batch]
    exact hdrain
  · rw [hh.batch, hs.slotCount_holding he, Column.size_array]

/-- A finished handle looks like any handle of the same making that holds nothing. -/
theorem visible_finish (hs : s.WellFormed) (hh : Holds s rows h) {g : WriterHandle}
    (hg : Holds s [] g) (hsetup : h.setup = g.setup) : h.finish.2.visible = g.visible := by
  refine WriterHandle.visible_eq_of_setup hsetup ?_
  rw [(hh.finish hs).2.batch, hg.batch]

end Holds

/-- Opening succeeds, and after any steps so does finishing: every column has an array of the type
    that the specification gives it, no check refuses an array, and the handle is as good as new. -/
theorem opens_and_finishes {c : Catalog} {writerId : WriterId} {s : Specification}
    (hbuild : Specification.build c writerId = .ok s) (o : WriterOptions) :
    ∃ h, WriterHandle.create s o = .ok h ∧ ∀ actions : List Action,
      (∃ b : RecordBatch, (h.after actions).finish.1 = .ok b ∧
        b.Checked s (h.after actions).rows) ∧
      (∀ column ∈ Column.preorderChildren s.root.children, ∃ array left,
        column.drain.run.run (h.after actions).batch.vectors = (.ok array, left) ∧
          (∀ path, storageType path column = .ok array.type) ∧ array.Consistent ∧
          array.size = (h.after actions).batch.slotCount column.id) ∧
      (h.after actions).finish.2.visible = h.visible ∧
      ∀ more : List Action, ((h.after actions).finish.2.trace more).map Transition.seen =
        (h.trace more).map Transition.seen := by
  have hs := Specification.build_wellFormed hbuild
  obtain ⟨h, hcreate, hnew⟩ := hs.create o
  refine ⟨h, hcreate, fun actions => ?_⟩
  have hh := hs.holds_after hcreate actions
  have hvisible := hh.visible_finish hs hnew (h.setup_after actions)
  exact ⟨hh.finish_checked hs, fun column hcolumn => hh.drain_column hs hcolumn, hvisible,
    fun more => WriterHandle.trace_congr hvisible more⟩

/-- A batch of one order and a failed one is finished, and the tags in it are a list of texts. -/
theorem orders_finish :
    (∃ b : RecordBatch, (ordersHandle.after [.append (order 7 [.string "new", .null]),
        .append (order 8 [.boolean true])]).finish.1 = .ok b ∧ b.Checked ordersSpecification 1) ∧
      (ordersHandle.after [.append (order 7 [.string "new", .null]),
        .append (order 8 [.boolean true])]).finish.2.visible = ordersHandle.visible := by
  obtain ⟨h, hcreate, hrun⟩ := opens_and_finishes build_orders ⟨2, true⟩
  cases hcreate.symm.trans create_orders
  obtain ⟨hfinish, -, hvisible, -⟩ := hrun [.append (order 7 [.string "new", .null]),
    .append (order 8 [.boolean true])]
  exact ⟨hfinish, hvisible⟩

end Columnar
