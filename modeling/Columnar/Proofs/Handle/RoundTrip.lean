import Columnar.Proofs.Batch.Reading
import Columnar.Proofs.Handle.Invariant

/-! # Round trip

    Whatever a program does with a new handle, the rows read back from the
    batches that it finishes are the rows that were accepted: the same rows, in
    the same order, cut into batches where the program finished them. -/

namespace Columnar

open Operation (storedFields ConformsFields)

/-- The batch was made for the specification, and holds nothing that is not read from it. -/
structure RecordBatch.Complete (s : Specification) (b : RecordBatch) : Prop where
  fields : b.fields = s.fields
  types : b.columns.map ColumnArray.type = s.fields.map FieldOf.type
  size : ∀ a ∈ b.columns, a.size = b.rows
  sound : ∀ a ∈ b.columns, a.Sound

namespace Holds

variable {s : Specification} {rows : List Record} {h : WriterHandle}

/-- The rows held are read back from the batch that finishing returns. -/
theorem readRows_finish (hs : s.WellFormed) (hh : Holds s rows h) :
    ∃ b : RecordBatch, h.finish.1 = .ok b ∧ b.readRows = rows.map (storedFields s.plan) ∧
      b.Complete s := by
  refine ⟨_, (hh.finish hs).1, RecordBatch.readRows_arrayAll hs.nonempty (hh.admits hs) s.fields,
    rfl, map_type_of_fieldTypes (Column.fieldTypes_arrayAll hs.stores _), ?_, ?_⟩
  · intro a ha
    obtain ⟨f, hf, rfl⟩ := List.mem_map.1 ha
    rw [RecordBatch.rows_arrayAll hs.nonempty]
    exact Column.size_of_mem_arrayAll hf
  · intro a ha
    obtain ⟨f, hf, rfl⟩ := List.mem_map.1 ha
    exact Column.sound_of_mem_arrayAll (fun row hrow => .inr (hh.admits hs row hrow)) hf

/-- Every finish step of a run returns a batch, from which the rows of that batch are read. -/
theorem readRows_finished (hs : s.WellFormed) (hh : Holds s rows h) (actions : List Action) :
    ∃ batches : List RecordBatch, Run.finished (h.trace actions) = batches.map .ok ∧
      batches.map RecordBatch.readRows =
        (Run.batchRows rows (h.trace actions)).map (·.map (storedFields s.plan)) ∧
      ∀ b ∈ batches, b.Complete s := by
  induction actions generalizing h rows with
  | nil => exact ⟨[], rfl, rfl, by simp⟩
  | cons a rest ih =>
    -- the rest of the run begins with the rows held after this step
    obtain ⟨batches, hfinished, hrows, hcomplete⟩ := ih (hh.act hs a)
    cases a with
    | finish =>
      obtain ⟨b, hb, hread, hbc⟩ := hh.readRows_finish hs
      refine ⟨b :: batches, ?_, ?_, ?_⟩
      · show h.finish.1 :: Run.finished (h.finish.2.trace rest) = _
        rw [hb]
        exact congrArg _ hfinished
      · show b.readRows :: batches.map RecordBatch.readRows = _
        rw [hread, hrows]
        rfl
      · intro b' hb'
        rcases List.mem_cons.1 hb' with rfl | hb'
        · exact hbc
        · exact hcomplete b' hb'
    | _ => exact ⟨batches, hfinished, hrows, hcomplete⟩

/-- Accepted rows conform. -/
theorem conforms_of_accepted (hs : s.WellFormed) (hh : Holds s rows h) (actions : List Action) :
    ∀ t ∈ h.trace actions, ∀ row ∈ t.accepted, ConformsFields s.plan row := by
  induction actions generalizing h rows with
  | nil => simp [WriterHandle.trace]
  | cons a rest ih =>
    intro t ht row hrow
    have hact := hh.act hs a
    -- the rows that a step accepts are held after it, and all rows held conform
    rcases List.mem_cons.1 ht with rfl | ht
    · cases a with
      | append r => exact hact.conforms row (List.mem_append_right rows hrow)
      | appendAll more => exact hact.conforms row (List.mem_append_right rows hrow)
      | finish => cases hrow
      | query q => cases hrow
    · exact ih hact t ht row hrow

end Holds

/-- After a last finish step all accepted rows are in some batch. -/
theorem Run.flatten_batchRows (h : WriterHandle) (rows : List Record) (actions : List Action) :
    (batchRows rows (h.trace (actions ++ [.finish]))).flatten =
      rows ++ (h.trace actions).flatMap Transition.accepted := by
  induction actions generalizing h rows with
  | nil => simp [WriterHandle.trace, batchRows]
  | cons a rest ih =>
    rw [List.cons_append, WriterHandle.trace, WriterHandle.trace, List.flatMap_cons,
      ← List.append_assoc]
    -- the rows held so far go to a batch in a finish step, and are carried on in any other
    cases a with
    | finish =>
      show (rows :: batchRows [] _).flatten = _
      rw [List.flatten_cons, ih]
      simp [Transition.accepted]
    | _ => exact ih _ _

/-- A run on a new handle loses, invents and moves nothing: what is read from its batches is what
    staging made of the accepted rows, in the order in which they were appended. -/
theorem accepted_rows_round_trip {c : Catalog} {writerId : WriterId} {s : Specification}
    (hbuild : Specification.build c writerId = .ok s) (o : WriterOptions)
    (actions : List Action) :
    ∃ (h : WriterHandle) (batches : List RecordBatch), WriterHandle.create s o = .ok h ∧
      Run.finished (h.trace (actions ++ [.finish])) = batches.map .ok ∧
      batches.map RecordBatch.readRows =
        (Run.batchRows [] (h.trace (actions ++ [.finish]))).map (·.map (storedFields s.plan)) ∧
      batches.flatMap RecordBatch.readRows =
        ((h.trace actions).flatMap Transition.accepted).map (storedFields s.plan) ∧
      (∀ t ∈ h.trace actions, ∀ row ∈ t.accepted, ConformsFields s.plan row) ∧
      (∀ g, WriterHandle.Reachable s g → ∀ row staged, (g.staging row).1 = .ok staged →
        staged = storedFields s.plan row) ∧
      ∀ b ∈ batches, b.Complete s := by
  have hs := Specification.build_wellFormed hbuild
  obtain ⟨h, hcreate, hh⟩ := hs.create o
  obtain ⟨batches, hfinished, hrows, hcomplete⟩ := hh.readRows_finished hs (actions ++ [.finish])
  refine ⟨h, batches, hcreate, hfinished, hrows, ?_, hh.conforms_of_accepted hs actions, ?_,
    hcomplete⟩
  · rw [List.flatMap_def, hrows, ← List.map_flatten, Run.flatten_batchRows, List.nil_append]
  · intro g hreach row staged hstaged
    obtain ⟨held, hg⟩ := hreach.holds hs
    exact hs.staged_eq hg.specification hstaged

/-- Two orders in a batch and none in the next; the order with a flag for a tag is in neither. -/
theorem orders_round_trip :
    Specification.build orders 0 = .ok ordersSpecification ∧
    ∃ batches : List RecordBatch,
      Run.finished (ordersHandle.trace [.append (order 7 [.string "new"]),
        .append (order 8 [.string "old", .boolean true]), .append (order 9 []), .finish,
        .finish]) = batches.map .ok ∧
      batches.map RecordBatch.readRows =
        [[[.scalar (.int64 7), .null, .list [.scalar (.utf8 "new")]],
          [.scalar (.int64 9), .null, .list []]], []] := by
  obtain ⟨h, batches, hcreate, hfinished, hrows, -⟩ :=
    accepted_rows_round_trip build_orders ⟨2, true⟩ [.append (order 7 [.string "new"]),
      .append (order 8 [.string "old", .boolean true]), .append (order 9 []), .finish]
  cases hcreate.symm.trans create_orders
  exact ⟨build_orders, batches, hfinished, hrows⟩

end Columnar
