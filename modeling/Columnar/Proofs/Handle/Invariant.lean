import Columnar.Proofs.Batch.Assembly
import Columnar.Proofs.Batch.Writing
import Columnar.Proofs.Handle.Run
import Columnar.Proofs.Row.Staging
import Columnar.Proofs.Row.Storing
import Columnar.Proofs.Schema.Subtree

/-! # What handles hold

    A handle for a well-formed specification holds the rows appended since the
    last finished batch, and nothing else (`Holds`).  An accepted row is added
    at the end, a failing one leaves no trace in the batch, finishing returns
    the arrays of the rows and starts again with none.

    `Holds` survives every step of a run, so it is true of every reachable
    handle (`WriterHandle.Reachable.holds`). -/

namespace Columnar

open Operation (storedFields ConformsFields violationsOfFields additionsOfFields)

/-- The handle's batch is that of these rows, all of which conform. -/
structure Holds (s : Specification) (rows : List Record) (h : WriterHandle) : Prop where
  specification : h.specification = s
  batch : h.batch = s.holding (rows.map (storedFields s.plan))
  conforms : ∀ row ∈ rows, ConformsFields s.plan row
  bounded : Column.BoundedAll s.root.children (rows.map (storedFields s.plan))

namespace Specification.WellFormed

variable {s : Specification}

/-- Every column below the root is counted. -/
theorem countChildren_le (hs : s.WellFormed) :
    1 + Column.countChildren s.root.children ≤ s.columnCount := by
  obtain ⟨head, typeName, hroot⟩ := hs.isStruct
  rw [Specification.columnCount, hroot, Column.count, Nat.add_comm]
  exact Nat.le_refl _

/-- Writing a row to the batch of some rows gives that of all of them, but for their number. -/
theorem writeFields_holding (hs : s.WellFormed) {rows : List (List Staged)} {row : List Staged}
    (hrow : Column.AdmitsAll s.root.children row)
    (hb : Column.BoundedAll s.root.children (rows ++ [row])) :
    (Operation.writeFields s.plan row).run.run (s.holding rows) =
      (.ok (), { s.holding (rows ++ [row]) with rows := rows.length }) := by
  have hroot : [s.root.vector []].length = 1 := rfl
  have hwrite := hs.plans.writeFields_of hs.regular hrow hb hroot [] rows.length
  simp only [List.append_nil, List.singleton_append] at hwrite
  exact hwrite

/-- How staging a row ends: with what is stored for it, or with what is wrong first. -/
theorem staging_ends (hs : s.WellFormed) {h : WriterHandle} (hspec : h.specification = s)
    (row : Record) :
    Ends h.batch.slotCount (storedFields s.plan row) (violationsOfFields s.plan row)
      (additionsOfFields s.plan row) ⟨.fresh s.columnCount, #[]⟩ (h.staging row) := by
  subst hspec
  exact hs.plans.stage_meets h.batch.slotCount hs.regular hs.countChildren_le row _
    (by simp [Scratch.fresh])

theorem staged_eq (hs : s.WellFormed) {h : WriterHandle} (hspec : h.specification = s)
    {row : Record} {staged : List Staged} (hstaged : (h.staging row).1 = .ok staged) :
    staged = storedFields s.plan row := by
  have hends := hs.staging_ends hspec row
  rcases hrun : h.staging row with ⟨r, progress⟩
  rw [hrun] at hstaged hends
  subst hstaged
  exact hends.1

end Specification.WellFormed

namespace Holds

variable {s : Specification} {rows : List Record} {h : WriterHandle}

theorem admits (hs : s.WellFormed) (hh : Holds s rows h) :
    ∀ row ∈ rows.map (storedFields s.plan), Column.AdmitsAll s.root.children row := by
  intro row hrow
  obtain ⟨record, hmem, rfl⟩ := List.mem_map.1 hrow
  exact hs.plans.admits_storedFields (hh.conforms record hmem)

/-- A row is added at the end, or fails with what is wrong first and adds nothing. -/
theorem append (hs : s.WellFormed) (hh : Holds s rows h) (row : Record) :
    ((h.append row).result = .ok () ∧ Holds s (rows ++ [row]) (h.append row).handle) ∨
    (∃ e, (h.append row).result = .error e ∧ Holds s rows (h.append row).handle ∧
      ((violationsOfFields s.plan row).head? = some e ∨
        (∃ path, e = .capacityExceeded path maxElements) ∧
          ∃ column, maxElements < h.batch.slotCount column
            + (additionsOfFields s.plan row).count column)) := by
  have hends := hs.staging_ends hh.specification row
  obtain ⟨rfl, hbatch, hconf, hbounded⟩ := hh
  rcases hrun : h.staging row with ⟨e | staged, progress⟩
  -- the row cannot be staged, and nothing is written
  · rw [WriterHandle.append_of_staging_error hrun]
    rw [hrun] at hends
    right
    refine ⟨e, rfl, ⟨rfl, hbatch, hconf, hbounded⟩, ?_⟩
    rcases hends with hhead | ⟨hpath, column, hover⟩
    · exact .inl hhead
    · rw [pending_fresh] at hover
      exact .inr ⟨hpath, column, hover⟩
  -- the row is staged, and what is staged is written
  · rw [hrun] at hends
    obtain ⟨rfl, hnone, hcount⟩ := hends
    have hrow := (Operation.conformsFields_iff _ _).2 hnone
    have hroom : Room h.batch.slotCount
        fun column => (additionsOfFields h.specification.plan row).count column := by
      intro column hpos
      have hfits := hcount.fits column (List.count_pos_iff.1 hpos)
      rwa [hcount.count, pending_fresh, Nat.zero_add] at hfits
    -- what staging counted is what writing adds
    have hmore : Column.BoundedAll h.specification.root.children
        (rows.map (storedFields h.specification.plan)
          ++ [storedFields h.specification.plan row]) := by
      refine hs.plans.boundedAll_append hroom ?_ hbounded [.struct row] ?_
      · intro e he
        rw [hbatch]
        exact hs.slotCount_holding he
      · intro column
        simp [Operation.additionsBelow]
    have hwrite := hs.writeFields_holding (hs.plans.admits_storedFields hrow) hmore
    rw [← hbatch] at hwrite
    rw [WriterHandle.append_of_written hrun hwrite]
    left
    refine ⟨rfl, rfl, ?_, ?_, ?_⟩
    · simp [Specification.holding, Batch.of]
    · intro r hr
      rcases List.mem_append.1 hr with hr | hr
      · exact hconf r hr
      · rw [List.mem_singleton.1 hr]
        exact hrow
    · rw [List.map_append]
      exact hmore

/-- Of many rows those before the first failing one are added. -/
theorem appendAll (hs : s.WellFormed) (hh : Holds s rows h) (more : List Record) :
    Holds s (rows ++ h.accepted more) (h.appendAll more).handle := by
  induction more generalizing h rows with
  | nil => simpa [WriterHandle.accepted, WriterHandle.appendAll] using hh
  | cons row rest ih =>
    -- either the row is held and the others follow, or it is the first failing one
    rcases hh.append hs row with ⟨hok, hh'⟩ | ⟨e, he, hh', -⟩
    · have hrest := ih hh'
      simp only [WriterHandle.accepted, WriterHandle.appendAll, hok]
      rwa [List.append_assoc, List.singleton_append] at hrest
    · simp only [WriterHandle.accepted, WriterHandle.appendAll, he]
      rwa [List.append_nil]

/-- Finishing returns the arrays of the rows and keeps none of them. -/
theorem finish (hs : s.WellFormed) (hh : Holds s rows h) :
    h.finish.1 = .ok ⟨s.fields,
        (Column.arrayAll s.root.children (rows.map (storedFields s.plan))).map (·.2)⟩ ∧
      Holds s [] h.finish.2 := by
  have hfinish := hs.finish_holding (hh.admits hs)
  rw [← hh.batch, ← hh.specification] at hfinish
  unfold WriterHandle.finish
  rw [hfinish]
  refine ⟨by rw [hh.specification], hh.specification, ?_, by simp, ?_⟩
  · rw [hh.specification]
    rfl
  · exact Column.boundedAll_nil s.root.children

/-- The rows held after a step. -/
theorem act (hs : s.WellFormed) (hh : Holds s rows h) (a : Action) :
    Holds s (Run.unfinished rows (h.trace [a])) (h.act a).2 := by
  cases a with
  | append row =>
    show Holds s (rows ++ h.accepted [row]) (h.append row).handle
    rcases hh.append hs row with ⟨hok, hh'⟩ | ⟨e, he, hh', -⟩
    · simpa only [WriterHandle.accepted, hok] using hh'
    · simpa only [WriterHandle.accepted, he, List.append_nil] using hh'
  | appendAll more => exact hh.appendAll hs more
  | finish => exact (hh.finish hs).2
  | query q =>
    show Holds s (rows ++ []) h
    rwa [List.append_nil]

/-- The rows held after a run. -/
theorem after (hs : s.WellFormed) (hh : Holds s rows h) (actions : List Action) :
    Holds s (Run.unfinished rows (h.trace actions)) (h.after actions) := by
  induction actions generalizing h rows with
  | nil => exact hh
  | cons a rest ih =>
    -- the rest of the run begins with the rows held after the first step
    have hrest := ih (hh.act hs a)
    cases a <;> exact hrest

end Holds

/-! ### New handles -/

/-- A decimal that a column may have can be stored. -/
theorem LeafType.supported_decimal {precision : UInt8} {scale : Int8}
    (h : validDecimal precision scale = true) :
    (LeafType.decimal128 precision scale).supported = .ok () := by
  simp only [validDecimal, Bool.and_eq_true, decide_eq_true_eq] at h
  obtain ⟨⟨⟨hlow, hhigh⟩, -⟩, hscale⟩ := h
  have hmax : precision.toNat ≤ maxPrecision.toNat := UInt8.le_iff_toNat_le.1 hhigh
  have hle : scale.toInt ≤ maxPrecision.toNat := by omega
  simp [LeafType.supported, hlow, hhigh, hle, hscale]

/-- A vector can be made for every column of a regular tree. -/
theorem Column.Regular.supported {c : Column} (h : c.Regular) : c.supported = .ok () := by
  cases c with
  | primitive head kind =>
    -- every kind is supported, decimals with a possible precision and scale
    cases kind with
    | decimal precision scale => exact LeafType.supported_decimal h
    | _ => rfl
  | _ => rfl

/-- There is a handle for every well-formed specification, and it holds nothing. -/
theorem Specification.WellFormed.create {s : Specification} (hs : s.WellFormed)
    (o : WriterOptions) : ∃ h, WriterHandle.create s o = .ok h ∧ Holds s [] h := by
  obtain ⟨head, typeName, hroot⟩ := hs.isStruct
  have hpre : s.root.preorder = s.root :: Column.preorderChildren s.root.children := by
    rw [hroot]
    rfl
  -- only decimals need support, and those that compiling accepts have it
  have hsupported : s.root.preorder.forM Column.supported = .ok () := by
    refine forM_eq_ok fun d hd => ?_
    rw [hpre] at hd
    rcases List.mem_cons.1 hd with rfl | hd
    · rw [hroot]
      rfl
    · exact (hs.regular.of_mem_preorder hd).supported
  unfold WriterHandle.create
  rw [hsupported]
  refine ⟨_, rfl, rfl, ?_, by simp, ?_⟩
  · simp [Batch.empty, Specification.holding, Batch.of, hpre, Column.vectorsAll_nil_rows]
  · exact Column.boundedAll_nil s.root.children

/-- The rows that a run holds when it ends. -/
theorem Specification.WellFormed.holds_after {s : Specification} (hs : s.WellFormed)
    {o : WriterOptions} {h : WriterHandle} (hcreate : WriterHandle.create s o = .ok h)
    (actions : List Action) :
    Holds s (Run.unfinished [] (h.trace actions)) (h.after actions) := by
  obtain ⟨h', hcreate', hh⟩ := hs.create o
  cases hcreate.symm.trans hcreate'
  exact hh.after hs actions

/-- Every reachable handle holds some rows. -/
theorem WriterHandle.Reachable.holds {s : Specification} (hs : s.WellFormed) {h : WriterHandle}
    (hreach : Reachable s h) : ∃ rows, Holds s rows h := by
  induction hreach with
  | create hcreate => exact ⟨[], hs.holds_after hcreate []⟩
  | step hreach a ih =>
    obtain ⟨rows, hh⟩ := ih
    exact ⟨_, hh.act hs a⟩

end Columnar
