import Columnar.Proofs.Batch.Addressing
import Columnar.Proofs.Batch.Watched
import Columnar.Proofs.Handle.Finishing

/-! # Offsets of a handle

    In whatever state a handle is, the offsets of its batch are well formed,
    also if the columns of its specification do not address their own vectors:
    rows may then be written in part and batches drained in part.

    Writing keeps offsets within their elements because a slot is closed where
    its elements end, and draining because a column gives up its offsets
    first. -/

namespace Columnar

/-! ### The invariant -/

/-- What synthesizing ensures for every column of a compiled tree; unlike those of well-formed
    specifications, numbers may begin anywhere. -/
structure Specification.Synthesized (s : Specification) : Prop where
  isStruct : ∃ head typeName, s.root = .struct head typeName s.root.children
  regular : s.root.Regular
  plans : PlansFields ⟨s.root.name, []⟩ s.root.children s.plan

theorem Specification.synthesized {c : Catalog} {tree root : Column}
    (hcompile : compile c = .ok tree) (hroot : root ∈ tree.preorder) {owner : Owner}
    {writerId : WriterId} {s : Specification} (hs : synthesize root owner writerId = .ok s) :
    s.Synthesized := by
  obtain ⟨_, _, htree⟩ := compile_regular hcompile
  obtain ⟨rfl, hstruct, -, -, hplans⟩ := synthesize_eq_ok hs
  exact ⟨hstruct, htree.of_mem_preorder hroot, hplans⟩

namespace Specification.Synthesized

variable {s : Specification}

theorem isCollection_root (hs : s.Synthesized) : s.root.isCollection = false := by
  obtain ⟨head, typeName, hroot⟩ := hs.isStruct
  rw [hroot]
  rfl

/-- No vector of a new batch has slots. -/
theorem delimited_empty (s : Specification) : Delimited s.root (Batch.empty s.root).vectors := by
  have hget : ∀ (id : ColumnId) (v : ColumnVector), (Batch.empty s.root).vectors[id]? = some v →
      ∃ c, v = .empty c := by
    intro id v hv
    rw [Batch.empty, List.getElem?_toArray, List.getElem?_map] at hv
    obtain ⟨c, -, rfl⟩ := Option.map_eq_some_iff.1 hv
    exact ⟨c, rfl⟩
  refine ⟨fun id v hv => ?_, fun c _ _ => ?_⟩
  · obtain ⟨c, rfl⟩ := hget id v hv
    cases c with
    | primitive head kind => trivial
    | struct head typeName children => trivial
    | list head averageSize element => exact SlotBounds.empty
    | map head key value => exact SlotBounds.empty
  · have hzero : lastOffsetAt (Batch.empty s.root).vectors c.id = 0 := by
      unfold lastOffsetAt
      cases hv : (Batch.empty s.root).vectors[c.id]? with
      | none => rfl
      | some v =>
        obtain ⟨d, rfl⟩ := hget c.id v hv
        cases d <;> rfl
    rw [hzero]
    exact Nat.zero_le _

theorem writeFields_keeps (hs : s.Synthesized) (values : List Staged) :
    Keeps (fun b => Delimited s.root b.vectors) (Operation.writeFields s.plan values) := by
  have hchildren : Column.preorderChildren s.root.children ⊆ s.root.preorder := by
    rw [Column.preorder_eq_cons]
    exact List.subset_cons_self _ _
  obtain ⟨head, typeName, hroot⟩ := hs.isStruct
  have hregular : Column.RegularFrom (head.id + 1) s.root.children := by
    have hregular := hs.regular
    rwa [hroot] at hregular
  exact hs.plans.write_keeps hregular hchildren values

theorem delimited_append (hs : s.Synthesized) {h : WriterHandle} (hspec : h.specification = s)
    (hd : Delimited s.root h.batch.vectors) (row : Record) :
    Delimited s.root (h.append row).handle.batch.vectors := by
  subst hspec
  rcases hstaged : h.staging row with ⟨e | staged, progress⟩
  · rw [WriterHandle.append_of_staging_error hstaged]
    exact hd
  · -- whatever was staged may be written in part only
    have hwritten := hs.writeFields_keeps staged h.batch hd
    rcases hwrite : (Operation.writeFields h.specification.plan staged).run.run h.batch
      with ⟨e | u, batch⟩
    · rw [WriterHandle.append_of_refused hstaged hwrite]
      rwa [hwrite] at hwritten
    · rw [WriterHandle.append_of_written hstaged hwrite]
      rwa [hwrite] at hwritten

theorem delimited_appendAll (hs : s.Synthesized) {h : WriterHandle} (hspec : h.specification = s)
    (hd : Delimited s.root h.batch.vectors) (rows : List Record) :
    Delimited s.root (h.appendAll rows).handle.batch.vectors := by
  induction rows generalizing h with
  | nil => exact hd
  | cons row rest ih =>
    have hrow := hs.delimited_append hspec hd row
    have hspec' : (h.append row).handle.specification = s :=
      (congrArg Prod.fst (h.setup_append row)).trans hspec
    cases hr : (h.append row).result with
    | error e => simpa only [WriterHandle.appendAll, hr] using hrow
    | ok u => simpa only [WriterHandle.appendAll, hr] using ih hspec' hrow

theorem delimited_finish (hs : s.Synthesized) {h : WriterHandle} (hspec : h.specification = s)
    (hd : Delimited s.root h.batch.vectors) : Delimited s.root h.finish.2.batch.vectors := by
  subst hspec
  have hdrained := hd.drainAll hs.regular hs.isCollection_root
  show Delimited _ (h.batch.finish h.specification).2.vectors
  unfold Batch.finish
  rcases hdrain : (Column.drainAll h.specification.root.children).run.run h.batch.vectors
    with ⟨e | arrays, vectors⟩
  · rwa [hdrain] at hdrained
  · rwa [hdrain] at hdrained

theorem delimited_act (hs : s.Synthesized) {h : WriterHandle} (hspec : h.specification = s)
    (hd : Delimited s.root h.batch.vectors) (a : Action) :
    Delimited s.root (h.act a).2.batch.vectors := by
  cases a with
  | append row => exact hs.delimited_append hspec hd row
  | appendAll rows => exact hs.delimited_appendAll hspec hd rows
  | finish => exact hs.delimited_finish hspec hd
  | query q => exact hd

/-- The offsets of every reachable handle are within their elements. -/
theorem delimited (hs : s.Synthesized) {h : WriterHandle} (hreach : h.Reachable s) :
    h.specification = s ∧ Delimited s.root h.batch.vectors := by
  induction hreach with
  | create hcreate =>
    obtain ⟨_, _, hcreate⟩ := exists_of_bind_eq_ok hcreate
    cases hcreate
    exact ⟨rfl, delimited_empty s⟩
  | @step h _ a ih =>
    obtain ⟨hspec, hd⟩ := ih
    exact ⟨(congrArg Prod.fst (h.setup_act a)).trans hspec, hs.delimited_act hspec hd a⟩

end Specification.Synthesized

/-! ### Well-formed offsets -/

/-- Finish a batch, unless an array would be given offsets that it does not take. -/
def Batch.watchFinish (s : Specification) (b : Batch) :
    Option (Except AssemblyError RecordBatch × Batch) :=
  ((Column.watchDrainAll s.root.children).run.run b.vectors).map fun
    | (.ok arrays, vectors) => (RecordBatch.make s.fields (arrays.map (·.2)), ⟨vectors, 0⟩)
    | (.error e, vectors) => (.error e, { b with vectors })

theorem Batch.watchFinish_eq {s : Specification} {b : Batch} (h : AllSound b.vectors) :
    b.watchFinish s = some (b.finish s) := by
  have hrun := (Column.watchDrainAll_watches s.root.children b.vectors h).1
  unfold Batch.watchFinish Batch.finish
  rw [hrun]
  rcases (Column.drainAll s.root.children).run.run b.vectors with ⟨e | arrays, vectors⟩
  · rfl
  · rfl

/-- The offsets of a batch are well formed, so slots can be counted and offsets handed over at any
    time. -/
structure Batch.OffsetsFormed (s : Specification) (b : Batch) : Prop where
  /-- There is an offset more than slots, the first is zero, none is smaller than the one before. -/
  bounds : ∀ (id : ColumnId) (offsets : Array Nat) (validity : Array Bool),
    b.vectors[id]? = some (.list offsets validity) ∨ b.vectors[id]? = some (.map offsets validity) →
      SlotBounds offsets validity
  lists : ∀ head averageSize element offsets,
    .list head averageSize element ∈ s.root.preorder → b.offsets? head.id = some offsets →
      offsets.back?.getD 0 ≤ b.slotCount element.id
  maps : ∀ head key value offsets,
    .map head key value ∈ s.root.preorder → b.offsets? head.id = some offsets →
      offsets.back?.getD 0 ≤ b.slotCount key.id
  counted : ∀ column, b.countable column = true
  written : ∀ values, (Operation.watchWriteFields s.plan values).run.run b =
    some ((Operation.writeFields s.plan values).run.run b)
  finished : b.watchFinish s = some (b.finish s)

theorem Delimited.back_le {root : Column} {b : Batch} (h : Delimited root b.vectors) {c : Column}
    (hc : c ∈ root.preorder) (hcollection : c.isCollection = true) {offsets : Array Nat}
    (hoffsets : b.offsets? c.id = some offsets) :
    offsets.back?.getD 0 ≤ b.slotCount (c.id + 1) := by
  have hwithin := h.within c hc hcollection
  obtain ⟨v, hv, hoffsets⟩ := Option.bind_eq_some_iff.1 hoffsets
  have hlast : lastOffsetAt b.vectors c.id = offsets.back?.getD 0 := by
    rw [lastOffsetAt, hv]
    show (v.offsets?.bind Array.back?).getD 0 = _
    rw [hoffsets]
    rfl
  rwa [hlast] at hwithin

theorem Specification.Synthesized.offsetsFormed {s : Specification} (hs : s.Synthesized)
    {b : Batch} (h : Delimited s.root b.vectors) : b.OffsetsFormed s where
  bounds := by
    intro id offsets validity hv
    rcases hv with hv | hv
    · exact h.sound id _ hv
    · exact h.sound id _ hv
  lists := by
    intro head averageSize element offsets hmem hoffsets
    have hid := (hs.regular.of_mem_preorder hmem).element.1
    rw [hid]
    exact h.back_le hmem rfl hoffsets
  maps := by
    intro head key value offsets hmem hoffsets
    have hid := (hs.regular.of_mem_preorder hmem).key.1
    rw [hid]
    exact h.back_le hmem rfl hoffsets
  counted := Batch.Countable.countable fun id v hv => (h.sound id v hv).countable
  written := fun values =>
    (Operation.watchWriteFields_watches s.plan values b
      fun id v hv => (h.sound id v hv).countable).1
  finished := Batch.watchFinish_eq h.sound

/-- The offsets of every handle are well formed after every run, whatever column of a compiled tree
    its specification was synthesized for, and whatever failed in the run. -/
theorem offsets_formed {c : Catalog} {tree root : Column} (hcompile : compile c = .ok tree)
    (hroot : root ∈ tree.preorder) {owner : Owner} {writerId : WriterId} {s : Specification}
    (hs : synthesize root owner writerId = .ok s) {h : WriterHandle} (hreach : h.Reachable s) :
    h.batch.OffsetsFormed s := by
  have hsynthesized := Specification.synthesized hcompile hroot hs
  exact hsynthesized.offsetsFormed (hsynthesized.delimited hreach).2

/-! ### An example -/

/-- Shipments of a parcel that has a weight and bears lists of labels. -/
def shipments : Catalog :=
  .ofList "Shipment" [
    { name := "Parcel", fields := [
      { name := "labels", type := .list (.list (.primitive "string")) },
      { name := "weight", type := .primitive "long" }] },
    { name := "Shipment", fields := [{ name := "parcel", type := .structOf "Parcel" }] }]

/-- What is synthesized for the parcels.  Their columns have the numbers 1 to 5, their vectors 0 to
    4, so what is a list of labels is written to the vector of single labels. -/
def parcelsSpecification : Specification where
  writerId := 0
  rootType := "Parcel"
  root := .struct ⟨1, "parcel", "parcel"⟩ "Parcel" [
    .list ⟨2, "labels", "labels"⟩ 1
      (.list ⟨3, "element", none⟩ 1 (.primitive ⟨4, "element", none⟩ .string)),
    .primitive ⟨5, "weight", "weight"⟩ .long]
  fields := [⟨"labels", .listOf (.listOf (.leaf .utf8)), true⟩, ⟨"weight", .leaf .int64, true⟩]
  hints := [⟨2, 3, 1, ⟨"parcel", ["labels"]⟩⟩, ⟨3, 4, 1, ⟨"parcel", ["labels", "element"]⟩⟩]
  plan := [
    (⟨0, "labels"⟩, .list ⟨2, ⟨"parcel", ["labels"]⟩⟩
      (.list ⟨3, ⟨"parcel", ["labels", "element"]⟩⟩
        (.primitive ⟨4, ⟨"parcel", ["labels", "element", "element"]⟩⟩ .string))),
    (⟨1, "weight"⟩, .primitive ⟨5, ⟨"parcel", ["weight"]⟩⟩ .long)]

/-- The tree that shipments are compiled to. -/
def shipmentsRoot : Column :=
  .struct ⟨0, "Shipment", none⟩ "Shipment" [parcelsSpecification.root]

theorem compile_shipments : compile shipments = .ok shipmentsRoot := by
  have hshipment : shipments.describe "Shipment" = some { name := "Shipment", fields := [
      { name := "parcel", type := .structOf "Parcel" }] } := by decide +kernel
  have hparcel : shipments.describe "Parcel" = some { name := "Parcel", fields := [
      { name := "labels", type := .list (.list (.primitive "string")) },
      { name := "weight", type := .primitive "long" }] } := by decide +kernel
  have hlong : KindTag.parse? "long" = some (.scalar .long) := by decide +kernel
  have hstring : KindTag.parse? "string" = some (.scalar .string) := by decide +kernel
  have hstruct : KindTag.parse? "struct" = some .struct := by decide +kernel
  have hlist : KindTag.parse? "list" = some .list := by decide +kernel
  have hroot : shipments.root = "Shipment" := by decide +kernel
  unfold compile
  rw [hroot, hshipment]
  refine expandStruct_eq_ok (by simp) hshipment ?_
  apply expandFields_cons_eq_ok (by simp)
  · refine expandType_struct_eq_ok (TypeRef.tag_of_parse? hstruct rfl) rfl ?_
    refine expandStruct_eq_ok (by simp) hparcel ?_
    apply expandFields_cons_eq_ok (by simp)
    · refine expandType_list_eq_ok (TypeRef.tag_of_parse? hlist rfl) rfl (by simp [TypeRef.list]) ?_
      refine expandType_list_eq_ok (TypeRef.tag_of_parse? hlist rfl) rfl (by simp [TypeRef.list]) ?_
      exact expandType_scalar_eq_ok (TypeRef.tag_of_parse? hstring rfl)
    · apply expandFields_cons_eq_ok (by simp)
      · exact expandType_scalar_eq_ok (TypeRef.tag_of_parse? hlong rfl)
      · exact expandFields_nil_eq_ok
  · exact expandFields_nil_eq_ok

theorem parcels_mem : parcelsSpecification.root ∈ shipmentsRoot.preorder := by
  simp [shipmentsRoot, parcelsSpecification, Column.preorder, Column.preorderChildren]

/-- A new handle for parcels. -/
def parcelsHandle : WriterHandle where
  specification := parcelsSpecification
  rowCapacity := 2
  reserved := [2, 2, 2, 2, 2]
  batch := .empty parcelsSpecification.root
  scratch := .fresh 5

/-- The handle after a parcel was refused, but not before its labels were written. -/
def parcelsRefused : WriterHandle :=
  (parcelsHandle.append
    (.ofFields [("labels", .ok (.list [.null])), ("weight", .ok (.long 7))])).handle

/-- Offsets are well formed when a parcel was written in part, and when a batch was drained in
    part. -/
theorem parcels_offsets_formed :
    parcelsRefused.batch.OffsetsFormed parcelsSpecification ∧
      parcelsRefused.finish.2.batch.OffsetsFormed parcelsSpecification ∧
      (parcelsRefused.batch.rows = 0 ∧ parcelsRefused.batch.offsets? 2 = some #[0, 1] ∧
        parcelsRefused.batch.slotCount 3 = 1) ∧
      (parcelsRefused.finish.1 = .error (.noVector 5 "weight") ∧
        parcelsRefused.finish.2.batch.offsets? 2 = some #[0]) := by
  have hcreate : WriterHandle.create parcelsSpecification ⟨2, false⟩ = .ok parcelsHandle := rfl
  have hsynthesize : synthesize parcelsSpecification.root shipments.describe 0 =
      .ok parcelsSpecification := rfl
  have hrefused : parcelsRefused.Reachable parcelsSpecification :=
    (WriterHandle.Reachable.create hcreate).step (.append
      (.ofFields [("labels", .ok (.list [.null])), ("weight", .ok (.long 7))]))
  refine ⟨?_, ?_, ⟨rfl, rfl, rfl⟩, by with_unfolding_all rfl, by with_unfolding_all rfl⟩
  · exact offsets_formed compile_shipments parcels_mem hsynthesize hrefused
  · exact offsets_formed compile_shipments parcels_mem hsynthesize (hrefused.step .finish)

end Columnar
