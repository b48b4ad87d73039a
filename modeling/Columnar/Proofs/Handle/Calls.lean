import Columnar.Proofs.Handle.Finishing
import Columnar.Proofs.Plan.Agreement
import Columnar.Proofs.Row.Walk

/-! # Calls of accessors

    An append calls accessors only while it stages the row, and writing calls
    none.  Staging is a walk along the plan (`Operation.stageFields_follows`),
    so that the calls are the readings of that walk: all of them, if the row can
    be staged, and those up to where the walk stops otherwise.

    What the walk stops at need not have been returned by the last reading.  A
    list is read at once, but the fields of its elements are read one element
    after the other, before the next element is looked at. -/

namespace Columnar

open Operation (walkFields readingsOfFields)

/-! ### Appends -/

namespace WriterHandle

theorem Reachable.specification_eq {s : Specification} {h : WriterHandle}
    (hreach : h.Reachable s) : h.specification = s := by
  induction hreach with
  | create hcreate =>
    obtain ⟨_, _, hcreate⟩ := exists_of_bind_eq_ok hcreate
    cases hcreate
    rfl
  | @step g hreach a ih => exact (congrArg Prod.fst (g.setup_act a)).trans ih

/-- Before anything is staged no occasion was passed. -/
theorem passed_fresh (columnCount : Nat) :
    Progress.Passed ⟨.fresh columnCount, #[]⟩ columnCount [] :=
  ⟨Array.size_replicate, rfl, fun column _ => pending_fresh columnCount column⟩

variable {h : WriterHandle} {row : Record}

/-- Accessors are called by staging only. -/
theorem calls_append (h : WriterHandle) (row : Record) :
    (h.append row).calls = (h.staging row).2.calls.toList := by
  rcases hstaged : h.staging row with ⟨e | staged, progress⟩
  · rw [append_of_staging_error hstaged]
  · rcases hwrite : (Operation.writeFields h.specification.plan staged).run.run h.batch
      with ⟨e | u, batch⟩
    · rw [append_of_refused hstaged hwrite]
    · rw [append_of_written hstaged hwrite]

/-- Staging a row goes through the walk along the plan from its beginning. -/
theorem staging_follows (h : WriterHandle) (row : Record) :
    Follows.Ends h.batch.slotCount h.specification.columnCount []
      (walkFields h.specification.plan row) (h.staging row) :=
  Operation.stageFields_follows _ _ _ _ _ _ (passed_fresh _)

/-- A row that can be staged is read as a whole, whether it can be written or not. -/
theorem calls_of_staged {staged : List Staged} (hs : (h.staging row).1 = .ok staged) :
    (h.append row).calls = readingsOf (walkFields h.specification.plan row) := by
  have hfollows := h.staging_follows row
  rw [calls_append]
  rcases hrun : h.staging row with ⟨r, progress⟩
  rw [hrun] at hs hfollows
  cases hs
  exact hfollows.2.calls

/-- Staging that fails calls what the walk reads until it stops. -/
theorem calls_of_staging_error {e : AppendError} (he : (h.staging row).1 = .error e) :
    (h.append row).result = .error e ∧
      ∃ stopped, StopsWith h.batch.slotCount h.specification.columnCount []
          (walkFields h.specification.plan row) stopped e ∧
        (h.append row).calls = readingsOf stopped := by
  have hfollows := h.staging_follows row
  rcases hrun : h.staging row with ⟨r, progress⟩
  rw [hrun] at he hfollows
  cases he
  rw [append_of_staging_error hrun]
  exact ⟨rfl, hfollows⟩

end WriterHandle

/-! ### Plans -/

/-- For whatever specification is synthesized, and in whatever state its handle is, an append calls
    the accessors of the row in the order of the plan, each once for every struct value that is
    there and those below a field's value before those of the next field.  If staging fails the
    calls end where the walk along the plan stops; otherwise all of them are made, whatever becomes
    of the writing. -/
theorem calls_follow_plan {root : Column} {owner : Owner} {writerId : WriterId}
    {s : Specification} (hs : synthesize root owner writerId = .ok s) {h : WriterHandle}
    (hreach : h.Reachable s) (row : Record) :
    List.Forall₂ (Node.Filled owner) root.nodesBelow s.operations ∧
    readingsOf (walkFields s.plan row) = readingsOfFields s.plan row ∧
    (h.append row).calls <+: readingsOfFields s.plan row ∧
    (∀ staged, (h.staging row).1 = .ok staged →
      (h.append row).calls = readingsOfFields s.plan row) ∧
    ∀ e, (h.staging row).1 = .error e → (h.append row).result = .error e ∧
      ∃ stopped, StopsWith h.batch.slotCount s.columnCount [] (walkFields s.plan row) stopped e ∧
        (h.append row).calls = readingsOf stopped := by
  have hspec := hreach.specification_eq
  subst hspec
  have hwalk := Operation.readingsOf_walkFields h.specification.plan row
  have hall : ∀ staged, (h.staging row).1 = .ok staged →
      (h.append row).calls = readingsOfFields h.specification.plan row := by
    intro staged hstaged
    exact (WriterHandle.calls_of_staged hstaged).trans hwalk
  refine ⟨filled_of_synthesize hs, hwalk, ?_, hall, fun e he =>
    WriterHandle.calls_of_staging_error he⟩
  cases hstaged : (h.staging row).1 with
  | ok staged => exact (hall staged hstaged) ▸ List.prefix_rfl
  | error e =>
    obtain ⟨-, stopped, ⟨before, last, after, hsplit, rfl, -, -⟩, hcalls⟩ :=
      WriterHandle.calls_of_staging_error hstaged
    rw [hcalls, ← hwalk, hsplit, List.append_cons before last after,
      readingsOf_append (before ++ [last])]
    exact List.prefix_append _ _

/-! ### An example -/

/-- Baskets of items that have a price. -/
def baskets : Catalog :=
  .ofList "Basket" [
    { name := "Basket", fields := [{ name := "items", type := .list (.structOf "Item") }] },
    { name := "Item", fields := [{ name := "price", type := .primitive "long" }] }]

/-- What is built for baskets. -/
def basketsSpecification : Specification where
  writerId := 0
  rootType := "Basket"
  root := .struct ⟨0, "Basket", none⟩ "Basket" [
    .list ⟨1, "items", "items"⟩ 1
      (.struct ⟨2, "element", none⟩ "Item" [.primitive ⟨3, "price", "price"⟩ .long])]
  fields := [⟨"items", .listOf (.struct [⟨"price", .leaf .int64, true⟩]), true⟩]
  hints := [⟨1, 2, 1, ⟨"Basket", ["items"]⟩⟩]
  plan := [
    (⟨0, "items"⟩, .list ⟨1, ⟨"Basket", ["items"]⟩⟩
      (.struct ⟨2, ⟨"Basket", ["items", "element"]⟩⟩
        [(⟨0, "price"⟩, .primitive ⟨3, ⟨"Basket", ["items", "element", "price"]⟩⟩ .long)]))]

theorem compile_baskets : compile baskets = .ok basketsSpecification.root := by
  have hbasket : baskets.describe "Basket" = some { name := "Basket", fields := [
      { name := "items", type := .list (.structOf "Item") }] } := by decide +kernel
  have hitem : baskets.describe "Item" =
      some { name := "Item", fields := [{ name := "price", type := .primitive "long" }] } := by
    decide +kernel
  have hlong : KindTag.parse? "long" = some (.scalar .long) := by decide +kernel
  have hstruct : KindTag.parse? "struct" = some .struct := by decide +kernel
  have hlist : KindTag.parse? "list" = some .list := by decide +kernel
  have hroot : baskets.root = "Basket" := by decide +kernel
  unfold compile
  rw [hroot, hbasket]
  refine expandStruct_eq_ok (by simp) hbasket ?_
  apply expandFields_cons_eq_ok (by simp)
  · refine expandType_list_eq_ok (TypeRef.tag_of_parse? hlist rfl) rfl (by simp [TypeRef.list]) ?_
    refine expandType_struct_eq_ok (TypeRef.tag_of_parse? hstruct rfl) rfl ?_
    refine expandStruct_eq_ok (by simp) hitem ?_
    apply expandFields_cons_eq_ok (by simp)
    · exact expandType_scalar_eq_ok (TypeRef.tag_of_parse? hlong rfl)
    · exact expandFields_nil_eq_ok
  · exact expandFields_nil_eq_ok

theorem build_baskets : Specification.build baskets 0 = .ok basketsSpecification := by
  unfold Specification.build
  rw [compile_baskets]
  rfl

/-- A new handle for baskets. -/
def basketsHandle : WriterHandle where
  specification := basketsSpecification
  rowCapacity := 2
  reserved := [2, 2, 2, 2]
  batch := .empty basketsSpecification.root
  scratch := .fresh 4

theorem create_baskets :
    WriterHandle.create basketsSpecification ⟨2, true⟩ = .ok basketsHandle := rfl

def basket (items : List Value) : Record := .ofFields [("items", .ok (.list items))]

def item (price : Int64) : Value := .struct (Record.ofFields [("price", .ok (.long price))])

/-- The second item of a basket is no struct.  It was returned by the reading of the items, and
    without it the basket would be accepted; but the price of the first item is read before. -/
theorem price_read_before_refusal :
    Specification.build baskets 0 = .ok basketsSpecification ∧
    basketsHandle.Reachable basketsSpecification ∧
    (basketsHandle.append (basket [item 5])).result = .ok () ∧
    basket [item 5, .long 7] ⟨0, "items"⟩ = .ok (.list [item 5, .long 7]) ∧
    (basketsHandle.append (basket [item 5, .long 7])).result =
      .error (.typeMismatch ⟨"Basket", ["items", "element"]⟩ "struct" "bigint") ∧
    (basketsHandle.append (basket [item 5, .long 7])).calls = [⟨0, "items"⟩, ⟨0, "price"⟩] ∧
    (basketsHandle.append (basket [item 5, .long 7])).calls ≠ [⟨0, "items"⟩] := by
  have hcalls : (basketsHandle.append (basket [item 5, .long 7])).calls =
      [⟨0, "items"⟩, ⟨0, "price"⟩] := by with_unfolding_all rfl
  refine ⟨build_baskets, .create create_baskets, by with_unfolding_all rfl, rfl,
    by with_unfolding_all rfl, hcalls, ?_⟩
  rw [hcalls]
  decide

/-- The walk along the plan stops at the second item, behind the price of the first one. -/
theorem baskets_calls :
    ∃ stopped, StopsWith basketsHandle.batch.slotCount basketsSpecification.columnCount []
      (walkFields basketsSpecification.plan (basket [item 5, .long 7])) stopped
      (.typeMismatch ⟨"Basket", ["items", "element"]⟩ "struct" "bigint") ∧
    readingsOf stopped = [⟨0, "items"⟩, ⟨0, "price"⟩] := by
  have hs : synthesize basketsSpecification.root baskets.describe 0 = .ok basketsSpecification :=
    rfl
  obtain ⟨-, -, -, -, herror⟩ :=
    calls_follow_plan hs (.create create_baskets) (basket [item 5, .long 7])
  obtain ⟨-, stopped, hstops, hcalls⟩ := herror
    (.typeMismatch ⟨"Basket", ["items", "element"]⟩ "struct" "bigint") (by with_unfolding_all rfl)
  have hmade : (basketsHandle.append (basket [item 5, .long 7])).calls =
      [⟨0, "items"⟩, ⟨0, "price"⟩] := by with_unfolding_all rfl
  exact ⟨stopped, hstops, hcalls.symm.trans hmade⟩

end Columnar
