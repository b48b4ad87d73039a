import Columnar.Batch.Writing
import Columnar.Proofs.Batch.Layout
import Columnar.Proofs.Plan.Shape

/-! # Writing along a plan

    A value that its column admits is never refused: if the vectors of a tree
    hold some values, then after writing another one they hold that one, too,
    at the end (`Plans.writes`).  Vectors of columns outside the tree stay as
    they are.

    Trees are numbered in pre-order, so the vectors of a tree stand one after
    the other.  The theorems split the vectors of a batch into those before
    the tree, those of the tree, and those behind it. -/

namespace Columnar

/-! ### Batches by their vectors -/

theorem Batch.getElem?_of {pre post : List ColumnVector} {x : ColumnVector} {column : ColumnId}
    (hp : pre.length = column) (rows : Nat) :
    (Batch.of (pre ++ x :: post) rows).vectors[column]? = some x := by
  subst hp
  simp [Batch.of]

theorem Batch.update?_of {pre post : List ColumnVector} {x y : ColumnVector} {column : ColumnId}
    {change : ColumnVector → Option ColumnVector} (hp : pre.length = column)
    (hc : change x = some y) (rows : Nat) :
    (Batch.of (pre ++ x :: post) rows).update? column change =
      some (.of (pre ++ y :: post) rows) := by
  unfold Batch.update?
  rw [Batch.getElem?_of hp]
  subst hp
  simp [Batch.of, hc]

theorem Batch.appendNull_of {pre post : List ColumnVector} {x : ColumnVector} {column : ColumnId}
    (hp : pre.length = column) (rows : Nat) :
    (Batch.of (pre ++ x :: post) rows).appendNull column =
      .of (pre ++ x.appendNull :: post) rows := by
  subst hp
  -- only the vector behind the first ones is changed
  have hmod : (pre ++ x :: post).modify pre.length ColumnVector.appendNull =
      pre ++ x.appendNull :: post := by
    rw [List.modify_eq_take_cons_drop (by simp)]
    simp
  simp [Batch.of, Batch.appendNull, hmod]

/-- The vector of a tree's root has a slot for each value. -/
theorem Batch.slotCount_of {pre : List ColumnVector} {c : Column} (hp : pre.length = c.id)
    (post : List ColumnVector) (values : List Staged) (rows : Nat) :
    (Batch.of (pre ++ c.vectors values ++ post) rows).slotCount c.id = values.length := by
  obtain ⟨below, hbelow⟩ := c.vectors_eq_cons values
  unfold Batch.slotCount
  rw [hbelow, List.append_assoc, List.cons_append, Batch.getElem?_of hp]
  exact c.size_vector values

theorem Batch.close?_of {pre post : List ColumnVector} {x y : ColumnVector}
    {column element : ColumnId} {rows stop : Nat} (hp : pre.length = column)
    (hstop : (Batch.of (pre ++ x :: post) rows).slotCount element = stop)
    (hle : stop ≤ maxElements) (hc : x.close? stop = some y) :
    (Batch.of (pre ++ x :: post) rows).close? column element =
      some (.of (pre ++ y :: post) rows) := by
  unfold Batch.close?
  simp only [hstop]
  rw [if_pos hle, Batch.update?_of hp hc]

/-- A change that the vector takes is made. -/
theorem Writing.commit_run {target : Target} {change : Batch → Option Batch} {b b' : Batch}
    (h : change b = some b') : (Writing.commit target change).run.run b = (.ok (), b') := by
  unfold Writing.commit
  rw [run_bind_ok (run_get b)]
  simp only [h]
  rfl

/-! ### Absent values -/

mutual

/-- Writing an absent value adds an absent slot to the column and the fields below it. -/
theorem Plans.writeNull_of {path : Path} {c : Column} {op : Operation} (h : Plans path c op)
    (hr : c.Regular) {pre : List ColumnVector} (hp : pre.length = c.id) (post : List ColumnVector)
    (values : List Staged) (rows : Nat) :
    op.writeNull (.of (pre ++ c.vectors values ++ post) rows) =
      .of (pre ++ c.vectors (values ++ [.null]) ++ post) rows := by
  match h with
  | @Plans.primitive _ head kind =>
    have hp : pre.length = head.id := hp
    simp only [Operation.writeNull, Column.vectors_primitive, List.append_assoc, List.cons_append]
    rw [Batch.appendNull_of hp, Column.vector_snoc_null]
  | @Plans.list _ head _ c element helement =>
    have hp : pre.length = head.id := hp
    simp only [Operation.writeNull, Column.vectors_list, List.append_assoc, List.cons_append]
    rw [Batch.appendNull_of hp, Column.vector_snoc_null]
    -- an absent list has no elements, so that nothing is added below it
    simp [Staged.items]
  | @Plans.map _ head c d key value hkey hvalue =>
    have hp : pre.length = head.id := hp
    simp only [Operation.writeNull, Column.vectors_map, List.append_assoc, List.cons_append]
    rw [Batch.appendNull_of hp, Column.vector_snoc_null]
    simp [Staged.entries]
  | @Plans.struct _ head typeName children fields hfields =>
    have hp : pre.length = head.id := hp
    simp only [Operation.writeNull, Column.vectors_struct, List.append_assoc, List.cons_append]
    rw [Batch.appendNull_of hp, Column.vector_snoc_null, List.append_cons, ← List.append_assoc]
    -- the fields are padded behind the vector of the struct
    rw [hfields.writeNullFields_of hr (Column.length_snoc hp _)]
    simp [Staged.fields]

theorem PlansFields.writeNullFields_of {path : Path} {columns : List Column}
    {fields : List (Accessor × Operation)} (h : PlansFields path columns fields)
    {next : ColumnId} (hr : Column.RegularFrom next columns) {pre : List ColumnVector}
    (hp : pre.length = next) (post : List ColumnVector) (rows : List (List Staged)) (n : Nat) :
    Operation.writeNullFields fields (.of (pre ++ Column.vectorsAll columns rows ++ post) n) =
      .of (pre ++ Column.vectorsAll columns (rows ++ [[]]) ++ post) n := by
  match h with
  | .nil => rfl
  | @PlansFields.cons _ c rest accessor op ops hop hops =>
    obtain ⟨⟨rfl, -, -⟩, hc, hrest⟩ := hr
    rw [Operation.writeNullFields, Column.vectorsAll_cons, List.append_assoc pre,
      List.append_assoc, ← List.append_assoc pre, hop.writeNull_of hc hp, ← List.append_assoc]
    rw [hops.writeNullFields_of hrest (Column.length_append_vectors hp _)]
    simp

end

/-! ### Values -/

/-- Writing the value behind these adds it at the end of what the vectors of the tree hold. -/
def Operation.Writes (op : Operation) (c : Column) (values : List Staged) (v : Staged) : Prop :=
  ∀ (pre post : List ColumnVector) (rows : Nat), pre.length = c.id →
    (op.write v).run.run (.of (pre ++ c.vectors values ++ post) rows) =
      (.ok (), .of (pre ++ c.vectors (values ++ [v]) ++ post) rows)

section Writes

variable {path : Path} {head : ColumnHead} {values : List Staged}

theorem writes_scalar {kind : PrimitiveKind} {s : Scalar} (hs : kind.storage.accepts s) :
    Operation.Writes (.primitive ⟨head.id, path⟩ kind) (.primitive head kind) values
      (.scalar s) := by
  intro pre post rows hp
  have hp : pre.length = head.id := hp
  rw [Operation.write]
  apply Writing.commit_run
  simp only [Column.vectors_primitive, List.append_assoc, List.cons_append]
  exact Batch.update?_of hp (Column.vector_snoc_scalar head hs values) rows

/-- Marking a struct present leaves the vectors of its fields to be written. -/
theorem markPresent_run {typeName : String} {children : List Column} (row : List Staged)
    {pre : List ColumnVector} (hp : pre.length = head.id) (post : List ColumnVector) (rows : Nat) :
    (Writing.commit ⟨head.id, path⟩ (·.markPresent? head.id)).run.run
        (.of (pre ++ (Column.struct head typeName children).vectors values ++ post) rows) =
      (.ok (), .of ((pre ++ [(Column.struct head typeName children).vector
        (values ++ [.struct row])]) ++ Column.vectorsAll children (values.map Staged.fields)
          ++ post) rows) := by
  apply Writing.commit_run
  simp only [Column.vectors_struct, List.append_assoc, List.cons_append, List.nil_append]
  exact Batch.update?_of hp (Column.vector_snoc_struct head typeName children values row) rows

/-- The elements go to the vectors behind that of the list, one after the other; closing the list
    then finds the last of them. -/
theorem writes_list {averageSize : UInt32} {c : Column} {element : Operation} {items : List Staged}
    (hid : c.id = head.id + 1) (hcolumn : element.column = c.id)
    (hmax : (values.flatMap Staged.items ++ items).length ≤ maxElements)
    (hitems : ∀ before item after, items = before ++ item :: after →
      element.Writes c (values.flatMap Staged.items ++ before) item) :
    Operation.Writes (.list ⟨head.id, path⟩ element) (.list head averageSize c) values
      (.list items) := by
  intro pre post rows hp
  have hp : pre.length = head.id := hp
  generalize hx : (Column.list head averageSize c).vector values = x
  have hp' : (pre ++ [x]).length = c.id := (Column.length_snoc hp x).trans hid.symm
  -- the vectors in the loop hold the elements of earlier slots and those done
  have hloop := run_forM (ε := AppendError) (f := fun item => element.write item)
    (fun done => Batch.of ((pre ++ [x]) ++ c.vectors done ++ post) rows) items
    (values.flatMap Staged.items)
    fun before item after hsplit => hitems before item after hsplit _ post rows hp'
  -- the slot ends behind the last element that was written
  have hclose := Column.vector_snoc_list head averageSize c values items
  have hcount := Batch.slotCount_of hp' post (values.flatMap Staged.items ++ items) rows
  have hstart : pre ++ (Column.list head averageSize c).vectors values ++ post =
      (pre ++ [x]) ++ c.vectors (values.flatMap Staged.items) ++ post := by simp [hx]
  rw [Operation.write, hstart, run_bind_ok hloop]
  apply Writing.commit_run
  simp only [List.append_assoc, List.cons_append, List.nil_append] at hcount ⊢
  rw [hcolumn, Batch.close?_of hp hcount hmax (hx ▸ hclose)]
  simp [Staged.items]

/-- A key and a value are written for each entry, each behind the keys and values before. -/
theorem writes_map {c d : Column} {key value : Operation} {entries : List (Staged × Staged)}
    (hkid : c.id = head.id + 1) (hvid : d.id = c.id + c.count) (hcolumn : key.column = c.id)
    (hmax : (values.flatMap Staged.entries ++ entries).length ≤ maxElements)
    (hentries : ∀ before e after, entries = before ++ e :: after →
      key.Writes c ((values.flatMap Staged.entries ++ before).map (·.1)) e.1 ∧
        value.Writes d ((values.flatMap Staged.entries ++ before).map (·.2)) e.2) :
    Operation.Writes (.map ⟨head.id, path⟩ key value) (.map head c d) values (.map entries) := by
  intro pre post rows hp
  have hp : pre.length = head.id := hp
  generalize hx : (Column.map head c d).vector values = x
  have hpk : (pre ++ [x]).length = c.id := (Column.length_snoc hp x).trans hkid.symm
  have hpv : ∀ keys, (pre ++ [x] ++ c.vectors keys).length = d.id := by
    intro keys
    rw [Column.length_append_vectors hpk, hvid]
  -- while a key is written the vectors of the values stand behind it, and afterwards the vectors
  -- of the keys stand before the value
  have hloop := run_forM (ε := AppendError)
    (f := fun (e : Staged × Staged) => do key.write e.1; value.write e.2)
    (fun done => Batch.of ((pre ++ [x]) ++ c.vectors (done.map (·.1))
      ++ (d.vectors (done.map (·.2)) ++ post)) rows) entries
    (values.flatMap Staged.entries) fun before e after hsplit => by
      obtain ⟨hkey, hvalue⟩ := hentries before e after hsplit
      have hkey := hkey _ (d.vectors ((values.flatMap Staged.entries ++ before).map (·.2)) ++ post)
        rows hpk
      have hvalue := hvalue _ post rows
        (hpv ((values.flatMap Staged.entries ++ before).map (·.1) ++ [e.1]))
      simp only [← List.append_assoc] at hkey ⊢
      rw [run_bind_ok hkey, hvalue]
      simp
  have hclose := Column.vector_snoc_map head c d values entries
  have hcount := Batch.slotCount_of hpk
    (d.vectors ((values.flatMap Staged.entries ++ entries).map (·.2)) ++ post)
    ((values.flatMap Staged.entries ++ entries).map (·.1)) rows
  have hstart : pre ++ (Column.map head c d).vectors values ++ post =
      (pre ++ [x]) ++ c.vectors ((values.flatMap Staged.entries).map (·.1))
        ++ (d.vectors ((values.flatMap Staged.entries).map (·.2)) ++ post) := by simp [hx]
  rw [Operation.write, hstart]
  refine (run_bind_ok hloop).trans ?_
  apply Writing.commit_run
  -- there are as many keys as entries, so closing behind the keys is closing behind the entries
  rw [List.length_map] at hcount
  simp only [List.append_assoc, List.cons_append, List.nil_append] at hcount ⊢
  rw [hcolumn, Batch.close?_of hp hcount hmax (hx ▸ hclose)]
  simp [Staged.entries]

end Writes

mutual

/-- Every value that is admitted and stays within bounds is written. -/
theorem Plans.writes {path : Path} {c : Column} {op : Operation} (h : Plans path c op)
    (hr : c.Regular) {v : Staged} (hv : c.Admits v) {values : List Staged}
    (hb : c.Bounded (values ++ [v])) : op.Writes c values v := by
  -- absent values are written without any check
  by_cases hnull : v = .null
  · subst hnull
    intro pre post rows hp
    rw [Operation.write, run_modify, h.writeNull_of hr hp]
  match h with
  | @Plans.primitive _ head kind =>
    cases v with
    | scalar s => exact writes_scalar hv
    | null => contradiction
    | _ => exact hv.elim
  | @Plans.struct _ head typeName children fields hfields =>
    cases v with
    | struct row =>
      intro pre post rows hp
      have hp : pre.length = head.id := hp
      simp only [Column.Bounded, List.map_append] at hb
      rw [Operation.write, run_bind_ok (markPresent_run row hp post rows),
        hfields.writeFields_of hr hv hb (Column.length_snoc hp _)]
      simp [Staged.fields]
    | null => contradiction
    | _ => exact hv.elim
  | @Plans.list _ head averageSize c element helement =>
    cases v with
    | list items =>
      have hitems : ([Staged.list items]).flatMap Staged.items = items := by simp [Staged.items]
      simp only [Column.Bounded, List.flatMap_append, hitems] at hb
      refine writes_list hr.element.1 helement.column_eq hb.1 fun before item after hsplit => ?_
      -- with all elements in bounds, those up to this one are
      refine helement.writes hr.element.2 (hv item (by simp [hsplit])) ?_
      refine Column.Bounded.of_append after ?_
      simpa [hsplit] using hb.2
    | null => contradiction
    | _ => exact hv.elim
  | @Plans.map _ head c d key value hkey hvalue =>
    cases v with
    | map entries =>
      have hentries : ([Staged.map entries]).flatMap Staged.entries = entries := by
        simp [Staged.entries]
      simp only [Column.Bounded, List.flatMap_append, List.map_append, hentries] at hb
      refine writes_map hr.key.1 hr.value.1 hkey.column_eq (by simpa using hb.1)
        fun before e after hsplit => ?_
      obtain ⟨-, hk, hv⟩ := hv e (by simp [hsplit])
      constructor
      · refine hkey.writes hr.key.2 hk (Column.Bounded.of_append (after.map (·.1)) ?_)
        simpa [hsplit] using hb.2.1
      · refine hvalue.writes hr.value.2 hv (Column.Bounded.of_append (after.map (·.2)) ?_)
        simpa [hsplit] using hb.2.2
    | null => contradiction
    | _ => exact hv.elim

theorem PlansFields.writeFields_of {path : Path} {columns : List Column}
    {fields : List (Accessor × Operation)} (h : PlansFields path columns fields)
    {next : ColumnId} (hr : Column.RegularFrom next columns) {row : List Staged}
    (hrow : Column.AdmitsAll columns row) {rows : List (List Staged)}
    (hb : Column.BoundedAll columns (rows ++ [row])) {pre : List ColumnVector}
    (hp : pre.length = next) (post : List ColumnVector) (n : Nat) :
    (Operation.writeFields fields row).run.run
        (.of (pre ++ Column.vectorsAll columns rows ++ post) n) =
      (.ok (), .of (pre ++ Column.vectorsAll columns (rows ++ [row]) ++ post) n) := by
  match h with
  | .nil => rfl
  | @PlansFields.cons _ c rest accessor op ops hop hops =>
    obtain ⟨⟨rfl, -, -⟩, hc, hrest⟩ := hr
    cases row with
    | nil => exact hrow.elim
    | cons v row =>
      obtain ⟨hv, hrow⟩ := hrow
      simp only [Column.BoundedAll, List.map_append] at hb
      -- the vectors of the other fields are those behind the first one
      have hwrite := hop.writes hc hv hb.1 pre
        (Column.vectorsAll rest (rows.map List.tail) ++ post) n hp
      simp only [← List.append_assoc] at hwrite
      rw [Operation.writeFields, Column.vectorsAll_cons, ← List.append_assoc, run_bind_ok hwrite,
        hops.writeFields_of hrest hrow hb.2 (Column.length_append_vectors hp _)]
      simp

end

end Columnar
