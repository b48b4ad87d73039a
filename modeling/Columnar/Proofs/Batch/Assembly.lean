import Columnar.Batch.Assembly
import Columnar.Proofs.Batch.Layout
import Columnar.Proofs.Plan.Shape

/-! # Assembling what was written

    Draining the vectors of a tree gives an array of the same slots and leaves
    the vectors of a tree without slots (`Column.drain_of`).  None of the checks
    on arrays fails: the fields of a struct have a slot for each slot of the
    struct, keys are present, the last offset is the number of elements, and the
    types are those that were synthesized. -/

namespace Columnar

/-! ### Arrays -/

namespace Column

mutual

/-- The array of a column with these slots. -/
def array (c : Column) (values : List Staged) : ColumnArray :=
  match c with
  | .primitive _ kind => .leaf kind.storage (values.map Staged.scalar?).toArray
  | .struct _ _ children => .struct (presence values) (arrayAll children (values.map Staged.fields))
  | .list _ _ element =>
    .list (presence values) (slotOffsets Staged.items values)
      (array element (values.flatMap Staged.items))
  | .map _ key value =>
    .map (presence values) (slotOffsets Staged.entries values)
      (array key ((values.flatMap Staged.entries).map (·.1)))
      (array value ((values.flatMap Staged.entries).map (·.2)))

/-- The arrays of all fields of these rows, with the names of the fields. -/
def arrayAll (columns : List Column) (rows : List (List Staged)) : List (String × ColumnArray) :=
  match columns with
  | [] => []
  | c :: rest => (c.name, array c (rows.map (·.headD .null))) :: arrayAll rest (rows.map List.tail)

end

@[simp] theorem size_array (c : Column) (values : List Staged) :
    (c.array values).size = values.length := by
  cases c <;> simp [array, ColumnArray.size, presence]

theorem size_of_mem_arrayAll {columns : List Column} {rows : List (List Staged)}
    {f : String × ColumnArray} (h : f ∈ arrayAll columns rows) : f.2.size = rows.length := by
  induction columns generalizing rows with
  | nil => cases h
  | cons c rest ih =>
    rcases List.mem_cons.1 h with rfl | h
    · simp
    · simpa using ih h

/-- A slot of an array is present if its value is. -/
theorem validity_array {c : Column} {values : List Staged} (h : ∀ v ∈ values, c.Admits v) :
    (c.array values).validity = presence values := by
  cases c with
  | primitive head kind =>
    -- a leaf column admits nothing but scalars, and has no other slots that are present
    have hsome : ∀ v ∈ values, v.scalar?.isSome = v.present := by
      intro v hv
      cases v with
      | null => rfl
      | scalar s => rfl
      | _ => exact (h _ hv).elim
    simpa [array, ColumnArray.validity, presence] using hsome
  | _ => rfl

/-! ### Types -/

/-- Keys and values of maps have types, too. -/
theorem storageType_map {path : Path} {head : ColumnHead} {key value : Column}
    {type : StorageType} (h : storageType path (.map head key value) = .ok type) :
    (∃ t, storageType (path.child key.name) key = .ok t) ∧
      ∃ t, storageType (path.child value.name) value = .ok t := by
  unfold storageType at h
  split at h
  · obtain ⟨type, htype, -⟩ := exists_of_bind_eq_ok h
    exact ⟨⟨_, rfl⟩, type, htype⟩
  · cases h

mutual

/-- The array of a column has the type that was synthesized for the column. -/
theorem type_array {path : Path} {c : Column} {type : StorageType}
    (h : storageType path c = .ok type) (values : List Staged) : (c.array values).type = type := by
  match c with
  | .primitive head kind =>
    cases h
    rfl
  | .struct head typeName children =>
    unfold storageType at h
    split at h
    · cases h
    · obtain ⟨fields, hfields, h⟩ := exists_of_bind_eq_ok h
      cases h
      exact congrArg StorageType.struct (fieldTypes_arrayAll hfields _)
  | .list head averageSize element =>
    obtain ⟨type, htype, h⟩ := exists_of_bind_eq_ok h
    cases h
    exact congrArg StorageType.listOf (type_array htype _)
  | .map head key value =>
    unfold storageType at h
    split at h
    · obtain ⟨type, htype, h⟩ := exists_of_bind_eq_ok h
      cases h
      exact congrArg (StorageType.mapOf _) (type_array htype _)
    · cases h

theorem fieldTypes_arrayAll {path : Path} {columns : List Column} {fields : List StorageField}
    (h : storageFields path columns = .ok fields) (rows : List (List Staged)) :
    ColumnArray.fieldTypes (arrayAll columns rows) = fields := by
  match columns with
  | [] =>
    cases h
    rfl
  | c :: rest =>
    obtain ⟨type, htype, h⟩ := exists_of_bind_eq_ok h
    obtain ⟨fields, hfields, h⟩ := exists_of_bind_eq_ok h
    cases h
    rw [arrayAll, ColumnArray.fieldTypes, type_array htype, fieldTypes_arrayAll hfields]

end

end Column

/-! ### Checks that succeed -/

theorem presence_all {values : List Staged} :
    (presence values).all id ↔ ∀ v ∈ values, v.present := by
  simp [presence]

/-- Which slots are present survives being recorded only where some are absent. -/
theorem validityOf_presence (values : List Staged) {size : Nat} (h : values.length = size) :
    validityOf (nullRecord (presence values)) size = .ok (presence values) := by
  subst h
  unfold nullRecord
  -- nothing is recorded if no slot is absent
  by_cases hall : (presence values).all id
  · rw [if_pos hall]
    have hrep : presence values = Array.replicate values.length true := by
      rw [Array.eq_replicate_iff]
      simpa [presence] using hall
    exact congrArg Except.ok hrep.symm
  · rw [if_neg hall]
    exact if_pos (by simp [presence])

/-! ### Draining -/

namespace Draining

theorem getElem?_of {pre post : List ColumnVector} {x : ColumnVector} {column : ColumnId}
    (hp : pre.length = column) : (pre ++ x :: post).toArray[column]? = some x := by
  subst hp
  simp

theorem put_of {pre post : List ColumnVector} {x : ColumnVector} {column : ColumnId}
    (hp : pre.length = column) (y : ColumnVector) :
    (put column y).run.run (pre ++ x :: post).toArray = (.ok (), (pre ++ y :: post).toArray) := by
  subst hp
  unfold put
  rw [run_modify]
  simp

variable {head : ColumnHead} {pre post : List ColumnVector}

/-- Nothing more is to be done for a leaf. -/
theorem start_of_leaf (hp : pre.length = head.id) (type : LeafType)
    (slots : Array (Option Scalar)) :
    (start head).run.run (pre ++ .leaf type slots :: post).toArray =
      (.ok (.inl (.leaf type slots)), (pre ++ .leaf type #[] :: post).toArray) := by
  unfold start
  rw [run_bind_ok (run_get _)]
  simp only [getElem?_of hp]
  rw [run_bind_ok (put_of hp _), run_pure]

/-- The vector of any other column stays as it is for now. -/
theorem start_of_nested {x : ColumnVector} (hp : pre.length = head.id)
    (hx : ∀ type slots, x ≠ .leaf type slots) :
    (start head).run.run (pre ++ x :: post).toArray =
      (.ok (.inr x), (pre ++ x :: post).toArray) := by
  unfold start
  rw [run_bind_ok (run_get _)]
  simp only [getElem?_of hp]
  cases x with
  | leaf type slots => exact absurd rfl (hx type slots)
  | _ => rfl

theorem takeValidity_of (hp : pre.length = head.id) (validity : Array Bool) :
    (takeValidity head.id (.struct validity)).run.run (pre ++ .struct validity :: post).toArray =
      (.ok (nullRecord validity), (pre ++ .struct #[] :: post).toArray) := by
  unfold takeValidity
  rw [run_bind_ok (put_of hp _), run_pure]

theorem takeOffsets_of_list (hp : pre.length = head.id) (offsets : Array Nat)
    (validity : Array Bool) :
    (takeOffsets head.id (.list offsets validity)).run.run
        (pre ++ .list offsets validity :: post).toArray =
      (.ok (nullRecord validity, offsets), (pre ++ .list #[0] #[] :: post).toArray) := by
  unfold takeOffsets
  rw [run_bind_ok (put_of hp _), run_pure]

theorem takeOffsets_of_map (hp : pre.length = head.id) (offsets : Array Nat)
    (validity : Array Bool) :
    (takeOffsets head.id (.map offsets validity)).run.run
        (pre ++ .map offsets validity :: post).toArray =
      (.ok (nullRecord validity, offsets), (pre ++ .map #[0] #[] :: post).toArray) := by
  unfold takeOffsets
  rw [run_bind_ok (put_of hp _), run_pure]

end Draining

namespace ColumnArray

theorem mkStruct_presence {fields : List (String × ColumnArray)} (values : List Staged)
    (hne : fields ≠ []) (hsize : ∀ f ∈ fields, f.2.size = values.length) :
    mkStruct (nullRecord (presence values)) fields = .ok (.struct (presence values) fields) := by
  cases fields with
  | nil => contradiction
  | cons f rest =>
    have hany : ((f :: rest).any fun g => g.2.size != f.2.size) = false := by
      rw [List.any_eq_false]
      intro g hg
      simp [hsize g hg, hsize f]
    unfold mkStruct
    simp only [validityOf_presence values (hsize f (by simp)).symm]
    show (if _ then _ else _) = _
    rw [if_neg (by simpa using hany)]
    rfl

theorem mkList_presence {α : Type} {element : ColumnArray} {parts : Staged → List α}
    (values : List Staged) (hsize : element.size = (values.flatMap parts).length) :
    mkList (nullRecord (presence values)) (slotOffsets parts values) element =
      .ok (.list (presence values) (slotOffsets parts values) element) := by
  have hn : (slotOffsets parts values).size - 1 = values.length := by simp [slotOffsets]
  unfold mkList
  rw [back?_slotOffsets, hn, validityOf_presence values rfl]
  simp only [Option.getD_some, hsize, Nat.lt_irrefl]
  rfl

theorem mkMap_presence {α : Type} {key value : ColumnArray} {parts : Staged → List α}
    {keys : List Staged} (values : List Staged) (hkey : key.size = (values.flatMap parts).length)
    (hvalue : value.size = (values.flatMap parts).length) (hkeys : key.validity = presence keys)
    (hpresent : ∀ k ∈ keys, k.present) :
    mkMap (nullRecord (presence values)) (slotOffsets parts values) key value =
      .ok (.map (presence values) (slotOffsets parts values) key value) := by
  have hn : (slotOffsets parts values).size - 1 = values.length := by simp [slotOffsets]
  unfold mkMap
  rw [back?_slotOffsets, hn, validityOf_presence values rfl, hkeys]
  simp only [Option.getD_some, hkey, hvalue, presence_all.2 hpresent, Nat.lt_irrefl,
    bne_self_eq_false, Bool.not_true]
  rfl

end ColumnArray

/-! ### Trees -/

namespace Column

mutual

/-- Draining gives the array of what the vectors of a tree hold, and empties them. -/
theorem drain_of {path : Path} {c : Column} {type : StorageType}
    (h : storageType path c = .ok type) (hr : c.Regular) {values : List Staged}
    (hv : ∀ v ∈ values, c.Admits v) {pre : List ColumnVector} (hp : pre.length = c.id)
    (post : List ColumnVector) :
    c.drain.run.run (pre ++ c.vectors values ++ post).toArray =
      (.ok (c.array values), (pre ++ c.vectors [] ++ post).toArray) := by
  match c with
  | .primitive head kind =>
    have hp : pre.length = head.id := hp
    simp only [vectors_primitive, List.append_assoc, List.singleton_append, vector]
    rw [drain, run_bind_ok (Draining.start_of_leaf hp _ _)]
    rfl
  | .struct head typeName children =>
    have hp : pre.length = head.id := hp
    unfold storageType at h
    split at h
    · cases h
    · next hempty =>
      obtain ⟨fields, hfields, -⟩ := exists_of_bind_eq_ok h
      have hp' := length_snoc hp (ColumnVector.struct #[])
      -- a struct without fields has no type, so there is a first field that tells the length
      have hne : arrayAll children (values.map Staged.fields) ≠ [] := by
        cases children with
        | nil => simp at hempty
        | cons c rest => simp [arrayAll]
      have hmk := ColumnArray.mkStruct_presence values hne
        fun f hf => by simpa using size_of_mem_arrayAll hf
      -- the struct's own vector is empty by the time its fields are drained
      have hdrain := drainAll_of hfields hr (admits_fields hv) hp' post
      simp only [List.append_assoc, List.cons_append, List.nil_append] at hdrain
      simp only [vectors_struct, List.append_assoc, List.cons_append, vector]
      rw [drain, run_bind_ok (Draining.start_of_nested hp (by simp))]
      dsimp only
      rw [run_bind_ok (Draining.takeValidity_of hp _), run_bind_ok hdrain, hmk]
      rfl
  | .list head averageSize element =>
    have hp : pre.length = head.id := hp
    obtain ⟨hid, hr⟩ := hr.element
    obtain ⟨type, htype, -⟩ := exists_of_bind_eq_ok h
    have hp' := (length_snoc hp (ColumnVector.list #[0] #[])).trans hid.symm
    -- the last offset is the number of elements, as the check on lists requires
    have hmk := ColumnArray.mkList_presence values
      (size_array element (values.flatMap Staged.items))
    have hdrain := drain_of htype hr (admits_items hv) hp' post
    simp only [List.append_assoc, List.cons_append, List.nil_append] at hdrain
    simp only [vectors_list, List.append_assoc, List.cons_append, vector]
    rw [drain, run_bind_ok (Draining.start_of_nested hp (by simp))]
    dsimp only
    rw [run_bind_ok (Draining.takeOffsets_of_list hp _ _), run_bind_ok hdrain]
    dsimp only
    rw [hmk]
    rfl
  | .map head key value =>
    have hp : pre.length = head.id := hp
    obtain ⟨hkid, hkr⟩ := hr.key
    obtain ⟨hvid, hvr⟩ := hr.value
    obtain ⟨⟨ktype, htk⟩, vtype, htv⟩ := storageType_map h
    have hpk := (length_snoc hp (ColumnVector.map #[0] #[])).trans hkid.symm
    have hpv := (length_append_vectors hpk []).trans hvid.symm
    -- keys and values have an entry each, and no key is absent
    have hksize : (key.array ((values.flatMap Staged.entries).map (·.1))).size =
        (values.flatMap Staged.entries).length := by
      rw [size_array, List.length_map]
    have hvsize : (value.array ((values.flatMap Staged.entries).map (·.2))).size =
        (values.flatMap Staged.entries).length := by
      rw [size_array, List.length_map]
    have hmk := ColumnArray.mkMap_presence values hksize hvsize
      (validity_array fun k hmem => (admits_keys hv k hmem).2)
      fun k hmem => (admits_keys hv k hmem).1
    have hdraink := drain_of htk hkr (fun k hmem => (admits_keys hv k hmem).2) hpk
      (value.vectors ((values.flatMap Staged.entries).map (·.2)) ++ post)
    have hdrainv := drain_of htv hvr (admits_values hv) hpv post
    simp only [List.append_assoc, List.cons_append, List.nil_append] at hdraink hdrainv
    simp only [vectors_map, List.append_assoc, List.cons_append, vector]
    rw [drain, run_bind_ok (Draining.start_of_nested hp (by simp))]
    dsimp only
    rw [run_bind_ok (Draining.takeOffsets_of_map hp _ _), run_bind_ok hdraink,
      run_bind_ok hdrainv]
    dsimp only
    rw [hmk]
    rfl

theorem drainAll_of {path : Path} {columns : List Column} {fields : List StorageField}
    (h : storageFields path columns = .ok fields) {next : ColumnId}
    (hr : RegularFrom next columns) {rows : List (List Staged)}
    (hrows : ∀ row ∈ rows, row = [] ∨ AdmitsAll columns row) {pre : List ColumnVector}
    (hp : pre.length = next) (post : List ColumnVector) :
    (drainAll columns).run.run (pre ++ vectorsAll columns rows ++ post).toArray =
      (.ok (arrayAll columns rows), (pre ++ vectorsAll columns [] ++ post).toArray) := by
  match columns with
  | [] => rfl
  | c :: rest =>
    obtain ⟨type, htype, h⟩ := exists_of_bind_eq_ok h
    obtain ⟨fields, hfields, h⟩ := exists_of_bind_eq_ok h
    obtain ⟨⟨rfl, -, -⟩, hc, hrest⟩ := hr
    obtain ⟨hfirst, hothers⟩ := admits_rows hrows
    have hp' := length_append_vectors hp []
    have hdrain := drain_of htype hc hfirst hp (vectorsAll rest (rows.map List.tail) ++ post)
    have hdrains := drainAll_of hfields hrest hothers hp' post
    simp only [← List.append_assoc] at hdrain
    rw [drainAll, vectorsAll_cons, vectorsAll_cons, ← List.append_assoc, ← List.append_assoc,
      run_bind_ok hdrain, run_bind_ok hdrains]
    rfl

end

end Column

/-! ### Whole batches -/

theorem map_type_of_fieldTypes {arrays : List (String × ColumnArray)} {fields : List StorageField}
    (h : ColumnArray.fieldTypes arrays = fields) :
    (arrays.map (·.2)).map ColumnArray.type = fields.map FieldOf.type := by
  induction arrays generalizing fields with
  | nil =>
    subst h
    rfl
  | cons a rest ih =>
    subst h
    simpa [ColumnArray.fieldTypes] using ih rfl

/-- Columns of the same length and the right types make a batch. -/
theorem RecordBatch.make_eq_ok {fields : List StorageField} {columns : List ColumnArray} {n : Nat}
    (hsize : ∀ a ∈ columns, a.size = n)
    (htype : columns.map ColumnArray.type = fields.map FieldOf.type) :
    make fields columns = .ok ⟨fields, columns⟩ := by
  -- the first column gives the number of rows, and all others agree with it
  have hany : columns.any (fun a => a.size != (RecordBatch.mk fields columns).rows) = false := by
    rw [List.any_eq_false]
    intro a ha
    cases columns with
    | nil => cases ha
    | cons b rest => simp [RecordBatch.rows, hsize a ha, hsize b]
  unfold make
  simp only [hany, htype]
  simp

/-- Finishing gives the arrays of the rows in the batch, and empties the batch. -/
theorem Specification.WellFormed.finish_holding {s : Specification} (hs : s.WellFormed)
    {rows : List (List Staged)} (hrows : ∀ row ∈ rows, Column.AdmitsAll s.root.children row) :
    (s.holding rows).finish s =
      (.ok ⟨s.fields, (Column.arrayAll s.root.children rows).map (·.2)⟩, s.holding []) := by
  have hroot : [s.root.vector []].length = 1 := rfl
  have hdrain := Column.drainAll_of hs.stores hs.regular (fun row h => .inr (hrows row h))
    hroot []
  -- every array has a slot for each row
  have hmake : RecordBatch.make s.fields ((Column.arrayAll s.root.children rows).map (·.2)) =
      .ok ⟨s.fields, (Column.arrayAll s.root.children rows).map (·.2)⟩ := by
    refine RecordBatch.make_eq_ok (n := rows.length) ?_
      (map_type_of_fieldTypes (Column.fieldTypes_arrayAll hs.stores rows))
    intro a ha
    obtain ⟨f, hf, rfl⟩ := List.mem_map.1 ha
    exact Column.size_of_mem_arrayAll hf
  simp only [List.append_nil, List.singleton_append] at hdrain
  unfold Batch.finish Specification.holding
  simp only [Batch.of, hdrain, hmake]
  rfl

end Columnar
