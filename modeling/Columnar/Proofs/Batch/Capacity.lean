import Columnar.Handle
import Columnar.Proofs.Batch.Watched

/-! # Capacities

    Vectors are made with the capacities reserved for their columns, and a list
    or map vector whose offsets are taken gets new ones of that capacity.
    `Column.drainWithCapacity` drains like `Column.drain`, but looks the
    capacity up, and gives up where none is known.

    A capacity is no part of what a vector holds, and there is one for each
    vector whatever is written and drained, so that nothing is ever given up. -/

namespace Columnar

/-! ### New vectors -/

/-- The offsets of no slots, with room for those of so many more. -/
def newOffsets (capacity : Nat) : Array Nat := (Array.emptyWithCapacity (capacity + 1)).push 0

/-- An empty vector for a column, with room for so many slots. -/
def ColumnVector.withCapacity (capacity : Nat) : Column → ColumnVector
  | .primitive _ kind => .leaf kind.storage (.emptyWithCapacity capacity)
  | .struct _ _ _ => .struct (.emptyWithCapacity capacity)
  | .list _ _ _ => .list (newOffsets capacity) (.emptyWithCapacity capacity)
  | .map _ _ _ => .map (newOffsets capacity) (.emptyWithCapacity capacity)

/-- An empty batch whose vectors have the capacities reserved for their columns. -/
def Batch.withCapacities (root : Column) (reserved : List Nat) : Batch :=
  ⟨(List.zipWith ColumnVector.withCapacity reserved root.preorder).toArray, 0⟩

theorem ColumnVector.withCapacity_eq (capacity : Nat) (c : Column) :
    withCapacity capacity c = .empty c := by
  cases c <;> rfl

mutual

/-- A capacity is reserved for each column. -/
theorem Column.length_reserved (capacityHints : Bool) (capacity : Nat) (c : Column) :
    (c.reserved capacityHints capacity).length = c.preorder.length := by
  match c with
  | .primitive head kind => rfl
  | .struct head typeName children =>
    rw [reserved, preorder, List.length_cons, List.length_cons,
      length_reservedAll capacityHints capacity children]
  | .list head averageSize element =>
    rw [reserved, preorder, List.length_cons, List.length_cons,
      length_reserved capacityHints _ element]
  | .map head key value =>
    rw [reserved, preorder, List.length_cons, List.length_cons, List.length_append,
      List.length_append, length_reserved capacityHints capacity key,
      length_reserved capacityHints capacity value]

theorem Column.length_reservedAll (capacityHints : Bool) (capacity : Nat)
    (columns : List Column) :
    (Column.reservedAll capacityHints capacity columns).length =
      (preorderChildren columns).length := by
  match columns with
  | [] => rfl
  | c :: rest =>
    rw [reservedAll, preorderChildren, List.length_append, List.length_append,
      length_reserved capacityHints capacity c, length_reservedAll capacityHints capacity rest]

end

/-- A new batch is the same with whatever capacities. -/
theorem Batch.withCapacities_eq {root : Column} {reserved : List Nat}
    (h : reserved.length = root.preorder.length) :
    Batch.withCapacities root reserved = .empty root := by
  have hzip : ∀ (capacities : List Nat) (columns : List Column),
      capacities.length = columns.length →
      List.zipWith ColumnVector.withCapacity capacities columns =
        columns.map ColumnVector.empty := by
    intro capacities columns hlength
    induction capacities generalizing columns with
    | nil =>
      rw [List.eq_nil_of_length_eq_zero hlength.symm]
      rfl
    | cons capacity capacities ih =>
      cases columns with
      | nil => cases hlength
      | cons c rest =>
        rw [List.zipWith_cons_cons, List.map_cons, ColumnVector.withCapacity_eq,
          ih rest (Nat.succ.inj hlength)]
  unfold Batch.withCapacities Batch.empty
  rw [hzip reserved root.preorder h]

/-! ### Writing -/

/-- A capacity is known for each of the vectors. -/
def HasCapacities (reserved : List Nat) (vectors : Array ColumnVector) : Prop :=
  vectors.size = reserved.length

def Batch.Sized (reserved : List Nat) (b : Batch) : Prop := HasCapacities reserved b.vectors

namespace Batch.Sized

variable {reserved : List Nat} {b b' : Batch}

theorem empty (root : Column) (capacityHints : Bool) (capacity : Nat) :
    (Batch.empty root).Sized (root.reserved capacityHints capacity) := by
  unfold Batch.Sized HasCapacities Batch.empty
  rw [List.size_toArray, List.length_map, Column.length_reserved]

theorem appendNull (h : b.Sized reserved) (id : ColumnId) : (b.appendNull id).Sized reserved :=
  Array.size_modify.trans h

theorem update? (h : b.Sized reserved) {id : ColumnId}
    {change : ColumnVector → Option ColumnVector} (hupdate : b.update? id change = some b') :
    b'.Sized reserved := by
  obtain ⟨v, hv, hupdate⟩ := Option.bind_eq_some_iff.1 hupdate
  obtain ⟨w, hw, hupdate⟩ := Option.bind_eq_some_iff.1 hupdate
  cases hupdate
  exact Array.size_setIfInBounds.trans h

end Batch.Sized

/-- Closing a slot changes a single vector. -/
theorem Batch.update?_of_close? {b b' : Batch} {column element : ColumnId}
    (h : b.close? column element = some b') :
    b.update? column (ColumnVector.close? (b.slotCount element)) = some b' := by
  unfold Batch.close? at h
  simp only at h
  split at h
  · exact h
  · cases h

mutual

/-- What no change of a single vector breaks is kept by writing. -/
theorem Operation.write_keeps {I : Batch → Prop} (hnull : ∀ b id, I b → I (b.appendNull id))
    (hupdate : ∀ b b' id change, I b → b.update? id change = some b' → I b')
    (op : Operation) (value : Staged) : Keeps I (op.write value) := by
  by_cases habsent : value = .null
  · subst habsent
    rw [Operation.write]
    exact fun b hb => op.writeNull_keeps hnull hb
  match op with
  | .primitive target kind =>
    cases value with
    | scalar s => exact Writing.commit_keeps fun b b' hb hchange => hupdate b b' _ _ hb hchange
    | null => contradiction
    | _ => exact keeps_throw _
  | .struct target fields =>
    cases value with
    | struct row =>
      refine keeps_bind ?_ fun _ => Operation.writeFields_keeps hnull hupdate fields row
      exact Writing.commit_keeps fun b b' hb hchange => hupdate b b' _ _ hb hchange
    | null => contradiction
    | _ => exact keeps_throw _
  | .list target element =>
    cases value with
    | list items =>
      refine keeps_bind (keeps_forM fun item _ => ?_) fun _ => ?_
      · exact element.write_keeps hnull hupdate item
      · exact Writing.commit_keeps fun b b' hb hchange =>
          hupdate b b' _ _ hb (Batch.update?_of_close? hchange)
    | null => contradiction
    | _ => exact keeps_throw _
  | .map target key part =>
    cases value with
    | map entries =>
      refine keeps_bind (keeps_forM fun e _ => ?_) fun _ => ?_
      · exact keeps_bind (key.write_keeps hnull hupdate e.1) fun _ =>
          part.write_keeps hnull hupdate e.2
      · exact Writing.commit_keeps fun b b' hb hchange =>
          hupdate b b' _ _ hb (Batch.update?_of_close? hchange)
    | null => contradiction
    | _ => exact keeps_throw _

theorem Operation.writeFields_keeps {I : Batch → Prop} (hnull : ∀ b id, I b → I (b.appendNull id))
    (hupdate : ∀ b b' id change, I b → b.update? id change = some b' → I b')
    (fields : List (Accessor × Operation)) (values : List Staged) :
    Keeps I (writeFields fields values) := by
  match fields, values with
  | [], _ => exact keeps_pure _
  | _ :: _, [] => exact keeps_pure _
  | (_, op) :: rest, value :: values =>
    exact keeps_bind (op.write_keeps hnull hupdate value) fun _ =>
      Operation.writeFields_keeps hnull hupdate rest values

end

/-- Writing adds no vectors and takes none away. -/
theorem Batch.Sized.writeFields {reserved : List Nat} {b : Batch} (h : b.Sized reserved)
    (fields : List (Accessor × Operation)) (values : List Staged) :
    ((Operation.writeFields fields values).run.run b).2.Sized reserved :=
  Operation.writeFields_keeps (fun _ id hb => hb.appendNull id)
    (fun _ _ _ _ hb hupdate => hb.update? hupdate) fields values b h

/-! ### Draining -/

namespace Draining

/-- The capacity of a vector; give up if none is known. -/
def capacityOf (reserved : List Nat) (column : ColumnId) :
    Watching AssemblyError (Array ColumnVector) Nat :=
  ExceptT.mk fun vectors => (reserved[column]?).map fun capacity => (.ok capacity, vectors)

/-- Take validity and offsets of a list or map vector, which gets new offsets of that capacity. -/
def takeOffsetsWithCapacity (capacity : Nat) (column : ColumnId) (v : ColumnVector) :
    Draining (Option (Array Bool) × Array Nat) := do
  match v with
  | .list offsets validity =>
    put column (.list (newOffsets capacity) #[])
    return (nullRecord validity, offsets)
  | .map offsets validity =>
    put column (.map (newOffsets capacity) #[])
    return (nullRecord validity, offsets)
  | _ => return (none, newOffsets 0)

theorem takeOffsetsWithCapacity_eq (capacity : Nat) (column : ColumnId) (v : ColumnVector) :
    takeOffsetsWithCapacity capacity column v = takeOffsets column v := by
  cases v <;> rfl

end Draining

mutual

/-- Drain a column, with the capacity looked up of what is no leaf. -/
def Column.drainWithCapacity (reserved : List Nat) :
    Column → Watching AssemblyError (Array ColumnVector) ColumnArray
  | .primitive head _ => do
    match ← unwatched (Draining.start head) with
    | .inl array => return array
    | .inr _ =>
      let _ ← Draining.capacityOf reserved head.id
      throw (.nestedVector head.name)
  | .struct head _ children => do
    match ← unwatched (Draining.start head) with
    | .inl array => return array
    | .inr v =>
      let _ ← Draining.capacityOf reserved head.id
      let nulls ← unwatched (Draining.takeValidity head.id v)
      let fields ← Column.drainAllWithCapacity reserved children
      unwatched (liftExcept (ColumnArray.mkStruct nulls fields))
  | .list head _ element => do
    match ← unwatched (Draining.start head) with
    | .inl array => return array
    | .inr v =>
      let capacity ← Draining.capacityOf reserved head.id
      let (nulls, offsets) ← unwatched (Draining.takeOffsetsWithCapacity capacity head.id v)
      let element ← Column.drainWithCapacity reserved element
      unwatched (liftExcept (ColumnArray.mkList nulls offsets element))
  | .map head key value => do
    match ← unwatched (Draining.start head) with
    | .inl array => return array
    | .inr v =>
      let capacity ← Draining.capacityOf reserved head.id
      let (nulls, offsets) ← unwatched (Draining.takeOffsetsWithCapacity capacity head.id v)
      let key ← Column.drainWithCapacity reserved key
      let value ← Column.drainWithCapacity reserved value
      unwatched (liftExcept (ColumnArray.mkMap nulls offsets key value))

def Column.drainAllWithCapacity (reserved : List Nat) :
    List Column → Watching AssemblyError (Array ColumnVector) (List (String × ColumnArray))
  | [] => return []
  | c :: rest => do
    let array ← Column.drainWithCapacity reserved c
    let arrays ← Column.drainAllWithCapacity reserved rest
    return (c.name, array) :: arrays

end

namespace Draining

variable {reserved : List Nat}

/-- Only a column that has a vector, and with it a capacity, goes on behind the start. -/
theorem capacities_start (head : ColumnHead) :
    Watches (HasCapacities reserved) (fun | .inl _ => True | .inr _ => head.id < reserved.length)
      (unwatched (start head)) (start head) := by
  refine watches_unwatched fun vectors hvectors => ?_
  rw [run_start]
  cases hv : vectors[head.id]? with
  | none => exact ⟨hvectors, fun _ h => by cases h⟩
  | some v =>
    have hid : head.id < reserved.length := by
      rw [← hvectors]
      exact (Array.getElem?_eq_some_iff.1 hv).1
    cases v with
    | leaf type slots =>
      refine ⟨Array.size_setIfInBounds.trans hvectors, fun a ha => ?_⟩
      cases ha
      trivial
    | _ =>
      refine ⟨hvectors, fun a ha => ?_⟩
      cases ha
      exact hid

theorem capacities_capacityOf {α : Type} {Q : α → Prop} {column : ColumnId}
    (hcolumn : column < reserved.length)
    {w : Nat → Watching AssemblyError (Array ColumnVector) α} {x : Draining α}
    (hx : ∀ capacity, Watches (HasCapacities reserved) Q (w capacity) x) :
    Watches (HasCapacities reserved) Q (capacityOf reserved column >>= w) x := by
  intro vectors hvectors
  have hcapacity : (capacityOf reserved column).run.run vectors =
      some (.ok reserved[column], vectors) := by
    show (reserved[column]?).map _ = _
    rw [List.getElem?_eq_getElem hcolumn]
    rfl
  rw [run_watching_bind, hcapacity]
  exact hx _ vectors hvectors

theorem capacities_takeValidity (column : ColumnId) (v : ColumnVector) :
    Watches (HasCapacities reserved) (fun _ => True) (unwatched (takeValidity column v))
      (takeValidity column v) := by
  refine watches_unwatched fun vectors hvectors => ⟨?_, fun _ _ => trivial⟩
  cases v with
  | struct validity => exact Array.size_setIfInBounds.trans hvectors
  | _ => exact hvectors

theorem capacities_takeOffsets (capacity : Nat) (column : ColumnId) (v : ColumnVector) :
    Watches (HasCapacities reserved) (fun _ => True)
      (unwatched (takeOffsetsWithCapacity capacity column v))
      (takeOffsets column v) := by
  rw [takeOffsetsWithCapacity_eq]
  refine watches_unwatched fun vectors hvectors => ⟨?_, fun _ _ => trivial⟩
  cases v with
  | list offsets validity => exact Array.size_setIfInBounds.trans hvectors
  | map offsets validity => exact Array.size_setIfInBounds.trans hvectors
  | _ => exact hvectors

theorem capacities_liftExcept {α : Type} (x : Except AssemblyError α) :
    Watches (HasCapacities reserved) (fun _ => True) (unwatched (liftExcept x : Draining α))
      (liftExcept x) := by
  refine watches_unwatched fun vectors hvectors => ⟨?_, fun _ _ => trivial⟩
  rwa [state_liftExcept]

end Draining

mutual

/-- Draining with capacities ends as draining without. -/
theorem Column.drainWithCapacity_watches (reserved : List Nat) (c : Column) :
    Watches (HasCapacities reserved) (fun _ => True) (c.drainWithCapacity reserved) c.drain := by
  match c with
  | .primitive head kind =>
    rw [Column.drainWithCapacity, Column.drain]
    refine watches_bind (Draining.capacities_start head) fun v hv => ?_
    match v with
    | .inl array => exact watches_pure trivial
    | .inr v => exact Draining.capacities_capacityOf hv fun _ => watches_throw _
  | .struct head typeName children =>
    rw [Column.drainWithCapacity, Column.drain]
    refine watches_bind (Draining.capacities_start head) fun v hv => ?_
    match v with
    | .inl array => exact watches_pure trivial
    | .inr v =>
      refine Draining.capacities_capacityOf hv fun _ => ?_
      refine watches_bind (Draining.capacities_takeValidity head.id v) fun nulls _ => ?_
      refine watches_bind (Column.drainAllWithCapacity_watches reserved children) fun fields _ => ?_
      exact Draining.capacities_liftExcept _
  | .list head averageSize element =>
    rw [Column.drainWithCapacity, Column.drain]
    refine watches_bind (Draining.capacities_start head) fun v hv => ?_
    match v with
    | .inl array => exact watches_pure trivial
    | .inr v =>
      refine Draining.capacities_capacityOf hv fun capacity => ?_
      refine watches_bind (Draining.capacities_takeOffsets capacity head.id v) fun taken _ => ?_
      refine watches_bind (element.drainWithCapacity_watches reserved) fun array _ => ?_
      exact Draining.capacities_liftExcept _
  | .map head key value =>
    rw [Column.drainWithCapacity, Column.drain]
    refine watches_bind (Draining.capacities_start head) fun v hv => ?_
    match v with
    | .inl array => exact watches_pure trivial
    | .inr v =>
      refine Draining.capacities_capacityOf hv fun capacity => ?_
      refine watches_bind (Draining.capacities_takeOffsets capacity head.id v) fun taken _ => ?_
      refine watches_bind (key.drainWithCapacity_watches reserved) fun keys _ => ?_
      refine watches_bind (value.drainWithCapacity_watches reserved) fun values _ => ?_
      exact Draining.capacities_liftExcept _

theorem Column.drainAllWithCapacity_watches (reserved : List Nat) (columns : List Column) :
    Watches (HasCapacities reserved) (fun _ => True) (Column.drainAllWithCapacity reserved columns)
      (Column.drainAll columns) := by
  match columns with
  | [] => exact watches_pure trivial
  | c :: rest =>
    rw [Column.drainAllWithCapacity, Column.drainAll]
    refine watches_bind (c.drainWithCapacity_watches reserved) fun array _ => ?_
    refine watches_bind (Column.drainAllWithCapacity_watches reserved rest) fun arrays _ => ?_
    exact watches_pure trivial

end

/-! ### Finishing -/

/-- Finish a batch, with capacities looked up while its vectors are drained. -/
def Batch.finishWithCapacity (s : Specification) (reserved : List Nat) (b : Batch) :
    Option (Except AssemblyError RecordBatch × Batch) :=
  ((Column.drainAllWithCapacity reserved s.root.children).run.run b.vectors).map fun
    | (.ok arrays, vectors) => (RecordBatch.make s.fields (arrays.map (·.2)), ⟨vectors, 0⟩)
    | (.error e, vectors) => (.error e, { b with vectors })

/-- Capacities are known, also afterwards, and do not matter. -/
theorem Batch.Sized.finish {reserved : List Nat} {b : Batch} (h : b.Sized reserved)
    (s : Specification) :
    b.finishWithCapacity s reserved = some (b.finish s) ∧ (b.finish s).2.Sized reserved := by
  obtain ⟨hrun, hkept, -⟩ :=
    Column.drainAllWithCapacity_watches reserved s.root.children b.vectors h
  unfold Batch.finishWithCapacity Batch.finish
  rw [hrun]
  rcases hdrain : (Column.drainAll s.root.children).run.run b.vectors with ⟨e | arrays, vectors⟩
  · rw [hdrain] at hkept
    exact ⟨rfl, hkept⟩
  · rw [hdrain] at hkept
    exact ⟨rfl, hkept⟩

end Columnar
