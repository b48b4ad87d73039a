import Columnar.Proofs.Batch.Emptying

/-! # Watched batches

    Slots of a list or map vector can be counted only if there is an offset,
    and an array takes offsets only if there is one, none is out of range and
    none is smaller than the one before.  `Operation.watchWrite` and
    `Column.watchDrain` do the same as writing and draining, but give up where
    slots are to be counted that cannot be, or offsets handed over that no array
    takes.

    With the offsets that vectors have, nothing is ever given up: what is
    watched ends as what is not. -/

namespace Columnar

/-! ### Watching steps -/

/-- Steps that may fail or be given up. -/
abbrev Watching (ε σ : Type) := ExceptT ε (StateT σ Option)

section Steps

variable {ε σ α β : Type}

/-- Steps that are not watched. -/
def unwatched (x : ExceptT ε (StateM σ) α) : Watching ε σ α :=
  ExceptT.mk fun s => some (x.run.run s)

/-- Give up unless the state is all right. -/
def watch (allRight : σ → Bool) : Watching ε σ Unit :=
  ExceptT.mk fun s => if allRight s then some (.ok (), s) else none

/-- From states with the invariant nothing is given up, the invariant is kept, and results have the
    property. -/
def Watches (I : σ → Prop) (Q : α → Prop) (w : Watching ε σ α) (x : ExceptT ε (StateM σ) α) :
    Prop :=
  ∀ s, I s → w.run.run s = some (x.run.run s) ∧ I (x.run.run s).2 ∧
    ∀ a, (x.run.run s).1 = .ok a → Q a

variable {I : σ → Prop} {P Q : α → Prop} {R : β → Prop}

theorem watches_pure {a : α} (ha : Q a) : Watches I Q (pure a : Watching ε σ α) (pure a) := by
  intro s hs
  refine ⟨rfl, hs, fun b hb => ?_⟩
  cases hb
  exact ha

theorem watches_throw (e : ε) : Watches I Q (throw e : Watching ε σ α) (throw e) :=
  fun _ hs => ⟨rfl, hs, fun _ hb => by cases hb⟩

theorem watches_unwatched {x : ExceptT ε (StateM σ) α}
    (h : ∀ s, I s → I (x.run.run s).2 ∧ ∀ a, (x.run.run s).1 = .ok a → Q a) :
    Watches I Q (unwatched x) x :=
  fun s hs => ⟨rfl, h s hs⟩

/-- The second step is given up only if it is performed. -/
theorem run_watching_bind (w : Watching ε σ α) (w' : α → Watching ε σ β) (s : σ) :
    (w >>= w').run.run s =
      (w.run.run s).bind fun
        | (.ok a, t) => (w' a).run.run t
        | (.error e, t) => some (.error e, t) := by
  rw [ExceptT.run_bind, StateT.run_bind]
  show Option.bind _ _ = _
  congr 1
  funext ⟨r, t⟩
  cases r <;> rfl

theorem watches_bind {w : Watching ε σ α} {x : ExceptT ε (StateM σ) α}
    {w' : α → Watching ε σ β} {f : α → ExceptT ε (StateM σ) β}
    (hx : Watches I P w x) (hf : ∀ a, P a → Watches I R (w' a) (f a)) :
    Watches I R (w >>= w') (x >>= f) := by
  intro s hs
  obtain ⟨hrun, hkept, hresult⟩ := hx s hs
  rcases hend : x.run.run s with ⟨e | a, t⟩
  · rw [hend] at hrun hkept
    rw [run_bind_error hend, run_watching_bind, hrun]
    exact ⟨rfl, hkept, fun b hb => by cases hb⟩
  · rw [hend] at hrun hkept hresult
    rw [run_bind_ok hend, run_watching_bind, hrun]
    exact hf a (hresult a rfl) t hkept

/-- What is watched is all right. -/
theorem watches_watch {allRight : σ → Bool} {w : Watching ε σ α} {x : ExceptT ε (StateM σ) α}
    (hright : ∀ s, I s → allRight s = true) (hx : Watches I Q w x) :
    Watches I Q (watch allRight >>= fun _ => w) x := by
  intro s hs
  have hskip : (watch allRight >>= fun _ => w).run.run s = w.run.run s := by
    have hwatch : (watch allRight : Watching ε σ Unit).run.run s = some (.ok (), s) :=
      if_pos (hright s hs)
    rw [run_watching_bind, hwatch]
    rfl
  rw [hskip]
  exact hx s hs

theorem watches_forM {items : List β} {w : β → Watching ε σ PUnit}
    {f : β → ExceptT ε (StateM σ) PUnit} (h : ∀ item ∈ items, Watches I (fun _ => True) (w item) (f item)) :
    Watches I (fun _ => True) (items.forM w) (items.forM f) := by
  induction items with
  | nil => exact watches_pure trivial
  | cons item rest ih =>
    exact watches_bind (h item (by simp)) fun _ _ => ih fun x hx => h x (by simp [hx])

end Steps

/-! ### Watched writing -/

/-- Can the slots of the vector be counted? -/
def ColumnVector.countable : ColumnVector → Bool
  | .leaf _ _ | .struct _ => true
  | .list offsets _ | .map offsets _ => 0 < offsets.size

namespace ColumnVector

variable {v w : ColumnVector}

theorem Sound.countable (h : v.Sound) : v.countable = true := by
  cases v with
  | list offsets validity =>
    have hslots : validity.size + 1 = offsets.size := SlotBounds.slots h
    simp [ColumnVector.countable, ← hslots]
  | map offsets validity =>
    have hslots : validity.size + 1 = offsets.size := SlotBounds.slots h
    simp [ColumnVector.countable, ← hslots]
  | _ => rfl

theorem countable_appendNull (v : ColumnVector) : v.appendNull.countable = true := by
  cases v <;> simp [appendNull, countable]

theorem countable_appendScalar {s : Scalar} (h : v.appendScalar? s = some w) :
    w.countable = true := by
  cases v with
  | leaf type slots =>
    rw [appendScalar?] at h
    split at h
    · cases h
      rfl
    · cases h
  | _ => cases h

theorem countable_markPresent (h : v.markPresent? = some w) : w.countable = true := by
  cases v with
  | struct validity =>
    cases h
    rfl
  | _ => cases h

theorem countable_close {stop : Nat} (h : v.close? stop = some w) : w.countable = true := by
  cases v <;> cases h <;> simp [countable]

end ColumnVector

/-- The slots of every vector can be counted. -/
def Batch.Countable (b : Batch) : Prop :=
  ∀ (id : ColumnId) (v : ColumnVector), b.vectors[id]? = some v → v.countable = true

/-- Can the slots of the vector of that number be counted? -/
def Batch.countable (column : ColumnId) (b : Batch) : Bool :=
  (b.vectors[column]?).all ColumnVector.countable

namespace Batch.Countable

variable {b b' : Batch}

theorem countable (h : b.Countable) (column : ColumnId) : b.countable column = true := by
  unfold Batch.countable
  cases hv : b.vectors[column]? with
  | none => rfl
  | some v => exact h column v hv

theorem update? (h : b.Countable) {id : ColumnId} {change : ColumnVector → Option ColumnVector}
    (hchange : ∀ v w, change v = some w → w.countable = true)
    (hupdate : b.update? id change = some b') : b'.Countable := by
  obtain ⟨v, hv, hupdate⟩ := Option.bind_eq_some_iff.1 hupdate
  obtain ⟨w, hw, hupdate⟩ := Option.bind_eq_some_iff.1 hupdate
  cases hupdate
  intro other u hu
  have hu : (b.vectors.setIfInBounds id w)[other]? = some u := hu
  rw [getElem?_setIfInBounds_of hv] at hu
  split at hu
  · cases hu
    exact hchange v w hw
  · exact h other u hu

theorem appendNull (h : b.Countable) (id : ColumnId) : (b.appendNull id).Countable := by
  intro other u hu
  have hu : (b.vectors.modify id ColumnVector.appendNull)[other]? = some u := hu
  rw [Array.getElem?_modify] at hu
  split at hu
  · obtain ⟨v, -, rfl⟩ := Option.map_eq_some_iff.1 hu
    exact v.countable_appendNull
  · exact h other u hu

theorem close? (h : b.Countable) {column element : ColumnId}
    (hclose : b.close? column element = some b') : b'.Countable := by
  unfold Batch.close? at hclose
  simp only at hclose
  split at hclose
  · exact h.update? (fun _ _ hw => ColumnVector.countable_close hw) hclose
  · cases hclose

end Batch.Countable

theorem Operation.writeNull_countable (op : Operation) {b : Batch} (h : b.Countable) :
    (op.writeNull b).Countable :=
  op.writeNull_keeps (fun _ id hb => hb.appendNull id) h

mutual

/-- Write a staged value, unless slots would have to be counted that cannot be. -/
def Operation.watchWrite (op : Operation) (value : Staged) : Watching AppendError Batch Unit :=
  match op, value with
  | op, .null => unwatched (modify op.writeNull)
  | .primitive target _, .scalar s =>
    unwatched (Writing.commit target (·.appendScalar? target.column s))
  | .struct target fields, .struct values => do
    unwatched (Writing.commit target (·.markPresent? target.column))
    Operation.watchWriteFields fields values
  | .list target element, .list items => do
    items.forM fun item => Operation.watchWrite element item
    watch (Batch.countable element.column)
    unwatched (Writing.commit target (·.close? target.column element.column))
  | .map target key value, .map entries => do
    entries.forM fun (k, v) => do
      Operation.watchWrite key k
      Operation.watchWrite value v
    watch (Batch.countable key.column)
    unwatched (Writing.commit target (·.close? target.column key.column))
  | op, _ => throw (.vectorMismatch op.column op.path)
termination_by structural op

def Operation.watchWriteFields (fields : List (Accessor × Operation)) (values : List Staged) :
    Watching AppendError Batch Unit :=
  match fields, values with
  | (_, op) :: rest, value :: values => do
    Operation.watchWrite op value
    Operation.watchWriteFields rest values
  | _, _ => return
termination_by structural fields

end

/-- Changes of one vector keep slots countable. -/
theorem Writing.watches_commit {target : Target} {change : Batch → Option Batch}
    (h : ∀ b b', b.Countable → change b = some b' → b'.Countable) :
    Watches Batch.Countable (fun _ => True) (unwatched (Writing.commit target change))
      (Writing.commit target change) :=
  watches_unwatched fun b hb =>
    ⟨Writing.commit_keeps h b hb, fun _ _ => trivial⟩

mutual

theorem Operation.watchWrite_watches (op : Operation) (value : Staged) :
    Watches Batch.Countable (fun _ => True) (op.watchWrite value) (op.write value) := by
  -- absent values are written without counting
  by_cases hnull : value = .null
  · subst hnull
    rw [Operation.watchWrite, Operation.write]
    exact watches_unwatched fun b hb => ⟨op.writeNull_countable hb, fun _ _ => trivial⟩
  match op with
  | .primitive target kind =>
    cases value with
    | scalar s =>
      exact Writing.watches_commit fun b b' hb hchange =>
        hb.update? (fun _ _ hw => ColumnVector.countable_appendScalar hw) hchange
    | null => contradiction
    | _ => exact watches_throw _
  | .struct target fields =>
    cases value with
    | struct row =>
      refine watches_bind (Writing.watches_commit fun b b' hb hchange => ?_) fun _ _ => ?_
      · exact hb.update? (fun _ _ hw => ColumnVector.countable_markPresent hw) hchange
      · exact Operation.watchWriteFields_watches fields row
    | null => contradiction
    | _ => exact watches_throw _
  | .list target element =>
    cases value with
    | list items =>
      refine watches_bind (watches_forM fun item _ => element.watchWrite_watches item) fun _ _ => ?_
      refine watches_watch (fun b hb => hb.countable element.column) ?_
      exact Writing.watches_commit fun b b' hb hchange => hb.close? hchange
    | null => contradiction
    | _ => exact watches_throw _
  | .map target key part =>
    cases value with
    | map entries =>
      refine watches_bind (watches_forM fun e _ => ?_) fun _ _ => ?_
      · exact watches_bind (key.watchWrite_watches e.1) fun _ _ => part.watchWrite_watches e.2
      · refine watches_watch (fun b hb => hb.countable key.column) ?_
        exact Writing.watches_commit fun b b' hb hchange => hb.close? hchange
    | null => contradiction
    | _ => exact watches_throw _

theorem Operation.watchWriteFields_watches (fields : List (Accessor × Operation))
    (values : List Staged) : Watches Batch.Countable (fun _ => True)
      (Operation.watchWriteFields fields values) (Operation.writeFields fields values) := by
  match fields, values with
  | [], _ => exact watches_pure trivial
  | _ :: _, [] => exact watches_pure trivial
  | (_, op) :: rest, value :: values =>
    exact watches_bind (op.watchWrite_watches value) fun _ _ =>
      Operation.watchWriteFields_watches rest values

end

/-! ### Watched draining -/

/-- Does an array take the offsets?  There has to be one, none may be out of range, and none smaller
    than the one before. -/
def takesOffsets (offsets : Array Nat) : Bool :=
  0 < offsets.size && offsets.all (· ≤ maxElements) && offsets.toList.Pairwise (· ≤ ·)

/-- Offsets that bound slots are taken, and so are those of a vector that counts as empty. -/
theorem SlotBounds.takes {offsets : Array Nat} {validity : Array Bool}
    (h : SlotBounds offsets validity) : takesOffsets offsets = true := by
  have hpos : 0 < offsets.size := h.slots ▸ Nat.succ_pos _
  have hrange : (offsets.all (· ≤ maxElements)) = true :=
    Array.all_eq_true'.2 fun offset hmem => decide_eq_true (h.inRange offset hmem)
  unfold takesOffsets
  rw [decide_eq_true hpos, hrange, decide_eq_true h.ascending]
  rfl

mutual

/-- Drain a column, unless an array would be given offsets that it does not take. -/
def Column.watchDrain : Column → Watching AssemblyError (Array ColumnVector) ColumnArray
  | .primitive head _ => do
    match ← unwatched (Draining.start head) with
    | .inl array => return array
    | .inr _ => throw (.nestedVector head.name)
  | .struct head _ children => do
    match ← unwatched (Draining.start head) with
    | .inl array => return array
    | .inr v =>
      let nulls ← unwatched (Draining.takeValidity head.id v)
      let fields ← Column.watchDrainAll children
      unwatched (liftExcept (ColumnArray.mkStruct nulls fields))
  | .list head _ element => do
    match ← unwatched (Draining.start head) with
    | .inl array => return array
    | .inr v =>
      let (nulls, offsets) ← unwatched (Draining.takeOffsets head.id v)
      let element ← Column.watchDrain element
      watch fun _ => takesOffsets offsets
      unwatched (liftExcept (ColumnArray.mkList nulls offsets element))
  | .map head key value => do
    match ← unwatched (Draining.start head) with
    | .inl array => return array
    | .inr v =>
      let (nulls, offsets) ← unwatched (Draining.takeOffsets head.id v)
      let key ← Column.watchDrain key
      let value ← Column.watchDrain value
      watch fun _ => takesOffsets offsets
      unwatched (liftExcept (ColumnArray.mkMap nulls offsets key value))

def Column.watchDrainAll :
    List Column → Watching AssemblyError (Array ColumnVector) (List (String × ColumnArray))
  | [] => return []
  | c :: rest => do
    let array ← Column.watchDrain c
    let arrays ← Column.watchDrainAll rest
    return (c.name, array) :: arrays

end

namespace Draining

theorem watches_start (head : ColumnHead) :
    Watches AllSound (fun | .inl _ => True | .inr v => v.Sound) (unwatched (start head))
      (start head) := by
  refine watches_unwatched fun vectors hvectors => ?_
  rw [run_start]
  cases hv : vectors[head.id]? with
  | none => exact ⟨hvectors, fun _ h => by cases h⟩
  | some v =>
    have hsound := hvectors head.id v hv
    cases v with
    | leaf type slots =>
      have hempty := (ColumnVector.leaf type slots).sound_drained
      refine ⟨hvectors.setIfInBounds hempty head.id, fun a ha => ?_⟩
      cases ha
      trivial
    | _ =>
      refine ⟨hvectors, fun a ha => ?_⟩
      cases ha
      exact hsound

theorem watches_takeValidity (column : ColumnId) (v : ColumnVector) :
    Watches AllSound (fun _ => True) (unwatched (takeValidity column v)) (takeValidity column v) := by
  refine watches_unwatched fun vectors hvectors => ⟨?_, fun _ _ => trivial⟩
  cases v with
  | struct validity =>
    exact hvectors.setIfInBounds (ColumnVector.struct validity).sound_drained column
  | _ => exact hvectors

theorem watches_takeOffsets (column : ColumnId) {v : ColumnVector} (hv : v.Sound) :
    Watches AllSound (fun taken => takesOffsets taken.2 = true) (unwatched (takeOffsets column v))
      (takeOffsets column v) := by
  refine watches_unwatched fun vectors hvectors => ?_
  cases v with
  | list offsets validity =>
    have hempty := (ColumnVector.list offsets validity).sound_drained
    refine ⟨hvectors.setIfInBounds hempty column, fun taken htaken => ?_⟩
    cases htaken
    exact SlotBounds.takes hv
  | map offsets validity =>
    have hempty := (ColumnVector.map offsets validity).sound_drained
    refine ⟨hvectors.setIfInBounds hempty column, fun taken htaken => ?_⟩
    cases htaken
    exact SlotBounds.takes hv
  | _ =>
    refine ⟨hvectors, fun taken htaken => ?_⟩
    cases htaken
    exact SlotBounds.empty.takes

theorem watches_liftExcept {α : Type} (x : Except AssemblyError α) :
    Watches AllSound (fun _ => True) (unwatched (liftExcept x : Draining α)) (liftExcept x) := by
  refine watches_unwatched fun vectors hvectors => ⟨?_, fun _ _ => trivial⟩
  rwa [state_liftExcept]

end Draining

mutual

theorem Column.watchDrain_watches (c : Column) :
    Watches AllSound (fun _ => True) c.watchDrain c.drain := by
  match c with
  | .primitive head kind =>
    rw [Column.watchDrain, Column.drain]
    refine watches_bind (Draining.watches_start head) fun v hv => ?_
    match v with
    | .inl array => exact watches_pure trivial
    | .inr v => exact watches_throw _
  | .struct head typeName children =>
    rw [Column.watchDrain, Column.drain]
    refine watches_bind (Draining.watches_start head) fun v hv => ?_
    match v with
    | .inl array => exact watches_pure trivial
    | .inr v =>
      refine watches_bind (Draining.watches_takeValidity head.id v) fun nulls _ => ?_
      refine watches_bind (Column.watchDrainAll_watches children) fun fields _ => ?_
      exact Draining.watches_liftExcept _
  | .list head averageSize element =>
    rw [Column.watchDrain, Column.drain]
    refine watches_bind (Draining.watches_start head) fun v hv => ?_
    match v with
    | .inl array => exact watches_pure trivial
    | .inr v =>
      refine watches_bind (Draining.watches_takeOffsets head.id hv) fun taken htaken => ?_
      refine watches_bind element.watchDrain_watches fun array _ => ?_
      exact watches_watch (fun _ _ => htaken) (Draining.watches_liftExcept _)
  | .map head key value =>
    rw [Column.watchDrain, Column.drain]
    refine watches_bind (Draining.watches_start head) fun v hv => ?_
    match v with
    | .inl array => exact watches_pure trivial
    | .inr v =>
      refine watches_bind (Draining.watches_takeOffsets head.id hv) fun taken htaken => ?_
      refine watches_bind key.watchDrain_watches fun keys _ => ?_
      refine watches_bind value.watchDrain_watches fun values _ => ?_
      exact watches_watch (fun _ _ => htaken) (Draining.watches_liftExcept _)

theorem Column.watchDrainAll_watches (columns : List Column) :
    Watches AllSound (fun _ => True) (Column.watchDrainAll columns) (Column.drainAll columns) := by
  match columns with
  | [] => exact watches_pure trivial
  | c :: rest =>
    rw [Column.watchDrainAll, Column.drainAll]
    refine watches_bind c.watchDrain_watches fun array _ => ?_
    refine watches_bind (Column.watchDrainAll_watches rest) fun arrays _ => ?_
    exact watches_pure trivial

end

end Columnar
