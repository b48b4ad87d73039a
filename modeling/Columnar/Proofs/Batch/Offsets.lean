import Columnar.Batch.Writing
import Columnar.Proofs.Plan.Shape
import Columnar.Proofs.Schema.Subtree

/-! # Offsets while rows are written

    Whatever is written, also to the vector of another column, in part or not
    at all: the offsets of a list or map vector begin with zero and never
    decrease, and the last offset of a collection's vector is no greater than
    the number of slots that the vector of its elements (keys) has.

    A slot is only ever closed at the number of elements there are by then,
    and that number does not become smaller while rows are written. -/

namespace Columnar

/-! ### One vector -/

/-- Offsets that bound as many slots: they begin with zero, do not decrease, and keep within the
    range of offsets. -/
structure SlotBounds (offsets : Array Nat) (validity : Array Bool) : Prop where
  first : offsets[0]? = some 0
  ascending : offsets.toList.Pairwise (· ≤ ·)
  inRange : ∀ offset ∈ offsets, offset ≤ maxElements
  slots : validity.size + 1 = offsets.size

namespace SlotBounds

variable {offsets : Array Nat} {validity : Array Bool}

theorem empty : SlotBounds #[0] #[] :=
  ⟨rfl, by simp, by simp, rfl⟩

/-- No offset is greater than the last one. -/
theorem le_back (h : SlotBounds offsets validity) {offset : Nat} (hmem : offset ∈ offsets) :
    offset ≤ offsets.back?.getD 0 := by
  have hpos : 0 < offsets.size := h.slots ▸ Nat.succ_pos _
  obtain ⟨i, hi, rfl⟩ := Array.getElem_of_mem hmem
  rw [Array.back?_eq_getElem?, Array.getElem?_eq_getElem (by omega), Option.getD_some]
  rcases Nat.lt_or_ge i (offsets.size - 1) with hlt | hge
  · exact List.pairwise_iff_getElem.1 h.ascending i (offsets.size - 1) hi (by simp; omega) hlt
  · have hlast : i = offsets.size - 1 := by omega
    simp [hlast]

theorem back_le (h : SlotBounds offsets validity) : offsets.back?.getD 0 ≤ maxElements := by
  cases hback : offsets.back? with
  | none => exact Nat.zero_le _
  | some offset => exact h.inRange offset (Array.mem_of_back? hback)

/-- A slot can be closed behind the last one. -/
theorem push (h : SlotBounds offsets validity) {stop : Nat} (hle : offsets.back?.getD 0 ≤ stop)
    (hmax : stop ≤ maxElements) (present : Bool) :
    SlotBounds (offsets.push stop) (validity.push present) := by
  have hpos : 0 < offsets.size := h.slots ▸ Nat.succ_pos _
  refine ⟨?_, ?_, ?_, ?_⟩
  · rw [Array.getElem?_push_lt hpos, ← Array.getElem?_eq_getElem hpos]
    exact h.first
  · rw [Array.toList_push, List.pairwise_append]
    refine ⟨h.ascending, List.pairwise_singleton _ _, fun offset hmem stop' hstop => ?_⟩
    rw [List.mem_singleton.1 hstop]
    exact Nat.le_trans (h.le_back (Array.mem_toList_iff.1 hmem)) hle
  · intro offset hmem
    rcases Array.mem_push.1 hmem with hmem | rfl
    · exact h.inRange offset hmem
    · exact hmax
  · rw [Array.size_push, Array.size_push, h.slots]

end SlotBounds

namespace ColumnVector

/-- The offsets of a list or map vector bound its slots. -/
def Sound : ColumnVector → Prop
  | .leaf _ _ | .struct _ => True
  | .list offsets validity | .map offsets validity => SlotBounds offsets validity

/-- Where the last slot of a list or map vector ends. -/
def lastOffset (v : ColumnVector) : Nat :=
  (v.offsets?.bind Array.back?).getD 0

/-- The vector has become another one by adding a slot, which ends where the one before did or at
    that element. -/
structure Grows (stop : Nat) (v w : ColumnVector) : Prop where
  sound : v.Sound → w.Sound
  size : v.size ≤ w.size
  last : w.lastOffset = v.lastOffset ∨ w.lastOffset = stop

variable {v w : ColumnVector} {stop : Nat}

theorem grows_appendNull (v : ColumnVector) : v.Grows stop v.appendNull := by
  cases v with
  | leaf type slots => exact ⟨id, by simp [size, appendNull], .inl rfl⟩
  | struct validity => exact ⟨id, by simp [size, appendNull], .inl rfl⟩
  | list offsets validity =>
    refine ⟨fun h => h.push (Nat.le_refl _) h.back_le false, ?_, .inl ?_⟩
    · simp [size, appendNull]
    · simp [lastOffset, offsets?, appendNull]
  | map offsets validity =>
    refine ⟨fun h => h.push (Nat.le_refl _) h.back_le false, ?_, .inl ?_⟩
    · simp [size, appendNull]
    · simp [lastOffset, offsets?, appendNull]

theorem grows_appendScalar {s : Scalar} (h : v.appendScalar? s = some w) : v.Grows stop w := by
  cases v with
  | leaf type slots =>
    rw [appendScalar?] at h
    split at h
    · cases h
      exact ⟨id, by simp [size], .inl rfl⟩
    · cases h
  | _ => cases h

theorem grows_markPresent (h : v.markPresent? = some w) : v.Grows stop w := by
  cases v with
  | struct validity =>
    cases h
    exact ⟨id, by simp [size], .inl rfl⟩
  | _ => cases h

theorem grows_close (hlast : v.lastOffset ≤ stop) (hmax : stop ≤ maxElements)
    (h : v.close? stop = some w) : v.Grows stop w := by
  cases v with
  | list offsets validity =>
    cases h
    exact ⟨fun h => h.push hlast hmax true, by simp [size], .inr (by simp [lastOffset, offsets?])⟩
  | map offsets validity =>
    cases h
    exact ⟨fun h => h.push hlast hmax true, by simp [size], .inr (by simp [lastOffset, offsets?])⟩
  | _ => cases h

end ColumnVector

/-! ### The vectors of a tree -/

/-- The slots of the vector of that number, none if there is no such vector. -/
def slotsAt (vectors : Array ColumnVector) (id : ColumnId) : Nat :=
  (vectors[id]?).elim 0 ColumnVector.size

/-- Where the last slot ends in the vector of that number, zero if it is no list or map vector. -/
def lastOffsetAt (vectors : Array ColumnVector) (id : ColumnId) : Nat :=
  (vectors[id]?).elim 0 ColumnVector.lastOffset

/-- Every vector has offsets that bound its slots, if it has any. -/
def AllSound (vectors : Array ColumnVector) : Prop :=
  ∀ (id : ColumnId) (v : ColumnVector), vectors[id]? = some v → v.Sound

theorem AllSound.setIfInBounds {vectors : Array ColumnVector} (h : AllSound vectors)
    {w : ColumnVector} (hw : w.Sound) (id : ColumnId) : AllSound (vectors.setIfInBounds id w) := by
  intro other v hv
  rw [Array.getElem?_setIfInBounds] at hv
  split at hv
  · split at hv
    · cases hv
      exact hw
    · cases hv
  · exact h other v hv

/-- Is the column a list or a map? -/
def Column.isCollection : Column → Bool
  | .list _ _ _ | .map _ _ _ => true
  | _ => false

/-- The last slot of a list or map ends within the vector of its elements or keys, which has the
    number after its own. -/
def Column.EndsWithin (vectors : Array ColumnVector) (c : Column) : Prop :=
  c.isCollection = true → lastOffsetAt vectors c.id ≤ slotsAt vectors (c.id + 1)

/-- All offsets among the vectors are sound, and those of lists and maps of the tree end within the
    vectors of their elements. -/
structure Delimited (root : Column) (vectors : Array ColumnVector) : Prop where
  sound : AllSound vectors
  within : ∀ c ∈ root.preorder, c.EndsWithin vectors

section Writing

variable {root : Column} {vectors : Array ColumnVector}

/-- Only the vector of the number is another one. -/
theorem getElem?_setIfInBounds_of {id : ColumnId} {v : ColumnVector} (hv : vectors[id]? = some v)
    (w : ColumnVector) (other : ColumnId) :
    (vectors.setIfInBounds id w)[other]? = if other = id then some w else vectors[other]? := by
  have hlt : id < vectors.size := (Array.getElem?_eq_some_iff.1 hv).1
  rw [Array.getElem?_setIfInBounds]
  by_cases heq : other = id
  · rw [if_pos heq, if_pos heq.symm, if_pos hlt]
  · rw [if_neg heq, if_neg (Ne.symm heq)]

/-- A vector can grow if its last slot ends within the vector of its elements. -/
theorem Delimited.set (h : Delimited root vectors) {id : ColumnId} {v w : ColumnVector}
    (hv : vectors[id]? = some v) (hgrows : v.Grows (slotsAt vectors (id + 1)) w) :
    Delimited root (vectors.setIfInBounds id w) := by
  have hget := getElem?_setIfInBounds_of hv w
  -- no vector has fewer slots than before
  have hslots : ∀ other, slotsAt vectors other ≤ slotsAt (vectors.setIfInBounds id w) other := by
    intro other
    unfold slotsAt
    rw [hget]
    split
    · next heq =>
      rw [heq, hv]
      exact hgrows.size
    · exact Nat.le_refl _
  refine ⟨h.sound.setIfInBounds (hgrows.sound (h.sound id v hv)) id, ?_⟩
  intro c hc hcollection
  have hbefore := h.within c hc hcollection
  refine Nat.le_trans ?_ (hslots (c.id + 1))
  by_cases heq : c.id = id
  · have hlast : lastOffsetAt (vectors.setIfInBounds id w) c.id = w.lastOffset := by
      unfold lastOffsetAt
      rw [hget, if_pos heq]
      rfl
    rw [hlast]
    rcases hgrows.last with hsame | hstop
    · rw [lastOffsetAt, heq, hv] at hbefore
      rw [hsame, heq]
      exact hbefore
    · exact Nat.le_of_eq (by rw [hstop, heq])
  · have hlast : lastOffsetAt (vectors.setIfInBounds id w) c.id = lastOffsetAt vectors c.id := by
      unfold lastOffsetAt
      rw [hget, if_neg heq]
    rwa [hlast]

/-- A change of one vector that makes it grow. -/
theorem Delimited.update? {b b' : Batch} (h : Delimited root b.vectors) {id : ColumnId}
    {change : ColumnVector → Option ColumnVector}
    (hgrows : ∀ v w, b.vectors[id]? = some v → change v = some w →
      v.Grows (slotsAt b.vectors (id + 1)) w)
    (hchange : b.update? id change = some b') : Delimited root b'.vectors := by
  obtain ⟨v, hv, hchange⟩ := Option.bind_eq_some_iff.1 hchange
  obtain ⟨w, hw, hchange⟩ := Option.bind_eq_some_iff.1 hchange
  cases hchange
  exact h.set hv (hgrows v w hv hw)

theorem Delimited.appendNull {b : Batch} (h : Delimited root b.vectors) (id : ColumnId) :
    Delimited root (b.appendNull id).vectors := by
  show Delimited root (b.vectors.modify id ColumnVector.appendNull)
  cases hv : b.vectors[id]? with
  | none =>
    have hsame : b.vectors.modify id ColumnVector.appendNull = b.vectors := by
      apply Array.ext_getElem?
      intro i
      rw [Array.getElem?_modify]
      split
      · next heq => rw [← heq, hv]; rfl
      · rfl
    rwa [hsame]
  | some v =>
    have hset : b.vectors.modify id ColumnVector.appendNull =
        b.vectors.setIfInBounds id v.appendNull := by
      apply Array.ext_getElem?
      intro i
      rw [Array.getElem?_modify, getElem?_setIfInBounds_of hv]
      split
      · next heq => rw [← heq, hv, if_pos rfl]; rfl
      · next hne => rw [if_neg (Ne.symm hne)]
    rw [hset]
    exact h.set hv v.grows_appendNull

/-- A list or map of the tree can close a slot behind its last element. -/
theorem Delimited.close? {b b' : Batch} (h : Delimited root b.vectors) {c : Column}
    (hc : c ∈ root.preorder) (hcollection : c.isCollection = true) {element : ColumnId}
    (helement : element = c.id + 1) (hclose : b.close? c.id element = some b') :
    Delimited root b'.vectors := by
  subst helement
  unfold Batch.close? at hclose
  simp only at hclose
  split at hclose
  · next hmax =>
    refine h.update? ?_ hclose
    intro v w hv hw
    have hlast := h.within c hc hcollection
    rw [lastOffsetAt, hv] at hlast
    exact ColumnVector.grows_close hlast hmax hw
  · cases hclose

end Writing

/-! ### Writing values -/

theorem Writing.commit_keeps {I : Batch → Prop} {target : Target}
    {change : Batch → Option Batch} (h : ∀ b b', I b → change b = some b' → I b') :
    Keeps I (Writing.commit target change) := by
  intro b hb
  unfold Writing.commit
  rw [run_bind_ok (run_get b)]
  cases hchange : change b with
  | none => exact hb
  | some b' => exact h b b' hb hchange

mutual

/-- What an absent slot in any vector keeps, absent values keep. -/
theorem Operation.writeNull_keeps {I : Batch → Prop} (hnull : ∀ b id, I b → I (b.appendNull id))
    (op : Operation) {b : Batch} (h : I b) : I (op.writeNull b) := by
  match op with
  | .primitive target kind => exact hnull b target.column h
  | .list target element => exact hnull b target.column h
  | .map target key value => exact hnull b target.column h
  | .struct target fields =>
    exact Operation.writeNullFields_keeps hnull fields (hnull b target.column h)

theorem Operation.writeNullFields_keeps {I : Batch → Prop}
    (hnull : ∀ b id, I b → I (b.appendNull id)) (fields : List (Accessor × Operation)) {b : Batch}
    (h : I b) : I (writeNullFields fields b) := by
  match fields with
  | [] => exact h
  | (_, op) :: rest =>
    exact Operation.writeNullFields_keeps hnull rest (op.writeNull_keeps hnull h)

end

section Keeping

variable {root : Column}

theorem Operation.writeNull_delimited (op : Operation) {b : Batch} (h : Delimited root b.vectors) :
    Delimited root (op.writeNull b).vectors :=
  op.writeNull_keeps (I := fun b => Delimited root b.vectors) (fun _ id hb => hb.appendNull id) h

mutual

/-- Writing a value to the columns of a tree keeps the offsets delimited, also if a vector refuses
    a part of the value. -/
theorem Plans.write_keeps {path : Path} {c : Column} {op : Operation} (h : Plans path c op)
    (hr : c.Regular) (hroot : c.preorder ⊆ root.preorder) (value : Staged) :
    Keeps (fun b => Delimited root b.vectors) (op.write value) := by
  -- absent values are added to every vector
  by_cases hnull : value = .null
  · subst hnull
    rw [Operation.write]
    exact fun b hb => op.writeNull_delimited hb
  match h with
  | .primitive =>
    cases value with
    | scalar s =>
      refine Writing.commit_keeps fun b b' hb hchange => ?_
      exact hb.update? (fun _ _ _ hw => ColumnVector.grows_appendScalar hw) hchange
    | null => contradiction
    | _ => exact keeps_throw _
  | .struct hfields =>
    cases value with
    | struct row =>
      refine keeps_bind (Writing.commit_keeps fun b b' hb hchange => ?_) fun _ => ?_
      · exact hb.update? (fun _ _ _ hw => ColumnVector.grows_markPresent hw) hchange
      · exact hfields.write_keeps hr (fun d hd => hroot (List.mem_cons_of_mem _ hd)) row
    | null => contradiction
    | _ => exact keeps_throw _
  | @Plans.list _ head averageSize c target helement =>
    cases value with
    | list items =>
      obtain ⟨hid, hregular⟩ := hr.element
      refine keeps_bind (keeps_forM fun item _ => ?_) fun _ => ?_
      · exact helement.write_keeps hregular (fun d hd => hroot (List.mem_cons_of_mem _ hd)) item
      · refine Writing.commit_keeps fun b b' hb hchange => ?_
        have hmem : Column.list head averageSize c ∈ root.preorder := hroot (List.mem_cons_self ..)
        exact hb.close? hmem rfl (helement.column_eq.trans hid) hchange
    | null => contradiction
    | _ => exact keeps_throw _
  | @Plans.map _ head c d key part hkey hvalue =>
    cases value with
    | map entries =>
      obtain ⟨hid, hkregular⟩ := hr.key
      refine keeps_bind (keeps_forM fun e _ => keeps_bind ?_ fun _ => ?_) fun _ => ?_
      · exact hkey.write_keeps hkregular
          (fun x hx => hroot (List.mem_cons_of_mem _ (List.mem_append_left _ hx))) e.1
      · exact hvalue.write_keeps hr.value.2
          (fun x hx => hroot (List.mem_cons_of_mem _ (List.mem_append_right _ hx))) e.2
      · refine Writing.commit_keeps fun b b' hb hchange => ?_
        have hmem : Column.map head c d ∈ root.preorder := hroot (List.mem_cons_self ..)
        exact hb.close? hmem rfl (hkey.column_eq.trans hid) hchange
    | null => contradiction
    | _ => exact keeps_throw _

theorem PlansFields.write_keeps {path : Path} {columns : List Column}
    {fields : List (Accessor × Operation)} (h : PlansFields path columns fields)
    {next : ColumnId} (hr : Column.RegularFrom next columns)
    (hroot : Column.preorderChildren columns ⊆ root.preorder) (values : List Staged) :
    Keeps (fun b => Delimited root b.vectors) (Operation.writeFields fields values) := by
  match h, values with
  | .nil, _ => exact keeps_pure _
  | .cons _ _, [] => exact keeps_pure _
  | .cons hop hops, value :: values =>
    obtain ⟨-, hc, hrest⟩ := hr
    refine keeps_bind ?_ fun _ => ?_
    · exact hop.write_keeps hc (fun d hd => hroot (List.mem_append_left _ hd)) value
    · exact hops.write_keeps hrest (fun d hd => hroot (List.mem_append_right _ hd)) values

end

end Keeping

end Columnar
