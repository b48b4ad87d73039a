import Columnar.Batch.Assembly
import Columnar.Proofs.Batch.Offsets

/-! # Offsets while vectors are drained

    Draining need not come to its end, and a vector may be drained for the
    column of another one.  Still no list or map vector is left with offsets
    beyond its elements: a column gives up its own offsets before anything is
    drained below it.

    `Empties` says which vectors may lose their slots when columns are drained,
    in which order, up to where draining fails; what draining keeps is shown by
    induction on it. -/

namespace Columnar

/-! ### One column -/

/-- The vector without its slots. -/
def ColumnVector.drained : ColumnVector → ColumnVector
  | .leaf type _ => .leaf type #[]
  | .struct _ => .struct #[]
  | .list _ _ => .list #[0] #[]
  | .map _ _ => .map #[0] #[]

theorem ColumnVector.sound_drained (v : ColumnVector) : v.drained.Sound := by
  cases v with
  | leaf type slots => trivial
  | struct validity => trivial
  | list offsets validity => exact SlotBounds.empty
  | map offsets validity => exact SlotBounds.empty

@[simp] theorem ColumnVector.lastOffset_drained (v : ColumnVector) : v.drained.lastOffset = 0 := by
  cases v <;> rfl

/-- No vector is another one, except that of the column, which may have lost its slots, and has
    lost its offsets if the column is a list or a map. -/
structure Column.Opens (c : Column) (before after : Array ColumnVector) : Prop where
  change : after = before ∨ ∃ v, before[c.id]? = some v ∧ after = before.setIfInBounds c.id v.drained
  closed : c.isCollection = true → lastOffsetAt after c.id = 0

namespace Column.Opens

variable {c : Column} {before after : Array ColumnVector}

theorem getElem?_ne (h : c.Opens before after) {id : ColumnId} (hne : id ≠ c.id) :
    after[id]? = before[id]? := by
  rcases h.change with rfl | ⟨v, hv, rfl⟩
  · rfl
  · rw [getElem?_setIfInBounds_of hv, if_neg hne]

theorem sound (h : c.Opens before after) (hsound : AllSound before) : AllSound after := by
  rcases h.change with rfl | ⟨v, hv, rfl⟩
  · exact hsound
  · exact hsound.setIfInBounds v.sound_drained c.id

/-- The vector has been emptied. -/
theorem of_drained {v : ColumnVector} (hv : before[c.id]? = some v) :
    c.Opens before (before.setIfInBounds c.id v.drained) := by
  refine ⟨.inr ⟨v, hv, rfl⟩, fun _ => ?_⟩
  rw [lastOffsetAt, getElem?_setIfInBounds_of hv, if_pos rfl]
  exact v.lastOffset_drained

/-- The vector has no offsets, or the column does not ask for them. -/
theorem of_kept (h : c.isCollection = true → lastOffsetAt before c.id = 0) :
    c.Opens before before :=
  ⟨.inl rfl, h⟩

end Column.Opens

/-! ### Columns one after the other -/

/-- Columns are drained in order, each one before those below it.  Draining may stop anywhere. -/
inductive Empties : List Column → Array ColumnVector → Array ColumnVector → Prop where
  | stop (columns : List Column) (vectors : Array ColumnVector) : Empties columns vectors vectors
  | next {c : Column} {rest : List Column} {v₀ v₁ v₂ v₃ : Array ColumnVector}
      (hopen : c.Opens v₀ v₁) (hbelow : Empties c.children v₁ v₂) (hrest : Empties rest v₂ v₃) :
      Empties (c :: rest) v₀ v₃

namespace Draining

/-- How work on a column begins. -/
theorem run_start (head : ColumnHead) (vectors : Array ColumnVector) :
    (start head).run.run vectors =
      match vectors[head.id]? with
      | none => (.error (.noVector head.id head.name), vectors)
      | some (.leaf type slots) =>
        (.ok (.inl (.leaf type slots)), vectors.setIfInBounds head.id (.leaf type #[]))
      | some v => (.ok (.inr v), vectors) := by
  unfold start
  rw [run_bind_ok (run_get _)]
  cases hv : vectors[head.id]? with
  | none => rfl
  | some v => cases v <;> rfl

theorem takeValidity_opens {c : Column} {vectors : Array ColumnVector} {v : ColumnVector}
    (hv : vectors[c.id]? = some v) (hc : c.isCollection = false) :
    ∃ nulls after, (takeValidity c.id v).run.run vectors = (.ok nulls, after) ∧
      c.Opens vectors after := by
  have hkept : c.Opens vectors vectors := .of_kept fun h => by simp [hc] at h
  cases v with
  | struct validity => exact ⟨_, _, rfl, .of_drained hv⟩
  | _ => exact ⟨_, _, rfl, hkept⟩

theorem takeOffsets_opens {c : Column} {vectors : Array ColumnVector} {v : ColumnVector}
    (hv : vectors[c.id]? = some v) :
    ∃ taken after, (takeOffsets c.id v).run.run vectors = (.ok taken, after) ∧
      c.Opens vectors after := by
  have hkept (h : v.lastOffset = 0) : c.Opens vectors vectors := .of_kept fun _ => by
    rw [lastOffsetAt, hv]
    exact h
  cases v with
  | list offsets validity => exact ⟨_, _, rfl, .of_drained hv⟩
  | map offsets validity => exact ⟨_, _, rfl, .of_drained hv⟩
  | _ => exact ⟨_, _, rfl, hkept rfl⟩

end Draining

/-- Making an array does not change vectors. -/
theorem state_liftExcept {α : Type} (x : Except AssemblyError α) (vectors : Array ColumnVector) :
    ((liftExcept x : Draining α).run.run vectors).2 = vectors := by
  cases x <;> rfl

/-- Nothing below a column is drained if it has no vector, or that of a leaf. -/
theorem Column.start_empties {c : Column} {vectors : Array ColumnVector}
    {rest : ColumnArray ⊕ ColumnVector → Draining ColumnArray}
    (hleaf : ∀ array, rest (.inl array) = pure array)
    (hnested : ∀ v, vectors[c.id]? = some v → ∃ opened, c.Opens vectors opened ∧
      Empties c.children opened ((rest (.inr v)).run.run vectors).2) :
    ∃ opened, c.Opens vectors opened ∧
      Empties c.children opened ((Draining.start c.head >>= rest).run.run vectors).2 := by
  have hrun := Draining.run_start c.head vectors
  cases hv : vectors[c.id]? with
  | none =>
    rw [show vectors[c.head.id]? = none from hv] at hrun
    refine ⟨vectors, .of_kept fun _ => by rw [lastOffsetAt, hv]; rfl, ?_⟩
    rw [run_bind_error hrun]
    exact .stop _ _
  | some v =>
    rw [show vectors[c.head.id]? = some v from hv] at hrun
    cases v with
    | leaf type slots =>
      refine ⟨_, .of_drained hv, ?_⟩
      rw [run_bind_ok hrun, hleaf]
      exact .stop _ _
    | _ =>
      rw [run_bind_ok hrun]
      exact hnested _ hv

mutual

theorem Column.drain_empties (c : Column) (vectors : Array ColumnVector) :
    ∃ opened, c.Opens vectors opened ∧ Empties c.children opened (c.drain.run.run vectors).2 := by
  match c with
  | .primitive head kind =>
    rw [Column.drain]
    refine Column.start_empties (fun _ => rfl) fun v _ => ?_
    exact ⟨vectors, Column.Opens.of_kept fun h => (by cases h), .stop _ _⟩
  | .struct head typeName children =>
    rw [Column.drain]
    refine Column.start_empties (fun _ => rfl) fun v hv => ?_
    obtain ⟨nulls, opened, hrun, hopen⟩ := Draining.takeValidity_opens hv rfl
    have hrun : (Draining.takeValidity head.id v).run.run vectors = (.ok nulls, opened) := hrun
    refine ⟨opened, hopen, ?_⟩
    dsimp only
    rw [run_bind_ok hrun, state_bind_of_eq fun _ _ => state_liftExcept _ _]
    exact Column.drainAll_empties children opened
  | .list head averageSize element =>
    rw [Column.drain]
    refine Column.start_empties (fun _ => rfl) fun v hv => ?_
    obtain ⟨taken, opened, hrun, hopen⟩ := Draining.takeOffsets_opens hv
    have hrun : (Draining.takeOffsets head.id v).run.run vectors = (.ok taken, opened) := hrun
    refine ⟨opened, hopen, ?_⟩
    dsimp only
    rw [run_bind_ok hrun, state_bind_of_eq fun _ _ => state_liftExcept _ _]
    obtain ⟨below, hopened, hbelow⟩ := element.drain_empties opened
    exact .next hopened hbelow (.stop [] _)
  | .map head key value =>
    rw [Column.drain]
    refine Column.start_empties (fun _ => rfl) fun v hv => ?_
    obtain ⟨taken, opened, hrun, hopen⟩ := Draining.takeOffsets_opens hv
    have hrun : (Draining.takeOffsets head.id v).run.run vectors = (.ok taken, opened) := hrun
    refine ⟨opened, hopen, ?_⟩
    dsimp only
    rw [run_bind_ok hrun]
    obtain ⟨below, hkey, hbelow⟩ := key.drain_empties opened
    -- the values are drained if the keys could be
    rcases state_bind key.drain _ opened with h | ⟨array, h⟩
    · rw [h]
      exact .next hkey hbelow (.stop [value] _)
    · rw [h, state_bind_of_eq fun _ _ => state_liftExcept _ _]
      obtain ⟨behind, hvalue, hrest⟩ := value.drain_empties (key.drain.run.run opened).2
      exact .next hkey hbelow (.next hvalue hrest (.stop [] _))

theorem Column.drainAll_empties (columns : List Column) (vectors : Array ColumnVector) :
    Empties columns vectors ((Column.drainAll columns).run.run vectors).2 := by
  match columns with
  | [] => exact .stop [] vectors
  | c :: rest =>
    obtain ⟨opened, hopen, hbelow⟩ := c.drain_empties vectors
    rw [Column.drainAll]
    rcases state_bind c.drain _ vectors with h | ⟨array, h⟩
    · rw [h]
      exact .next hopen hbelow (.stop rest _)
    · rw [h, state_bind_of_eq fun _ _ => rfl]
      exact .next hopen hbelow (Column.drainAll_empties rest _)

end

/-! ### What is kept -/

theorem Column.one_lt_count {c : Column} (h : c.isCollection = true) : 1 < c.count := by
  cases c with
  | list head averageSize element => exact Nat.succ_lt_succ element.count_pos
  | map head key value =>
    have hkey := key.count_pos
    rw [Column.count]
    omega
  | _ => cases h

/-- Whether lists and maps end within their elements depends on no vector but those of their trees. -/
theorem Column.EndsWithin.congr {columns : List Column} {before after : Array ColumnVector}
    {next : Nat} (hids : Column.Numbered next columns)
    (hsame : ∀ id, next ≤ id → id < next + Column.countChildren columns → after[id]? = before[id]?)
    (h : ∀ c ∈ Column.preorderChildren columns, c.EndsWithin before) :
    ∀ c ∈ Column.preorderChildren columns, c.EndsWithin after := by
  intro c hc hcollection
  obtain ⟨hle, hend⟩ := hids.of_mem hc
  have hcount := Column.one_lt_count hcollection
  have hlt : c.id + 1 < next + Column.countChildren columns :=
    Nat.lt_of_lt_of_le (Nat.add_lt_add_left hcount c.id) hend
  have hbefore := h c hc hcollection
  unfold lastOffsetAt slotsAt at hbefore ⊢
  rwa [hsame c.id hle (Nat.lt_of_succ_lt hlt), hsame (c.id + 1) (Nat.le_succ_of_le hle) hlt]

namespace Empties

variable {columns : List Column} {before after : Array ColumnVector}

/-- Draining turns to nothing but the vectors of the columns and of those below them. -/
theorem getElem?_eq (h : Empties columns before after) {next id : Nat}
    (hids : Column.Numbered next columns)
    (hid : id < next ∨ next + Column.countChildren columns ≤ id) : after[id]? = before[id]? := by
  induction h generalizing next with
  | stop columns vectors => rfl
  | @next c rest v₀ v₁ v₂ v₃ hopen hbelow hrest ihbelow ihrest =>
    have hcount : c.count = Column.countChildren c.children + 1 := c.count_eq_succ
    rw [Column.countChildren] at hid
    have hown : id ≠ c.id := hids.id_eq ▸ (by omega : id ≠ next)
    calc v₃[id]? = v₂[id]? := ihrest (Column.Numbered.cons_iff.1 hids).2 (by omega)
      _ = v₁[id]? := ihbelow hids.children (by omega)
      _ = v₀[id]? := hopen.getElem?_ne hown

theorem sound (h : Empties columns before after) (hsound : AllSound before) : AllSound after := by
  induction h with
  | stop columns vectors => exact hsound
  | next hopen hbelow hrest ihbelow ihrest => exact ihrest (ihbelow (hopen.sound hsound))

/-- Lists and maps end within their elements afterwards if they did before. -/
theorem endsWithin (h : Empties columns before after) {next : Nat}
    (hids : Column.Numbered next columns)
    (hwithin : ∀ c ∈ Column.preorderChildren columns, c.EndsWithin before) :
    ∀ c ∈ Column.preorderChildren columns, c.EndsWithin after := by
  induction h generalizing next with
  | stop columns vectors => exact hwithin
  | @next c rest v₀ v₁ v₂ v₃ hopen hbelow hrest ihbelow ihrest =>
    have hcount : c.count = Column.countChildren c.children + 1 := c.count_eq_succ
    have hid : c.id = next := hids.id_eq
    have hbelowIds := hids.children
    have hrestIds := (Column.Numbered.cons_iff.1 hids).2
    rw [Column.preorderChildren, Column.preorder_eq_cons, List.cons_append] at hwithin ⊢
    obtain ⟨-, hwithin⟩ := List.forall_mem_cons.1 hwithin
    obtain ⟨hchildren, hothers⟩ := List.forall_mem_append.1 hwithin
    -- first the vector of the column itself is drained, which is in none of the other trees
    have hne : ∀ id : Nat, next < id → v₁[id]? = v₀[id]? := fun id hlt =>
      hopen.getElem?_ne (hid ▸ Nat.ne_of_gt hlt)
    have hchildren := Column.EndsWithin.congr hbelowIds (fun id hle _ => hne id hle) hchildren
    have hothers := Column.EndsWithin.congr hrestIds (fun id hle _ => hne id (by omega)) hothers
    -- then the vectors below it, and those behind it
    have hchildren := ihbelow hbelowIds hchildren
    have hothers := Column.EndsWithin.congr hrestIds
      (fun id hle _ => hbelow.getElem?_eq hbelowIds (.inr (by omega))) hothers
    have hothers := ihrest hrestIds hothers
    have hchildren := Column.EndsWithin.congr hbelowIds
      (fun id _ hlt => hrest.getElem?_eq hrestIds (.inl (by omega))) hchildren
    -- neither brings back the offsets that the column gave up
    have hown : v₃[c.id]? = v₁[c.id]? := by
      rw [hid, hrest.getElem?_eq hrestIds (.inl (by omega)),
        hbelow.getElem?_eq hbelowIds (.inl (by omega))]
    refine List.forall_mem_cons.2 ⟨fun hcollection => ?_, List.forall_mem_append.2 ⟨hchildren, hothers⟩⟩
    have hclosed := hopen.closed hcollection
    rw [lastOffsetAt, ← hown] at hclosed
    rw [lastOffsetAt, hclosed]
    exact Nat.zero_le _

end Empties

section Finishing

variable {root : Column} {vectors : Array ColumnVector}

/-- Draining the columns of a batch keeps the offsets delimited, whether it fails or not. -/
theorem Delimited.drainAll (h : Delimited root vectors) (hr : root.Regular)
    (hroot : root.isCollection = false) :
    Delimited root ((Column.drainAll root.children).run.run vectors).2 := by
  have hempties := Column.drainAll_empties root.children vectors
  have hwithin := h.within
  rw [Column.preorder_eq_cons, List.forall_mem_cons] at hwithin
  refine ⟨hempties.sound h.sound, ?_⟩
  rw [Column.preorder_eq_cons, List.forall_mem_cons]
  exact ⟨fun hcollection => by simp [hroot] at hcollection,
    hempties.endsWithin hr.numbered.children hwithin.2⟩

end Finishing

end Columnar
