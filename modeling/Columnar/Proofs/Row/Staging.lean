import Columnar.Proofs.Plan.Shape
import Columnar.Proofs.Row.Conformance

/-! # Staging

    Staging ends in one of three ways.  If nothing is wrong with a value it
    gives what is stored for the value and counts the elements that the value
    adds.  Otherwise it fails with the first thing that is wrong, unless an
    element vector would outgrow the range of offsets before.

    `Meets` says this of a piece of staging, and has a rule for each way in
    which staging is put together; `Plans.stage_meets` follows the plan. -/

namespace Columnar

/-! ### Counting elements -/

/-- The elements counted so far for a column. -/
def Progress.pending (p : Progress) (column : ColumnId) : Nat :=
  p.scratch.pending[column]?.getD 0

/-- A row begins with nothing counted. -/
theorem pending_fresh (columnCount : Nat) (column : ColumnId) :
    Progress.pending ⟨.fresh columnCount, #[]⟩ column = 0 := by
  show (Array.replicate columnCount 0)[column]?.getD 0 = 0
  rw [Array.getElem?_replicate]
  split <;> rfl

/-- Between the two states exactly these elements were counted, and there is room for them behind
    the `slots` of each column. -/
structure Counted (slots : ColumnId → Nat) (ids : List ColumnId) (p p' : Progress) : Prop where
  size : p'.scratch.pending.size = p.scratch.pending.size
  count : ∀ column, p'.pending column = p.pending column + ids.count column
  fits : ∀ column ∈ ids, slots column + p'.pending column ≤ maxElements

namespace Counted

variable {slots : ColumnId → Nat} {ids js : List ColumnId} {p q r : Progress}

theorem refl : Counted slots [] p p :=
  ⟨rfl, by simp, by simp⟩

theorem trans (hpq : Counted slots ids p q) (hqr : Counted slots js q r) :
    Counted slots (ids ++ js) p r := by
  refine ⟨hqr.size.trans hpq.size, ?_, ?_⟩
  · intro column
    rw [hqr.count, hpq.count, List.count_append]
    omega
  · intro column hc
    -- a column that the second step does not count has room since the first one
    by_cases hj : column ∈ js
    · exact hqr.fits column hj
    · have hi : column ∈ ids := by simpa [hj] using hc
      rw [hqr.count, List.count_eq_zero.2 hj]
      exact hpq.fits column hi

end Counted

/-- With these elements some vector would have more than offsets can count. -/
def Overflows (slots : ColumnId → Nat) (ids : List ColumnId) (p : Progress) : Prop :=
  ∃ column, maxElements < slots column + p.pending column + ids.count column

/-! ### Rules -/

/-- How staging from `p` may end if the value to be had is `a`, these problems are in its way and
    these elements are to be counted. -/
def Ends {α : Type} (slots : ColumnId → Nat) (a : α) (problems : List AppendError)
    (ids : List ColumnId) (p : Progress) : Except AppendError α × Progress → Prop
  | (.ok b, q) => b = a ∧ problems = [] ∧ Counted slots ids p q
  | (.error e, _) =>
    problems.head? = some e ∨
      (∃ path, e = .capacityExceeded path maxElements) ∧ Overflows slots ids p

/-- Staging ends like that from wherever `n` columns are counted. -/
def Meets {α : Type} (slots : ColumnId → Nat) (n : Nat) (x : Staging α) (a : α)
    (problems : List AppendError) (ids : List ColumnId) : Prop :=
  ∀ p : Progress, p.scratch.pending.size = n → Ends slots a problems ids p (x.run.run p)

section Rules

variable {α β : Type} {slots : ColumnId → Nat} {n : Nat}

theorem meets_pure (a : α) : Meets slots n (pure a) a [] [] := by
  intro p _
  exact ⟨rfl, rfl, .refl⟩

theorem meets_throw (e : AppendError) (a : α) (problems : List AppendError)
    (ids : List ColumnId) : Meets slots n (throw e) a (e :: problems) ids := by
  intro p _
  exact .inl rfl

theorem meets_bind {x : Staging α} {f : α → Staging β} {a : α} {b : β} {ps qs : List AppendError}
    {ids js : List ColumnId} (hx : Meets slots n x a ps ids) (hf : Meets slots n (f a) b qs js) :
    Meets slots n (x >>= f) b (ps ++ qs) (ids ++ js) := by
  intro p hp
  have hxp := hx p hp
  rcases hrun : x.run.run p with ⟨e | a', q⟩
  -- the first step fails, and so does the whole
  · rw [run_bind_error hrun]
    rw [hrun] at hxp
    rcases hxp with hhead | ⟨hpath, column, hover⟩
    · exact .inl (by simp [hhead])
    · refine .inr ⟨hpath, column, ?_⟩
      rw [List.count_append]
      omega
  -- the second step goes on from what the first one counted
  · rw [run_bind_ok hrun]
    rw [hrun] at hxp
    obtain ⟨rfl, rfl, hcount⟩ := hxp
    have hfq := hf q (hcount.size.trans hp)
    rcases hrun' : (f a').run.run q with ⟨e | b', q'⟩
    · rw [hrun'] at hfq
      rcases hfq with hhead | ⟨hpath, column, hover⟩
      · exact .inl (by simpa using hhead)
      · refine .inr ⟨hpath, column, ?_⟩
        rw [hcount.count] at hover
        rw [List.count_append]
        omega
    · rw [hrun'] at hfq
      obtain ⟨rfl, rfl, hcount'⟩ := hfq
      exact ⟨rfl, rfl, hcount.trans hcount'⟩

theorem meets_map {x : Staging α} {a : α} {ps : List AppendError} {ids : List ColumnId}
    (g : α → β) (hx : Meets slots n x a ps ids) :
    Meets slots n (do return g (← x)) (g a) ps ids := by
  have h : Meets slots n (x >>= fun a => pure (g a)) (g a) (ps ++ []) (ids ++ []) :=
    meets_bind hx (meets_pure (g a))
  simpa using h

/-- A step that fails decides the error of what follows. -/
theorem meets_error {x : Staging α} {f : α → Staging β} {e : AppendError}
    (hx : ∀ p, ∃ q, x.run.run p = (.error e, q)) (b : β) (problems : List AppendError)
    (ids : List ColumnId) : Meets slots n (x >>= f) b (e :: problems) ids := by
  intro p _
  obtain ⟨q, hq⟩ := hx p
  rw [run_bind_error hq]
  exact .inl rfl

theorem meets_mapM {f : α → Staging β} {g : α → β} {ps : α → List AppendError}
    {ids : α → List ColumnId} (items : List α)
    (hf : ∀ item ∈ items, Meets slots n (f item) (g item) (ps item) (ids item)) :
    Meets slots n (items.mapM f) (items.map g) (items.flatMap ps) (items.flatMap ids) := by
  induction items with
  | nil => exact meets_pure []
  | cons item rest ih =>
    rw [List.mapM_cons]
    have hrest := ih fun item h => hf item (by simp [h])
    exact meets_bind (hf item (by simp)) (meets_map (g item :: ·) hrest)

/-- Reading calls the accessor, whether it fails or not. -/
theorem run_read (record : Record) (path : Path) (accessor : Accessor) (p : Progress) :
    (Staging.read record path accessor).run.run p =
      (match record accessor with
        | .ok value => .ok value
        | .error source => .error (.access path source),
      { p with calls := p.calls.push accessor }) := by
  unfold Staging.read
  rw [run_bind_ok (run_modify ..)]
  cases record accessor <;> rfl

theorem meets_read {record : Record} {path : Path} {accessor : Accessor} {value : Value}
    (h : record accessor = .ok value) :
    Meets slots n (Staging.read record path accessor) value [] [] := by
  intro p _
  rw [run_read, h]
  exact ⟨rfl, rfl, rfl, by simp [Progress.pending], by simp⟩

/-- One count is set, the others are as they were. -/
theorem pending_setIfInBounds {p : Progress} {element : ColumnId}
    (h : element < p.scratch.pending.size) (total : Nat) (column : ColumnId) :
    Progress.pending
        { p with scratch := ⟨p.scratch.pending.setIfInBounds element total⟩ } column =
      if element = column then total else p.pending column := by
  show (p.scratch.pending.setIfInBounds element total)[column]?.getD 0 = _
  rw [Array.getElem?_setIfInBounds]
  by_cases heq : element = column
  · rw [if_pos heq, if_pos heq, if_pos h]
    rfl
  · rw [if_neg heq, if_neg heq]
    rfl

theorem meets_reserve (path : Path) {element : ColumnId} (h : element < n) (count : Nat) :
    Meets slots n (Staging.reserve path element (slots element) count) ()
      [] (List.replicate count element) := by
  intro p hp
  -- every element column has a count
  have hpend : p.scratch.pending[element]? = some (p.pending element) := by
    unfold Progress.pending
    rw [Array.getElem?_eq_getElem (hp ▸ h)]
    rfl
  unfold Staging.reserve
  rw [run_bind_ok (run_get p)]
  simp only [hpend]
  by_cases hover : maxElements < slots element + p.pending element + count
  · rw [if_pos hover]
    refine .inr ⟨⟨path, rfl⟩, element, ?_⟩
    rwa [List.count_replicate_self]
  · rw [if_neg hover]
    have hcount : ∀ column, Progress.pending
        { p with scratch := ⟨p.scratch.pending.setIfInBounds element (p.pending element + count)⟩ }
          column = p.pending column + (List.replicate count element).count column := by
      intro column
      rw [pending_setIfInBounds (hp ▸ h)]
      by_cases hc : element = column
      · subst hc
        rw [if_pos rfl, List.count_replicate_self]
      · rw [if_neg hc, List.count_replicate, if_neg (by simpa using hc), Nat.add_zero]
    refine ⟨rfl, rfl, by simp, hcount, ?_⟩
    intro column hc
    obtain ⟨-, rfl⟩ := List.mem_replicate.1 hc
    rw [hcount, List.count_replicate_self]
    omega

end Rules

/-! ### Staging along a plan -/

/-- A value of the wrong sort. -/
theorem meets_mismatch {slots : ColumnId → Nat} {n : Nat} {op : Operation} {value : Value}
    {e : AppendError} (hs : op.stage slots value = throw e) (hv : op.violations value = [e]) :
    Meets slots n (op.stage slots value) (op.stored value) (op.violations value)
      (op.additions value) := by
  rw [hs, hv]
  exact meets_throw e _ _ _

theorem meets_null (slots : ColumnId → Nat) (n : Nat) (op : Operation) :
    Meets slots n (op.stage slots .null) (op.stored .null) (op.violations .null)
      (op.additions .null) := by
  rw [Operation.stage, Operation.stored, Operation.violations]
  cases op <;> exact meets_pure Staged.null

theorem meets_primitive (slots : ColumnId → Nat) (n : Nat) (target : Target) (kind : PrimitiveKind)
    {value : Value} (hnull : value ≠ .null) :
    Meets slots n (Operation.stage slots (.primitive target kind) value)
      (Operation.stored (.primitive target kind) value)
      (Operation.violations (.primitive target kind) value)
      (Operation.additions (.primitive target kind) value) := by
  rw [Operation.stage.eq_2 _ _ _ _ hnull, Operation.stored.eq_2 _ _ _ hnull,
    Operation.violations.eq_2 _ _ _ hnull]
  have hadd : Operation.additions (.primitive target kind) value = [] := by
    cases value <;> rfl
  rw [hadd]
  rcases convert_cases target.path kind value with ⟨s, hs, -, htakes⟩ | ⟨e, he, hviol⟩
  · rw [hs, PrimitiveKind.violations_eq_nil_iff.2 htakes]
    exact meets_pure (Staged.scalar s)
  · rw [he, hviol]
    exact meets_throw e _ _ _

mutual

/-- Staging a value gives what is stored for it, or fails with what is wrong first. -/
theorem Plans.stage_meets (slots : ColumnId → Nat) {n : Nat} {path : Path} {c : Column}
    {op : Operation} (h : Plans path c op) (hr : c.Regular) (hn : c.id + c.count ≤ n)
    (value : Value) :
    Meets slots n (op.stage slots value) (op.stored value) (op.violations value)
      (op.additions value) := by
  -- by induction on the plan; all columns of the tree are numbered below `n`, so that they have
  -- counts
  match h with
  | .primitive =>
    by_cases hnull : value = .null
    · subst hnull
      exact meets_null slots n _
    · exact meets_primitive slots n _ _ hnull
  | @Plans.struct _ head _ children fields hfields =>
    have hn' : head.id + 1 + Column.countChildren children ≤ n := by
      simp only [Column.count, Column.id, Column.head] at hn
      grind
    cases value with
    | struct record =>
      rw [Operation.stage]
      exact meets_map Staged.struct (hfields.stage_meets slots hr hn' record)
    | null => exact meets_null slots n _
    | _ => exact meets_mismatch rfl rfl
  | @Plans.list _ head _ c element helement =>
    obtain ⟨hid, hr⟩ := hr.element
    simp only [Column.count, Column.id, Column.head] at hn
    have hcn : c.id + c.count ≤ n := by grind
    have helem : element.column < n := by
      rw [helement.column_eq]
      have := c.count_pos
      grind
    cases value with
    | list items =>
      rw [Operation.stage]
      -- room for the elements is checked before any of them is staged
      exact meets_bind (meets_reserve _ helem items.length) (meets_map Staged.list
        (meets_mapM items fun item _ => helement.stage_meets slots hr hcn item))
    | null => exact meets_null slots n _
    | _ => exact meets_mismatch rfl rfl
  | @Plans.map _ head c d keyOp valueOp hkey hvalue =>
    obtain ⟨hkid, hkr⟩ := hr.key
    obtain ⟨hvid, hvr⟩ := hr.value
    simp only [Column.count, Column.id, Column.head] at hn
    have hkn : c.id + c.count ≤ n := by grind
    have hvn : d.id + d.count ≤ n := by grind
    have hkelem : keyOp.column < n := by
      rw [hkey.column_eq]
      have := c.count_pos
      grind
    cases value with
    | map entries =>
      rw [Operation.stage]
      refine meets_bind (meets_reserve _ hkelem entries.length) (meets_map Staged.map
        (meets_mapM entries fun e _ => ?_))
      obtain ⟨k, v⟩ := e
      -- a null key ends the entry before key and value are staged
      cases hk : k.isNull with
      | true =>
        simp only [hk]
        exact meets_throw _ _ _ _
      | false =>
        simp only [hk]
        show Meets slots n _ _ (keyOp.violations k ++ valueOp.violations v) _
        refine meets_bind (hkey.stage_meets slots hkr hkn k) ?_
        exact meets_map (keyOp.stored k, ·) (hvalue.stage_meets slots hvr hvn v)
    | null => exact meets_null slots n _
    | _ => exact meets_mismatch rfl rfl

theorem PlansFields.stage_meets (slots : ColumnId → Nat) {n next : Nat} {path : Path}
    {columns : List Column} {fields : List (Accessor × Operation)}
    (h : PlansFields path columns fields) (hr : Column.RegularFrom next columns)
    (hn : next + Column.countChildren columns ≤ n) (record : Record) :
    Meets slots n (Operation.stageFields slots fields record) (Operation.storedFields fields record)
      (Operation.violationsOfFields fields record) (Operation.additionsOfFields fields record) := by
  match h with
  | .nil => exact meets_pure []
  | @PlansFields.cons _ c rest accessor op ops hop hops =>
    obtain ⟨⟨rfl, -, -⟩, hc, hrest⟩ := hr
    rw [Column.countChildren] at hn
    have hcn : c.id + c.count ≤ n := by grind
    have hrn : c.id + c.count + Column.countChildren rest ≤ n := by grind
    rw [Operation.stageFields, Operation.storedFields, Operation.violationsOfFields,
      Operation.additionsOfFields]
    cases hv : record accessor with
    | error cause =>
      -- nothing behind a failed reading is staged
      refine meets_error (e := .access op.path cause) (fun p => ?_) _ _ _
      rw [run_read, hv]
      exact ⟨_, rfl⟩
    | ok value =>
      show Meets slots n _ _
        ([] ++ (op.violations value ++ Operation.violationsOfFields ops record))
        ([] ++ (op.additions value ++ Operation.additionsOfFields ops record))
      refine meets_bind (meets_read hv) (meets_bind (hop.stage_meets slots hc hcn value) ?_)
      exact meets_map (op.stored value :: ·) (hops.stage_meets slots hrest hrn record)

end

end Columnar
