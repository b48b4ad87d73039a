import Columnar.Proofs.Row.Staging

/-! # Staging as a walk

    Staging a row is a walk along the plan, depth first.  On its way it comes to
    accessors, which it reads, to elements, which it counts, and to values that
    cannot be stored.  `Operation.walk` lists all of these for a value, as if
    nothing ever failed, and `Operation.readings` only the accessors.

    Staging goes through the walk from its beginning and stops where something
    fails for the first time, if at all (`Operation.stage_follows`).  Nothing is
    assumed about the plan here: its columns may have any numbers. -/

namespace Columnar

/-! ### Walks -/

/-- What staging comes to: an accessor to be read, with the error if that fails, elements to be
    counted, or something that cannot be stored. -/
inductive Occasion where
  | read (accessor : Accessor) (failure : Option AppendError)
  | grow (path : Path) (element : ColumnId) (count : Nat)
  | refuse (error : AppendError)
  deriving DecidableEq

namespace Occasion

/-- The accessor that is read. -/
def accessor? : Occasion → Option Accessor
  | .read accessor _ => some accessor
  | _ => none

/-- The elements that are counted for the column. -/
def growth (column : ColumnId) : Occasion → Nat
  | .grow _ element count => if element = column then count else 0
  | _ => 0

end Occasion

/-- The accessors that are read on a walk. -/
def readingsOf (walk : List Occasion) : List Accessor := walk.filterMap Occasion.accessor?

/-- The elements that are counted for the column on a walk. -/
def growthOf (column : ColumnId) : List Occasion → Nat
  | [] => 0
  | occasion :: later => occasion.growth column + growthOf column later

namespace Operation

mutual

/-- All that staging comes to within a value. -/
def walk : Operation → Value → List Occasion
  | _, .null => []
  | .primitive target kind, value =>
    match convert target.path kind value with
    | .ok _ => []
    | .error e => [.refuse e]
  | .struct _ fields, .struct record => walkFields fields record
  | .list target element, .list items =>
    .grow target.path element.column items.length :: items.flatMap fun item => walk element item
  | .map target key value, .map entries =>
    .grow target.path key.column entries.length :: entries.flatMap fun (k, v) =>
      (if k.isNull then [.refuse (.nullMapKey target.path)] else []) ++ (walk key k ++ walk value v)
  | op, value => [.refuse (.typeMismatch op.path op.label value.kindName)]
termination_by structural op => op

/-- The same for the fields of a row or struct value. -/
def walkFields : List (Accessor × Operation) → Record → List Occasion
  | [], _ => []
  | (accessor, op) :: rest, record =>
    match record accessor with
    | .ok value => .read accessor none :: (walk op value ++ walkFields rest record)
    | .error source => .read accessor (some (.access op.path source)) :: walkFields rest record
termination_by structural fields => fields

end

mutual

/-- The accessors of all struct values within a value, in the order of the plan and of the values in
    collections. -/
def readings : Operation → Value → List Accessor
  | .struct _ fields, .struct record => readingsOfFields fields record
  | .list _ element, .list items => items.flatMap fun item => readings element item
  | .map _ key value, .map entries =>
    entries.flatMap fun (k, v) => readings key k ++ readings value v
  | _, _ => []
termination_by structural op => op

/-- Each field's accessor in the order of the plan, and whatever is below its value before the next
    one. -/
def readingsOfFields : List (Accessor × Operation) → Record → List Accessor
  | [], _ => []
  | (accessor, op) :: rest, record =>
    match record accessor with
    | .ok value => accessor :: (readings op value ++ readingsOfFields rest record)
    | .error _ => accessor :: readingsOfFields rest record
termination_by structural fields => fields

end

end Operation

/-! ### Where a walk stops -/

/-- The error at an occasion, after the earlier ones: elements may have no counts, or be too many
    with those of the vector and those counted before. -/
def Occasion.failure? (slots : ColumnId → Nat) (n : Nat) (earlier : List Occasion) :
    Occasion → Option AppendError
  | .read _ failure => failure
  | .grow path element count =>
    if n ≤ element then some (.vectorMismatch element path)
    else if maxElements < slots element + growthOf element earlier + count then
      some (.capacityExceeded path maxElements)
    else none
  | .refuse e => some e

/-- Nothing fails on the walk, which goes on behind the earlier occasions. -/
def Clear (slots : ColumnId → Nat) (n : Nat) : List Occasion → List Occasion → Prop
  | _, [] => True
  | earlier, occasion :: later =>
    occasion.failure? slots n earlier = none ∧ Clear slots n (earlier ++ [occasion]) later

/-- The walk, behind the earlier occasions, fails with this error for the first time; it stops
    there. -/
def StopsWith (slots : ColumnId → Nat) (n : Nat) (earlier walk stopped : List Occasion)
    (e : AppendError) : Prop :=
  ∃ before last after, walk = before ++ last :: after ∧ stopped = before ++ [last] ∧
    Clear slots n earlier before ∧ last.failure? slots n (earlier ++ before) = some e

section Walks

variable {slots : ColumnId → Nat} {n : Nat} {earlier walk more stopped : List Occasion}
  {e : AppendError}

theorem readingsOf_append (xs ys : List Occasion) :
    readingsOf (xs ++ ys) = readingsOf xs ++ readingsOf ys :=
  List.filterMap_append

theorem growthOf_append (column : ColumnId) (xs ys : List Occasion) :
    growthOf column (xs ++ ys) = growthOf column xs + growthOf column ys := by
  induction xs with
  | nil => exact (Nat.zero_add _).symm
  | cons occasion later ih => rw [List.cons_append, growthOf, growthOf, ih, Nat.add_assoc]

theorem growthOf_singleton_grow (column : ColumnId) (path : Path) (element : ColumnId)
    (count : Nat) :
    growthOf column [.grow path element count] = if element = column then count else 0 :=
  Nat.add_zero _

theorem clear_append : Clear slots n earlier (walk ++ more) ↔
    Clear slots n earlier walk ∧ Clear slots n (earlier ++ walk) more := by
  induction walk generalizing earlier with
  | nil => simp [Clear]
  | cons occasion later ih =>
    rw [List.cons_append, Clear, Clear, ih, and_assoc, List.append_assoc, List.singleton_append]

theorem StopsWith.append (h : StopsWith slots n earlier walk stopped e) (more : List Occasion) :
    StopsWith slots n earlier (walk ++ more) stopped e := by
  obtain ⟨before, last, after, rfl, rfl, hclear, hfailure⟩ := h
  exact ⟨before, last, after ++ more, by simp, rfl, hclear, hfailure⟩

theorem StopsWith.prepend (hclear : Clear slots n earlier walk)
    (h : StopsWith slots n (earlier ++ walk) more stopped e) :
    StopsWith slots n earlier (walk ++ more) (walk ++ stopped) e := by
  obtain ⟨before, last, after, rfl, rfl, hbefore, hfailure⟩ := h
  refine ⟨walk ++ before, last, after, by simp, by simp, clear_append.2 ⟨hclear, hbefore⟩, ?_⟩
  rwa [← List.append_assoc]

/-- A walk stops at its first occasion if that fails. -/
theorem stopsWith_head {occasion : Occasion} (h : occasion.failure? slots n earlier = some e)
    (later : List Occasion) : StopsWith slots n earlier (occasion :: later) [occasion] e :=
  ⟨[], occasion, later, rfl, rfl, trivial, by rwa [List.append_nil]⟩

end Walks

theorem readingsOf_grow (path : Path) (element : ColumnId) (count : Nat) (later : List Occasion) :
    readingsOf (.grow path element count :: later) = readingsOf later := rfl

theorem readingsOf_flatMap {α : Type} (items : List α) (f : α → List Occasion) :
    readingsOf (items.flatMap f) = items.flatMap fun item => readingsOf (f item) :=
  List.filterMap_flatMap

mutual

/-- The accessors that a walk comes to are those to be read for the value. -/
theorem Operation.readingsOf_walk (op : Operation) (value : Value) :
    readingsOf (op.walk value) = op.readings value := by
  match op with
  | .primitive target kind =>
    have hreadings : (Operation.primitive target kind).readings value = [] := by
      cases value <;> rfl
    by_cases hnull : value = .null
    · subst hnull
      rfl
    · rw [hreadings, walk.eq_2 _ _ _ hnull]
      cases convert target.path kind value <;> rfl
  | .struct target fields =>
    cases value with
    | struct record => exact readingsOf_walkFields fields record
    | _ => rfl
  | .list target element =>
    cases value with
    | list items =>
      rw [walk, readings, readingsOf_grow, readingsOf_flatMap]
      simp only [element.readingsOf_walk]
    | _ => rfl
  | .map target key part =>
    cases value with
    | map entries =>
      have hentry : ∀ k v : Value, readingsOf ((if k.isNull then
          [Occasion.refuse (.nullMapKey target.path)] else []) ++ (key.walk k ++ part.walk v)) =
            key.readings k ++ part.readings v := by
        intro k v
        rw [readingsOf_append, readingsOf_append, key.readingsOf_walk, part.readingsOf_walk]
        cases k.isNull <;> rfl
      rw [walk, readings, readingsOf_grow, readingsOf_flatMap]
      simp only [hentry]
    | _ => rfl

theorem Operation.readingsOf_walkFields (fields : List (Accessor × Operation)) (record : Record) :
    readingsOf (walkFields fields record) = readingsOfFields fields record := by
  match fields with
  | [] => rfl
  | (accessor, op) :: rest =>
    rw [walkFields, readingsOfFields]
    cases record accessor with
    | ok value =>
      show accessor :: readingsOf (op.walk value ++ walkFields rest record) = _
      rw [readingsOf_append, op.readingsOf_walk, readingsOf_walkFields rest]
    | error source =>
      show accessor :: readingsOf (walkFields rest record) = _
      rw [readingsOf_walkFields rest]

end

/-! ### Following a walk -/

/-- The progress of staging that came to these occasions while `n` columns have counts. -/
structure Progress.Passed (p : Progress) (n : Nat) (done : List Occasion) : Prop where
  size : p.scratch.pending.size = n
  calls : p.calls.toList = readingsOf done
  pending : ∀ column < n, p.pending column = growthOf column done

/-- How staging ends that goes through the walk behind what is done: it passes all of it, or stops
    with its error where the walk does. -/
def Follows.Ends {α : Type} (slots : ColumnId → Nat) (n : Nat) (done walk : List Occasion) :
    Except AppendError α × Progress → Prop
  | (.ok _, p) => Clear slots n done walk ∧ p.Passed n (done ++ walk)
  | (.error e, p) => ∃ stopped, StopsWith slots n done walk stopped e ∧
      p.calls.toList = readingsOf (done ++ stopped)

/-- Staging goes through the walk, whatever it passed before. -/
def Follows {α : Type} (slots : ColumnId → Nat) (n : Nat) (x : Staging α) (walk : List Occasion) :
    Prop :=
  ∀ done p, p.Passed n done → Follows.Ends slots n done walk (x.run.run p)

section Rules

variable {α β : Type} {slots : ColumnId → Nat} {n : Nat}

theorem follows_pure (a : α) : Follows slots n (pure a) [] := by
  intro done p hp
  refine ⟨trivial, ?_⟩
  rwa [List.append_nil]

/-- After a failure nothing of the walk is gone through. -/
theorem follows_throw (e : AppendError) (later : List Occasion) :
    Follows slots n (throw e : Staging α) (.refuse e :: later) := by
  intro done p hp
  refine ⟨[.refuse e], stopsWith_head rfl later, ?_⟩
  rw [readingsOf_append]
  exact hp.calls.trans (List.append_nil _).symm

/-- One step after the other: the walk of the second one, which may depend on what the first one
    returns, begins where the first one ends. -/
theorem follows_bind_of {x : Staging α} {f : α → Staging β} {walk more : List Occasion}
    {P : α → Prop} (hx : Follows slots n x walk) (hresult : ∀ p a, (x.run.run p).1 = .ok a → P a)
    (hf : ∀ a, P a → Follows slots n (f a) more) : Follows slots n (x >>= f) (walk ++ more) := by
  intro done p hp
  have hxp := hx done p hp
  have hPp := hresult p
  rcases hrun : x.run.run p with ⟨e | a, q⟩
  · rw [run_bind_error hrun]
    rw [hrun] at hxp
    obtain ⟨stopped, hstops, hcalls⟩ := hxp
    exact ⟨stopped, hstops.append more, hcalls⟩
  · rw [run_bind_ok hrun]
    rw [hrun] at hxp hPp
    obtain ⟨hclear, hq⟩ := hxp
    have hfq := hf a (hPp a rfl) (done ++ walk) q hq
    rcases hrun' : (f a).run.run q with ⟨e | b, r⟩
    · rw [hrun'] at hfq
      obtain ⟨stopped, hstops, hcalls⟩ := hfq
      refine ⟨walk ++ stopped, hstops.prepend hclear, ?_⟩
      rwa [← List.append_assoc]
    · rw [hrun'] at hfq
      obtain ⟨hclear', hr⟩ := hfq
      refine ⟨clear_append.2 ⟨hclear, hclear'⟩, ?_⟩
      rwa [← List.append_assoc]

theorem follows_bind {x : Staging α} {f : α → Staging β} {walk more : List Occasion}
    (hx : Follows slots n x walk) (hf : ∀ a, Follows slots n (f a) more) :
    Follows slots n (x >>= f) (walk ++ more) :=
  follows_bind_of hx (fun _ _ _ => trivial) fun a _ => hf a

theorem follows_map {x : Staging α} {walk : List Occasion} (g : α → β)
    (hx : Follows slots n x walk) : Follows slots n (do return g (← x)) walk := by
  rw [← List.append_nil walk]
  exact follows_bind hx fun a => follows_pure (g a)

theorem follows_mapM {f : α → Staging β} {walk : α → List Occasion} (items : List α)
    (hf : ∀ item ∈ items, Follows slots n (f item) (walk item)) :
    Follows slots n (items.mapM f) (items.flatMap walk) := by
  induction items with
  | nil => exact follows_pure []
  | cons item rest ih =>
    rw [List.mapM_cons, List.flatMap_cons]
    have hrest := ih fun item h => hf item (by simp [h])
    exact follows_bind (hf item (by simp)) fun b => follows_map (b :: ·) hrest

theorem Progress.Passed.read {p : Progress} {done : List Occasion} (hp : p.Passed n done)
    (accessor : Accessor) (failure : Option AppendError) :
    Progress.Passed { p with calls := p.calls.push accessor } n
      (done ++ [.read accessor failure]) := by
  refine ⟨hp.size, ?_, fun column hc => ?_⟩
  · rw [readingsOf_append, Array.toList_push, hp.calls]
    rfl
  · rw [growthOf_append]
    exact hp.pending column hc

theorem follows_read {record : Record} {path : Path} {accessor : Accessor} {value : Value}
    (h : record accessor = .ok value) {f : Value → Staging β} {walk : List Occasion}
    (hf : Follows slots n (f value) walk) :
    Follows slots n (Staging.read record path accessor >>= f) (.read accessor none :: walk) := by
  have hrun := run_read record path accessor
  rw [h] at hrun
  have hread : Follows slots n (Staging.read record path accessor) [.read accessor none] := by
    intro done p hp
    rw [hrun]
    exact ⟨⟨rfl, trivial⟩, hp.read accessor none⟩
  refine follows_bind_of (P := (· = value)) hread (fun p a ha => ?_) fun a ha => ha ▸ hf
  rw [hrun] at ha
  cases ha
  rfl

/-- After a reading that fails nothing of the walk is gone through. -/
theorem follows_read_error {record : Record} {path : Path} {accessor : Accessor}
    {source : AccessError} (h : record accessor = .error source) (f : Value → Staging β)
    (later : List Occasion) :
    Follows slots n (Staging.read record path accessor >>= f)
      (.read accessor (some (.access path source)) :: later) := by
  intro done p hp
  have hrun := run_read record path accessor p
  rw [h] at hrun
  rw [run_bind_error hrun]
  exact ⟨_, stopsWith_head rfl later, (hp.read accessor _).calls⟩

theorem follows_reserve (path : Path) (element : ColumnId) (count : Nat) :
    Follows slots n (Staging.reserve path element (slots element) count)
      [.grow path element count] := by
  intro done p hp
  unfold Staging.reserve
  rw [run_bind_ok (run_get p)]
  have hcalls : p.calls.toList = readingsOf (done ++ [.grow path element count]) := by
    rw [readingsOf_append]
    exact hp.calls.trans (List.append_nil _).symm
  by_cases helement : element < n
  · have hpend : p.scratch.pending[element]? = some (growthOf element done) := by
      rw [← hp.pending element helement, Progress.pending,
        Array.getElem?_eq_getElem (hp.size ▸ helement)]
      rfl
    have hbound : ¬ n ≤ element := Nat.not_le_of_lt helement
    simp only [hpend]
    by_cases hover : maxElements < slots element + growthOf element done + count
    · rw [if_pos hover]
      have hfailure : Occasion.failure? slots n done (.grow path element count) =
          some (.capacityExceeded path maxElements) := (if_neg hbound).trans (if_pos hover)
      exact ⟨_, stopsWith_head hfailure [], hcalls⟩
    · rw [if_neg hover]
      have hfailure : Occasion.failure? slots n done (.grow path element count) = none :=
        (if_neg hbound).trans (if_neg hover)
      refine ⟨⟨hfailure, trivial⟩, ?_, hcalls, fun column hc => ?_⟩
      · simpa using hp.size
      · rw [pending_setIfInBounds (hp.size ▸ helement), growthOf_append, growthOf_singleton_grow]
        by_cases heq : element = column
        · subst heq
          rw [if_pos rfl, if_pos rfl]
        · rw [if_neg heq, if_neg heq, hp.pending column hc, Nat.add_zero]
  · have hpend : p.scratch.pending[element]? = none := by
      rw [Array.getElem?_eq_none_iff, hp.size]
      exact Nat.le_of_not_lt helement
    simp only [hpend]
    have hfailure : Occasion.failure? slots n done (.grow path element count) =
        some (.vectorMismatch element path) := if_pos (Nat.le_of_not_lt helement)
    exact ⟨_, stopsWith_head hfailure [], hcalls⟩

end Rules

/-! ### Staging along a plan -/

/-- A value that the operation does not store. -/
theorem follows_refused {slots : ColumnId → Nat} {n : Nat} {op : Operation} {value : Value}
    {e : AppendError} (hs : op.stage slots value = throw e) (hw : op.walk value = [.refuse e]) :
    Follows slots n (op.stage slots value) (op.walk value) := by
  rw [hs, hw]
  exact follows_throw e []

theorem follows_null (slots : ColumnId → Nat) (n : Nat) (op : Operation) :
    Follows slots n (op.stage slots .null) (op.walk .null) := by
  rw [Operation.stage, Operation.walk]
  exact follows_pure Staged.null

mutual

/-- Staging a value goes through its walk. -/
theorem Operation.stage_follows (slots : ColumnId → Nat) (n : Nat) (op : Operation)
    (value : Value) : Follows slots n (op.stage slots value) (op.walk value) := by
  by_cases hnull : value = .null
  · subst hnull
    exact follows_null slots n op
  match op with
  | .primitive target kind =>
    rw [stage.eq_2 _ _ _ _ hnull, walk.eq_2 _ _ _ hnull]
    cases convert target.path kind value with
    | ok scalar => exact follows_pure (Staged.scalar scalar)
    | error e => exact follows_throw e []
  | .struct target fields =>
    cases value with
    | struct record =>
      rw [stage, walk]
      exact follows_map Staged.struct (stageFields_follows slots n fields record)
    | null => contradiction
    | _ => exact follows_refused rfl rfl
  | .list target element =>
    cases value with
    | list items =>
      rw [stage, walk]
      -- elements are counted before any of them is staged
      exact follows_bind (follows_reserve _ _ items.length) fun _ => follows_map Staged.list
        (follows_mapM items fun item _ => element.stage_follows slots n item)
    | null => contradiction
    | _ => exact follows_refused rfl rfl
  | .map target key part =>
    cases value with
    | map entries =>
      rw [stage, walk]
      refine follows_bind (follows_reserve _ _ entries.length) fun _ => follows_map Staged.map
        (follows_mapM entries fun e _ => ?_)
      obtain ⟨k, v⟩ := e
      -- a null key ends the entry before key and value are staged
      cases hk : k.isNull with
      | true =>
        simp only [hk]
        exact follows_throw _ _
      | false =>
        simp only [hk]
        show Follows slots n _ (key.walk k ++ part.walk v)
        exact follows_bind (key.stage_follows slots n k) fun k' =>
          follows_map (k', ·) (part.stage_follows slots n v)
    | null => contradiction
    | _ => exact follows_refused rfl rfl

theorem Operation.stageFields_follows (slots : ColumnId → Nat) (n : Nat)
    (fields : List (Accessor × Operation)) (record : Record) :
    Follows slots n (stageFields slots fields record) (walkFields fields record) := by
  match fields with
  | [] => exact follows_pure []
  | (accessor, op) :: rest =>
    rw [stageFields, walkFields]
    cases hv : record accessor with
    | error source => exact follows_read_error hv _ _
    | ok value =>
      refine follows_read hv (follows_bind (op.stage_follows slots n value) fun staged => ?_)
      exact follows_map (staged :: ·) (stageFields_follows slots n rest record)

end

end Columnar
