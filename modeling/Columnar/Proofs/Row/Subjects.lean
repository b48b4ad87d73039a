import Columnar.Proofs.Handle.Atomicity
import Columnar.Proofs.Plan.Agreement
import Columnar.Proofs.Row.Walk

/-! # What errors are about

    An error has the path of an operation.  It is about what the row presents to
    this operation: the failure of an accessor, a value that the operation does
    not append, or a list or map that has no room or a null key
    (`AppendError.Concerns`).  Whatever fails on a walk along the plan, apart
    from vectors that are not there, fails like that
    (`Operation.concerns_of_mem_walkFields`). -/

namespace Columnar

/-! ### What a row presents -/

/-- The row presents a value, or the failure of an accessor, to an operation of the plan that has
    this source: in a field of its own, or within what it presents to the operation around. -/
inductive Presents (plan : List (Accessor × Operation)) (row : Record) :
    Source → Operation → Except AccessError Value → Prop where
  | row {accessor : Accessor} {op : Operation} (h : (accessor, op) ∈ plan) :
      Presents plan row (.field accessor) op (row accessor)
  | field {source : Source} {target : Target} {fields : List (Accessor × Operation)}
      {record : Record} {accessor : Accessor} {op : Operation}
      (hstruct : Presents plan row source (.struct target fields) (.ok (.struct record)))
      (h : (accessor, op) ∈ fields) : Presents plan row (.field accessor) op (record accessor)
  | element {source : Source} {target : Target} {element : Operation} {items : List Value}
      {item : Value} (hlist : Presents plan row source (.list target element) (.ok (.list items)))
      (h : item ∈ items) : Presents plan row .element element (.ok item)
  | key {source : Source} {target : Target} {key value : Operation} {entries : List (Value × Value)}
      {k v : Value} (hmap : Presents plan row source (.map target key value) (.ok (.map entries)))
      (h : (k, v) ∈ entries) : Presents plan row .element key (.ok k)
  | value {source : Source} {target : Target} {key value : Operation}
      {entries : List (Value × Value)} {k v : Value}
      (hmap : Presents plan row source (.map target key value) (.ok (.map entries)))
      (h : (k, v) ∈ entries) : Presents plan row .element value (.ok v)

namespace Operation

theorem mem_preorder_self (source : Source) (op : Operation) :
    (source, op) ∈ op.preorder source := by
  cases op with
  | primitive target kind => exact List.mem_singleton_self _
  | _ => exact List.mem_cons_self

theorem preorder_subset_preorderFields {fields : List (Accessor × Operation)} {accessor : Accessor}
    {op : Operation} (h : (accessor, op) ∈ fields) :
    op.preorder (.field accessor) ⊆ preorderFields fields := by
  induction fields with
  | nil => cases h
  | cons first rest ih =>
    intro entry hentry
    rcases List.mem_cons.1 h with rfl | h
    · exact List.mem_append_left _ hentry
    · exact List.mem_append_right _ (ih h hentry)

end Operation

namespace Presents

variable {plan : List (Accessor × Operation)} {row : Record} {source : Source} {op : Operation}
  {reading : Except AccessError Value}

/-- An operation to which something is presented is one of the plan, with all below it. -/
theorem preorder_subset (h : Presents plan row source op reading) :
    op.preorder source ⊆ Operation.preorderFields plan := by
  induction h with
  | row h => exact Operation.preorder_subset_preorderFields h
  | field _ h ih =>
    intro entry hentry
    apply ih
    exact List.mem_cons_of_mem _ (Operation.preorder_subset_preorderFields h hentry)
  | element _ _ ih =>
    intro entry hentry
    apply ih
    exact List.mem_cons_of_mem _ hentry
  | key _ _ ih =>
    intro entry hentry
    apply ih
    exact List.mem_cons_of_mem _ (List.mem_append_left _ hentry)
  | value _ _ ih =>
    intro entry hentry
    apply ih
    exact List.mem_cons_of_mem _ (List.mem_append_right _ hentry)

theorem mem_preorderFields (h : Presents plan row source op reading) :
    (source, op) ∈ Operation.preorderFields plan :=
  h.preorder_subset (op.mem_preorder_self source)

end Presents

/-! ### What an error is about -/

/-- The path that the error names. -/
def AppendError.path : AppendError → Path
  | .access path _ | .typeMismatch path _ _ | .nullMapKey path | .decimalOverflow path _ _
  | .capacityExceeded path _ | .vectorMismatch _ path => path

/-- The value is of a sort that the operation appends.  Decimals may still have too many digits. -/
def Operation.Fits : Operation → Value → Prop
  | .primitive _ (.decimal _ _), .decimal _ => True
  | .primitive _ kind, value => kind ∈ value.kinds
  | .struct _ _, .struct _ => True
  | .list _ _, .list _ => True
  | .map _ _ _, .map _ => True
  | _, _ => False

/-- The error is about what is presented to the operation. -/
inductive AppendError.Concerns : AppendError → Operation → Except AccessError Value → Prop where
  | access {op : Operation} {source : AccessError} :
      Concerns (.access op.path source) op (.error source)
  | typeMismatch {op : Operation} {value : Value} (hnull : value ≠ .null) (h : ¬op.Fits value) :
      Concerns (.typeMismatch op.path op.label value.kindName) op (.ok value)
  | decimalOverflow {target : Target} {precision : UInt8} {scale : Int8} {n : Int}
      (h : decimalLimit precision ≤ n.natAbs) :
      Concerns (.decimalOverflow target.path n precision)
        (.primitive target (.decimal precision scale)) (.ok (.decimal n))
  | nullMapKey {target : Target} {key value : Operation} {entries : List (Value × Value)} {v : Value}
      (h : (.null, v) ∈ entries) :
      Concerns (.nullMapKey target.path) (.map target key value) (.ok (.map entries))
  | listFull {target : Target} {element : Operation} {items : List Value} :
      Concerns (.capacityExceeded target.path maxElements) (.list target element)
        (.ok (.list items))
  | mapFull {target : Target} {key value : Operation} {entries : List (Value × Value)} :
      Concerns (.capacityExceeded target.path maxElements) (.map target key value)
        (.ok (.map entries))

theorem AppendError.Concerns.path_eq {e : AppendError} {op : Operation}
    {reading : Except AccessError Value} (h : e.Concerns op reading) : e.path = op.path := by
  cases h <;> rfl

/-- The value of a leaf column is of the wrong kind, or a decimal with too many digits. -/
theorem concerns_of_convert {target : Target} {kind : PrimitiveKind} {value : Value}
    {e : AppendError} (hnull : value ≠ .null) (h : convert target.path kind value = .error e) :
    e.Concerns (.primitive target kind) (.ok value) := by
  rcases convert_cases target.path kind value with ⟨s, hs, -, -⟩ | ⟨e', he', hviolations⟩
  · rw [h] at hs
    cases hs
  · cases h.symm.trans he'
    unfold PrimitiveKind.violations at hviolations
    split at hviolations
    · next precision scale n =>
      split at hviolations
      · cases hviolations
      · next hlimit =>
        cases hviolations
        exact .decimalOverflow (Nat.not_lt.1 hlimit)
    · next hdecimal =>
      split at hviolations
      · cases hviolations
      · next hkind =>
        cases hviolations
        have hfits : ¬(Operation.primitive target kind).Fits value := by
          cases kind with
          | decimal precision scale =>
            cases value with
            | decimal n => exact absurd rfl (hdecimal precision scale n rfl)
            | _ => exact hkind
          | _ => exact hkind
        exact .typeMismatch hnull hfits

/-! ### Walks -/

section Walks

variable {plan : List (Accessor × Operation)} {row : Record} {slots : ColumnId → Nat} {n : Nat}
  {earlier : List Occasion} {occasion : Occasion} {e : AppendError}

/-- The error is about something that the row presents. -/
def Explained (plan : List (Accessor × Operation)) (row : Record) (e : AppendError) : Prop :=
  ∃ source op reading, Presents plan row source op reading ∧ e.Concerns op reading

/-- A value of the wrong sort. -/
theorem explained_of_refuse {source : Source} {op : Operation} {value : Value}
    (h : Presents plan row source op (.ok value)) (hnull : value ≠ .null) (hfits : ¬op.Fits value)
    (ho : occasion ∈ [Occasion.refuse (.typeMismatch op.path op.label value.kindName)])
    (he : occasion.failure? slots n earlier = some e) : Explained plan row e := by
  rw [List.mem_singleton.1 ho] at he
  cases he
  exact ⟨source, op, _, h, .typeMismatch hnull hfits⟩

/-- Elements that are too many. -/
theorem explained_of_grow {path : Path} {element : ColumnId} {count : Nat}
    (h : Explained plan row (.capacityExceeded path maxElements))
    (he : (Occasion.grow path element count).failure? slots n earlier = some e)
    (hmismatch : e.isMismatch = false) : Explained plan row e := by
  unfold Occasion.failure? at he
  simp only at he
  split at he
  · cases he
    cases hmismatch
  · split at he
    · cases he
      exact h
    · cases he

mutual

/-- Whatever fails on a walk within a value that is presented is about something presented there. -/
theorem Operation.concerns_of_mem_walk (op : Operation) {source : Source} {value : Value}
    (h : Presents plan row source op (.ok value)) (ho : occasion ∈ op.walk value)
    (he : occasion.failure? slots n earlier = some e) (hmismatch : e.isMismatch = false) :
    Explained plan row e := by
  match op with
  | .primitive target kind =>
    by_cases hnull : value = .null
    · subst hnull
      cases ho
    · rw [walk.eq_2 _ _ _ hnull] at ho
      cases hconvert : convert target.path kind value with
      | ok s =>
        rw [hconvert] at ho
        cases ho
      | error e' =>
        rw [hconvert] at ho
        rw [List.mem_singleton.1 ho] at he
        cases he
        exact ⟨source, _, _, h, concerns_of_convert hnull hconvert⟩
  | .struct target fields =>
    cases value with
    | null => cases ho
    | struct record =>
      have hfields : ∀ accessor op, (accessor, op) ∈ fields →
          Presents plan row (.field accessor) op (record accessor) := by
        intro accessor op hmem
        exact .field h hmem
      exact Operation.concerns_of_mem_walkFields fields hfields ho he hmismatch
    | _ => exact explained_of_refuse h nofun id ho he
  | .list target element =>
    cases value with
    | null => cases ho
    | list items =>
      rcases List.mem_cons.1 ho with rfl | ho
      · exact explained_of_grow ⟨_, _, _, h, .listFull⟩ he hmismatch
      · obtain ⟨item, hitem, ho⟩ := List.mem_flatMap.1 ho
        exact element.concerns_of_mem_walk (.element h hitem) ho he hmismatch
    | _ => exact explained_of_refuse h nofun id ho he
  | .map target key part =>
    cases value with
    | null => cases ho
    | map entries =>
      rcases List.mem_cons.1 ho with rfl | ho
      · exact explained_of_grow ⟨_, _, _, h, .mapFull⟩ he hmismatch
      · obtain ⟨⟨k, v⟩, hentry, ho⟩ := List.mem_flatMap.1 ho
        rcases List.mem_append.1 ho with ho | ho
        -- the key is null
        · cases k with
          | null =>
            rw [List.mem_singleton.1 ho] at he
            cases he
            exact ⟨_, _, _, h, .nullMapKey hentry⟩
          | _ => cases ho
        · rcases List.mem_append.1 ho with ho | ho
          · exact key.concerns_of_mem_walk (.key h hentry) ho he hmismatch
          · exact part.concerns_of_mem_walk (.value h hentry) ho he hmismatch
    | _ => exact explained_of_refuse h nofun id ho he

theorem Operation.concerns_of_mem_walkFields (fields : List (Accessor × Operation))
    {record : Record}
    (h : ∀ accessor op, (accessor, op) ∈ fields →
      Presents plan row (.field accessor) op (record accessor))
    (ho : occasion ∈ walkFields fields record) (he : occasion.failure? slots n earlier = some e)
    (hmismatch : e.isMismatch = false) : Explained plan row e := by
  match fields with
  | [] => cases ho
  | (accessor, op) :: rest =>
    have hfirst := h accessor op List.mem_cons_self
    have hrest : ∀ accessor op, (accessor, op) ∈ rest →
        Presents plan row (.field accessor) op (record accessor) := by
      intro accessor op hmem
      exact h accessor op (List.mem_cons_of_mem _ hmem)
    rw [walkFields] at ho
    cases hread : record accessor with
    | error source =>
      rw [hread] at ho hfirst
      rcases List.mem_cons.1 ho with rfl | ho
      · cases he
        exact ⟨_, _, _, hfirst, .access⟩
      · exact Operation.concerns_of_mem_walkFields rest hrest ho he hmismatch
    | ok value =>
      rw [hread] at ho hfirst
      rcases List.mem_cons.1 ho with rfl | ho
      · cases he
      · rcases List.mem_append.1 ho with ho | ho
        · exact op.concerns_of_mem_walk hfirst ho he hmismatch
        · exact Operation.concerns_of_mem_walkFields rest hrest ho he hmismatch

end

end Walks

end Columnar
