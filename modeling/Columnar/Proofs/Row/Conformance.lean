import Columnar.Row.Staging

/-! # Conforming rows

    What the documentation of a writer promises about rows, said without
    staging: which values a column takes (`Operation.Conforms`), everything
    that is wrong with a value in the order in which a plan is walked
    (`Operation.violations`), and what is stored for it (`Operation.stored`).

    None of the three stops early or counts elements.  The elements that a
    value adds to the vectors of collections are `Operation.additions`. -/

namespace Columnar

/-- Is it an error about what a row contains, and not about vectors? -/
def AppendError.isViolation : AppendError → Bool
  | .capacityExceeded _ _ | .vectorMismatch _ _ => false
  | _ => true

/-! ### Leaf values -/

/-- The kinds of column that take a leaf value, decimals apart: its own kind and the wider ones. -/
def Value.kinds : Value → List PrimitiveKind
  | .boolean _ => [.boolean]
  | .byte _ => [.byte, .short, .int, .long]
  | .short _ => [.short, .int, .long]
  | .int _ => [.int, .long]
  | .long _ => [.long]
  | .float _ => [.float, .double]
  | .double _ => [.double]
  | .string _ => [.string]
  | .binary _ => [.binary]
  | .date _ => [.date]
  | .timestamp _ => [.timestamp]
  | .null | .decimal _ | .struct _ | .list _ | .map _ => []

namespace PrimitiveKind

/-- A column of the kind takes the value. -/
def Takes : PrimitiveKind → Value → Prop
  | .decimal precision _, .decimal n => n.natAbs < decimalLimit precision
  | kind, value => kind ∈ value.kinds

/-- What is wrong with a value that is present, for a leaf column of the given path. -/
def violations (path : Path) : PrimitiveKind → Value → List AppendError
  | .decimal precision _, .decimal n =>
    if n.natAbs < decimalLimit precision then [] else [.decimalOverflow path n precision]
  | kind, value =>
    if kind ∈ value.kinds then [] else [.typeMismatch path kind.typeName value.kindName]

theorem isViolation_of_mem_violations {path : Path} {kind : PrimitiveKind} {value : Value}
    {e : AppendError} (h : e ∈ kind.violations path value) : e.isViolation := by
  unfold violations at h
  -- decimals are looked at for their size, other values for their kind
  split at h <;> split at h
  · cases h
  · rw [List.mem_singleton.1 h]
    rfl
  · cases h
  · rw [List.mem_singleton.1 h]
    rfl

theorem violations_eq_nil_iff {path : Path} {kind : PrimitiveKind} {value : Value} :
    kind.violations path value = [] ↔ kind.Takes value := by
  unfold violations Takes
  split <;> split <;> simp_all

end PrimitiveKind

/-- A leaf value is converted if its column takes it, to a scalar of the column's layout;
    otherwise the error is the one thing that is wrong with it. -/
theorem convert_cases (path : Path) (kind : PrimitiveKind) (value : Value) :
    (∃ s, convert path kind value = .ok s ∧ kind.storage.accepts s ∧ kind.Takes value) ∨
    (∃ e, convert path kind value = .error e ∧ kind.violations path value = [e]) := by
  unfold convert
  split
  -- only decimals are looked at more closely than by their kind
  case h_19 precision _ n =>
    by_cases h : n.natAbs < decimalLimit precision
    · exact .inl ⟨_, if_pos h, rfl, h⟩
    · exact .inr ⟨_, if_neg h, if_neg h⟩
  case h_20 =>
    -- no equation was left for the value, so it is of no kind that the column takes
    refine .inr ⟨_, rfl, ?_⟩
    have hkind : kind ∉ value.kinds := by
      cases value <;> simp_all [Value.kinds]
    unfold PrimitiveKind.violations
    split
    · simp_all
    · rw [if_neg hkind]
  all_goals exact .inl ⟨_, rfl, rfl, by simp [PrimitiveKind.Takes, Value.kinds]⟩

namespace Operation

/-! ### Conforming values -/

mutual

/-- Every accessor that has to be read for the value succeeds, and every value fits its column. -/
def Conforms : Operation → Value → Prop
  | _, .null => True
  | .primitive _ kind, value => kind.Takes value
  | .struct _ fields, .struct record => ConformsFields fields record
  | .list _ element, .list items => ∀ item ∈ items, Conforms element item
  | .map _ key value, .map entries =>
    ∀ e ∈ entries, e.1.isNull = false ∧ Conforms key e.1 ∧ Conforms value e.2
  | _, _ => False

/-- The same for the fields of a row or struct value. -/
def ConformsFields : List (Accessor × Operation) → Record → Prop
  | [], _ => True
  | (accessor, op) :: rest, record =>
    (∃ value, record accessor = .ok value ∧ Conforms op value) ∧ ConformsFields rest record

end

/-! ### Violations -/

mutual

/-- Everything that is wrong with a value, depth first. -/
def violations : Operation → Value → List AppendError
  | _, .null => []
  | .primitive target kind, value => kind.violations target.path value
  | .struct _ fields, .struct record => violationsOfFields fields record
  | .list _ element, .list items => items.flatMap fun item => violations element item
  | .map target key value, .map entries =>
    entries.flatMap fun e =>
      (if e.1.isNull then [.nullMapKey target.path] else violations key e.1) ++ violations value e.2
  | op, value => [.typeMismatch op.path op.label value.kindName]

/-- Everything that is wrong with the fields of a row or struct value. -/
def violationsOfFields : List (Accessor × Operation) → Record → List AppendError
  | [], _ => []
  | (accessor, op) :: rest, record =>
    (match record accessor with
      | .ok value => violations op value
      | .error cause => [.access op.path cause]) ++ violationsOfFields rest record

end

mutual

/-- A value conforms if nothing is wrong with it. -/
theorem conforms_iff (op : Operation) (value : Value) :
    op.Conforms value ↔ op.violations value = [] := by
  match op with
  | .primitive target kind =>
    by_cases hnull : value = .null
    · subst hnull
      simp [Conforms, violations]
    · rw [Conforms.eq_2 _ _ _ hnull, violations.eq_2 _ _ _ hnull,
        PrimitiveKind.violations_eq_nil_iff]
  | .struct target fields =>
    cases value with
    | struct record =>
      rw [Conforms, violations]
      exact conformsFields_iff fields record
    | _ => simp [Conforms, violations]
  | .list target element =>
    cases value with
    | list items =>
      -- nothing is wrong with a list if nothing is wrong with any element
      rw [Conforms, violations, List.flatMap_eq_nil_iff]
      exact forall₂_congr fun item _ => conforms_iff element item
    | _ => simp [Conforms, violations]
  | .map target key part =>
    cases value with
    | map entries =>
      rw [Conforms, violations, List.flatMap_eq_nil_iff]
      refine forall₂_congr fun e _ => ?_
      -- a null key is wrong in itself, any other one is judged by its column
      rw [List.append_eq_nil_iff, conforms_iff key e.1, conforms_iff part e.2]
      cases e.1.isNull <;> simp
    | _ => simp [Conforms, violations]

theorem conformsFields_iff (fields : List (Accessor × Operation)) (record : Record) :
    ConformsFields fields record ↔ violationsOfFields fields record = [] := by
  match fields with
  | [] => simp [ConformsFields, violationsOfFields]
  | (accessor, op) :: rest =>
    rw [ConformsFields, violationsOfFields, List.append_eq_nil_iff, conformsFields_iff rest record]
    cases record accessor with
    | ok value => simp [conforms_iff op value]
    | error cause => simp

end

mutual

/-- What is wrong with a value has nothing to do with vectors. -/
theorem isViolation_of_mem_violations {op : Operation} {value : Value} {e : AppendError}
    (h : e ∈ op.violations value) : e.isViolation := by
  match op with
  | .primitive target kind =>
    by_cases hnull : value = .null
    · subst hnull
      simp [violations] at h
    · rw [violations.eq_2 _ _ _ hnull] at h
      exact PrimitiveKind.isViolation_of_mem_violations h
  | .struct target fields =>
    cases value with
    | struct record =>
      rw [violations] at h
      exact isViolation_of_mem_violationsOfFields h
    | null => simp [violations] at h
    | _ =>
      rw [List.mem_singleton.1 h]
      rfl
  | .list target element =>
    cases value with
    | list items =>
      rw [violations] at h
      obtain ⟨item, -, hitem⟩ := List.mem_flatMap.1 h
      exact isViolation_of_mem_violations hitem
    | null => simp [violations] at h
    | _ =>
      rw [List.mem_singleton.1 h]
      rfl
  | .map target key part =>
    cases value with
    | map entries =>
      rw [violations] at h
      obtain ⟨entry, -, hentry⟩ := List.mem_flatMap.1 h
      -- the key of an entry is either null or wrong in itself
      rcases List.mem_append.1 hentry with hk | hv
      · split at hk
        · rw [List.mem_singleton.1 hk]
          rfl
        · exact isViolation_of_mem_violations hk
      · exact isViolation_of_mem_violations hv
    | null => simp [violations] at h
    | _ =>
      rw [List.mem_singleton.1 h]
      rfl

theorem isViolation_of_mem_violationsOfFields {fields : List (Accessor × Operation)}
    {record : Record} {e : AppendError} (h : e ∈ violationsOfFields fields record) :
    e.isViolation := by
  match fields with
  | [] => simp [violationsOfFields] at h
  | (accessor, op) :: rest =>
    rw [violationsOfFields] at h
    rcases List.mem_append.1 h with h | h
    · split at h
      · exact isViolation_of_mem_violations h
      · rw [List.mem_singleton.1 h]
        rfl
    · exact isViolation_of_mem_violationsOfFields h

end

/-! ### Stored values -/

mutual

/-- What the column of the operation stores for a value that conforms. -/
def stored : Operation → Value → Staged
  | _, .null => .null
  | .primitive target kind, value =>
    match convert target.path kind value with
    | .ok s => .scalar s
    | .error _ => .null
  | .struct _ fields, .struct record => .struct (storedFields fields record)
  | .list _ element, .list items => .list (items.map fun item => stored element item)
  | .map _ key value, .map entries => .map (entries.map fun e => (stored key e.1, stored value e.2))
  | _, _ => .null

/-- What is stored for the fields of a row or struct value. -/
def storedFields : List (Accessor × Operation) → Record → List Staged
  | [], _ => []
  | (accessor, op) :: rest, record =>
    (match record accessor with
      | .ok value => stored op value
      | .error _ => .null) :: storedFields rest record

end

/-! ### Elements -/

mutual

/-- The element (or key) columns of the collections in a value, each as often as it gets an element
    from the value. -/
def additions : Operation → Value → List ColumnId
  | .struct _ fields, .struct record => additionsOfFields fields record
  | .list _ element, .list items =>
    List.replicate items.length element.column ++ items.flatMap fun item => additions element item
  | .map _ key value, .map entries =>
    List.replicate entries.length key.column
      ++ entries.flatMap fun e => additions key e.1 ++ additions value e.2
  | _, _ => []

/-- The same for the fields of a row or struct value. -/
def additionsOfFields : List (Accessor × Operation) → Record → List ColumnId
  | [], _ => []
  | (accessor, op) :: rest, record =>
    (match record accessor with
      | .ok value => additions op value
      | .error _ => []) ++ additionsOfFields rest record

end

end Operation

end Columnar
