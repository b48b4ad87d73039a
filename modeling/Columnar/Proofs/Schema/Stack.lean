import Columnar.Schema.Compile

/-! # The types being expanded

    While a catalog is compiled there is a stack of the types being expanded.
    It never holds a type twice, nor one that is not described, and so never
    more types than there are (`Catalog.Stack`).

    To say so of the whole computation, it is watched: `watchCompile` looks at
    every stack before anything is expanded on it, and gives up if the watch is
    not content.  A watch that is content with such stacks never gives up
    (`watchCompile_eq`). -/

namespace Columnar

/-! ### Stacks -/

/-- The types are different and described, and no more than there are. -/
structure Catalog.Stack (c : Catalog) (expanding : List String) : Prop where
  nodup : expanding.Nodup
  described : ∀ typeName ∈ expanding, (c.describe typeName).isSome
  room : c.remaining expanding + expanding.length ≤ c.types.length

namespace Catalog.Stack

variable {c : Catalog} {expanding : List String}

theorem empty (c : Catalog) : c.Stack [] :=
  ⟨List.nodup_nil, by simp, List.length_filter_le _ _⟩

/-- A described type that is not being expanded can be put on the stack. -/
theorem push (h : c.Stack expanding) {typeName : String} {d : TypeDescription}
    (hd : c.describe typeName = some d) (hn : typeName ∉ expanding) :
    c.Stack (expanding ++ [typeName]) := by
  refine ⟨?_, ?_, ?_⟩
  · rw [List.nodup_append]
    refine ⟨h.nodup, by simp, fun a ha b hb => ?_⟩
    rw [List.mem_singleton.1 hb]
    exact fun heq => hn (heq ▸ ha)
  · intro a ha
    rcases List.mem_append.1 ha with ha | ha
    · exact h.described a ha
    · rw [List.mem_singleton.1 ha, hd]
      rfl
  · -- one type more on the stack, at least one less that remains
    have hlt := remaining_lt hd hn
    have hroom := h.room
    rw [List.length_append, List.length_singleton]
    omega

theorem length_le (h : c.Stack expanding) : expanding.length ≤ c.types.length :=
  Nat.le_trans (Nat.le_add_left _ _) h.room

end Catalog.Stack

/-! ### Watched compiling -/

/-- A computation that may fail, or be given up. -/
abbrev Watched := ExceptT SchemaError Option

mutual

/-- Expand a reference to a struct type, unless `watch` is not content with the stack. -/
def watchStruct (watch : List String → Bool) (c : Catalog) (expanding : List String)
    (head : ColumnHead) (path : Path) (typeName : String) : Watched Column :=
  if _hn : typeName ∈ expanding then throw (.cycle path (cycleThrough expanding typeName))
  else match hd : c.describe typeName with
    | none => throw (.undefinedType path typeName)
    | some d =>
      if watch (expanding ++ [typeName]) then do
        let children ←
          watchFields watch c (expanding ++ [typeName]) (head.id + 1) path typeName [] d.fields
        return .struct head typeName children
      else ExceptT.mk none
termination_by (c.remaining expanding, 0)
decreasing_by exact Prod.Lex.left _ _ (Catalog.remaining_lt hd _hn)

/-- Expand the fields of a struct type under a watch. -/
def watchFields (watch : List String → Bool) (c : Catalog) (expanding : List String)
    (next : ColumnId) (path : Path) (typeName : String) (seen : List String)
    (fields : List FieldDescriptor) : Watched (List Column) :=
  match fields with
  | [] => return []
  | f :: rest => do
    if f.name ∈ seen then throw (.duplicateField typeName f.name)
    let column ← watchType watch c expanding ⟨next, f.name, some f.accessorName⟩
      (path.child f.name) f.type
    let columns ←
      watchFields watch c expanding (next + column.count) path typeName (f.name :: seen) rest
    return column :: columns
termination_by (c.remaining expanding, sizeOf fields)
decreasing_by
  · exact Prod.Lex.right _ (FieldDescriptor.sizeOf_type_lt f rest)
  · exact Prod.Lex.right _ (by rw [List.cons.sizeOf_spec]; omega)

/-- Expand a type reference under a watch. -/
def watchType (watch : List String → Bool) (c : Catalog) (expanding : List String)
    (head : ColumnHead) (path : Path) (type : TypeRef) : Watched Column := do
  match ← ExceptT.mk (some (type.tag path)) with
  | .scalar kind => return .primitive head kind
  | .decimal =>
    let precision := type.precision.getD defaultPrecision
    let scale := type.scale.getD defaultScale
    if validDecimal precision scale then return .primitive head (.decimal precision scale)
    else throw (.invalidDecimal path precision scale)
  | .struct =>
    match type.typeName with
    | none => throw (.missingTypeName path)
    | some typeName => watchStruct watch c expanding head path typeName
  | .list =>
    match he : type.element with
    | none => throw (.missingChildType path "list" "element")
    | some element =>
      if type.averageSize = some 0 then throw (.invalidAverageSize path)
      let element ← watchType watch c expanding ⟨head.id + 1, "element", none⟩
        (path.child "element") element
      return .list head (type.averageSize.getD 1) element
  | .map =>
    match hk : type.key, hv : type.value with
    | none, _ => throw (.missingChildType path "map" "key")
    | some _, none => throw (.missingChildType path "map" "value")
    | some key, some value =>
      let key ← watchType watch c expanding ⟨head.id + 1, "key", none⟩ (path.child "key") key
      let value ← watchType watch c expanding ⟨head.id + 1 + key.count, "value", none⟩
        (path.child "value") value
      return .map head key value
termination_by (c.remaining expanding, sizeOf type)
decreasing_by
  · exact Prod.Lex.right _ (TypeRef.sizeOf_pos type)
  · exact Prod.Lex.right _ (TypeRef.sizeOf_lt_of_element he)
  · exact Prod.Lex.right _ (TypeRef.sizeOf_lt_of_key hk)
  · exact Prod.Lex.right _ (TypeRef.sizeOf_lt_of_value hv)

end

/-- Compile a catalog under a watch. -/
def watchCompile (watch : List String → Bool) (c : Catalog) : Watched Column :=
  if (c.describe c.root).isNone then throw (.unknownRootType c.root)
  else watchStruct watch c [] ⟨0, c.root, none⟩ ⟨c.root, []⟩ c.root

/-! ### Nothing is given up -/

/-- A step that was not given up is followed by the next one. -/
theorem watched_bind {α β : Type} (x : Except SchemaError α) (f : α → Except SchemaError β)
    {g : α → Watched β} (hg : ∀ a, g a = ExceptT.mk (some (f a))) :
    (ExceptT.mk (some x) >>= g : Watched β) = ExceptT.mk (some (x >>= f)) := by
  cases x with
  | error e => rfl
  | ok a => exact hg a

section Watching

variable {watch : List String → Bool} {c : Catalog}

mutual

theorem watchStruct_eq (hwatch : ∀ stack, c.Stack stack → watch stack = true)
    {expanding : List String} {head : ColumnHead} {path : Path} {typeName : String}
    (h : c.Stack expanding) : watchStruct watch c expanding head path typeName =
      ExceptT.mk (some (expandStruct c expanding head path typeName)) := by
  rw [watchStruct, expandStruct]
  split
  · rfl
  · next hn =>
    generalize hd : c.describe typeName = description
    cases description with
    | none => rfl
    | some d =>
      have hpush := h.push hd hn
      simp only
      rw [if_pos (hwatch _ hpush), watchFields_eq hwatch hpush]
      exact watched_bind _ _ fun _ => rfl
termination_by (c.remaining expanding, 0)
decreasing_by exact Prod.Lex.left _ _ (Catalog.remaining_lt ‹_› ‹_›)

theorem watchFields_eq (hwatch : ∀ stack, c.Stack stack → watch stack = true)
    {expanding : List String} {next : ColumnId} {path : Path} {typeName : String}
    {seen : List String} {fields : List FieldDescriptor} (h : c.Stack expanding) :
    watchFields watch c expanding next path typeName seen fields =
      ExceptT.mk (some (expandFields c expanding next path typeName seen fields)) := by
  match fields with
  | [] =>
    rw [watchFields, expandFields]
    rfl
  | f :: rest =>
    rw [watchFields, expandFields]
    by_cases hf : f.name ∈ seen
    · simp only [if_pos hf]
      rfl
    · simp only [if_neg hf]
      rw [watchType_eq hwatch h]
      refine watched_bind _ _ fun column => ?_
      rw [watchFields_eq hwatch h]
      exact watched_bind _ _ fun _ => rfl
termination_by (c.remaining expanding, sizeOf fields)
decreasing_by
  · exact Prod.Lex.right _ (FieldDescriptor.sizeOf_type_lt f rest)
  · exact Prod.Lex.right _ (by rw [List.cons.sizeOf_spec]; omega)

theorem watchType_eq (hwatch : ∀ stack, c.Stack stack → watch stack = true)
    {expanding : List String} {head : ColumnHead} {path : Path} {type : TypeRef}
    (h : c.Stack expanding) : watchType watch c expanding head path type =
      ExceptT.mk (some (expandType c expanding head path type)) := by
  rw [watchType, expandType]
  refine watched_bind _ _ fun tag => ?_
  cases tag with
  | scalar kind => rfl
  | decimal =>
    simp only
    split <;> rfl
  | struct =>
    simp only
    cases type.typeName with
    | none => rfl
    | some typeName => exact watchStruct_eq hwatch h
  | list =>
    simp only
    generalize helement : type.element = element
    cases element with
    | none => rfl
    | some element =>
      by_cases hsize : type.averageSize = some 0
      · simp only [if_pos hsize]
        rfl
      · simp only [if_neg hsize]
        rw [watchType_eq hwatch h]
        exact watched_bind _ _ fun _ => rfl
  | map =>
    simp only
    generalize hkey : type.key = key
    generalize hvalue : type.value = value
    cases key with
    | none => rfl
    | some key =>
      cases value with
      | none => rfl
      | some value =>
        simp only
        rw [watchType_eq hwatch h]
        refine watched_bind _ _ fun keys => ?_
        rw [watchType_eq hwatch h]
        exact watched_bind _ _ fun _ => rfl
termination_by (c.remaining expanding, sizeOf type)
decreasing_by
  · exact Prod.Lex.right _ (TypeRef.sizeOf_pos type)
  · exact Prod.Lex.right _ (TypeRef.sizeOf_lt_of_element ‹_›)
  · exact Prod.Lex.right _ (TypeRef.sizeOf_lt_of_key ‹_›)
  · exact Prod.Lex.right _ (TypeRef.sizeOf_lt_of_value ‹_›)

end

/-- A watch that is content with stacks of different described types sees nothing else. -/
theorem watchCompile_eq (hwatch : ∀ stack, c.Stack stack → watch stack = true) :
    watchCompile watch c = ExceptT.mk (some (compile c)) := by
  unfold watchCompile compile
  split
  · rfl
  · exact watchStruct_eq hwatch (.empty c)

end Watching

end Columnar
