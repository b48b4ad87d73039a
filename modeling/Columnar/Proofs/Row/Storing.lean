import Columnar.Proofs.Batch.Layout
import Columnar.Proofs.Plan.Shape
import Columnar.Proofs.Row.Conformance

/-! # Storing rows

    What is stored for conforming values can be written to their columns:
    the columns admit it (`Plans.admits_stored`), and they stay within bounds if
    there is room for the elements that the values add
    (`Plans.bounded_append`). -/

namespace Columnar

/-! ### Parts of values -/

namespace Value

def items : Value → List Value
  | .list items => items
  | _ => []

def entries : Value → List (Value × Value)
  | .map entries => entries
  | _ => []

/-- What a struct value has for an accessor; a failed reading counts as an absent value. -/
def field (accessor : Accessor) : Value → Value
  | .struct record =>
    match record accessor with
    | .ok value => value
    | .error _ => .null
  | _ => .null

end Value

namespace Operation

/-- What is stored below a struct column for one of its values. -/
def storedBelow (fields : List (Accessor × Operation)) : Value → List Staged
  | .struct record => storedFields fields record
  | _ => []

/-- The elements that one of its values adds to the columns below a struct column. -/
def additionsBelow (fields : List (Accessor × Operation)) : Value → List ColumnId
  | .struct record => additionsOfFields fields record
  | _ => []

theorem headD_storedBelow (accessor : Accessor) (op : Operation)
    (rest : List (Accessor × Operation)) (value : Value) :
    (storedBelow ((accessor, op) :: rest) value).headD .null =
      op.stored (value.field accessor) := by
  cases value with
  | struct record =>
    rw [storedBelow, storedFields, Value.field]
    cases record accessor with
    | ok value => rfl
    | error cause => simp [stored]
  | _ => simp [storedBelow, Value.field, stored]

theorem tail_storedBelow (accessor : Accessor) (op : Operation)
    (rest : List (Accessor × Operation)) (value : Value) :
    (storedBelow ((accessor, op) :: rest) value).tail = storedBelow rest value := by
  cases value <;> simp [storedBelow, storedFields]

theorem fields_stored (target : Target) (fields : List (Accessor × Operation)) (value : Value) :
    (stored (.struct target fields) value).fields = storedBelow fields value := by
  cases value <;> simp [stored, storedBelow, Staged.fields]

theorem items_stored (target : Target) (element : Operation) (value : Value) :
    (stored (.list target element) value).items = value.items.map element.stored := by
  cases value <;> simp [stored, Value.items, Staged.items]

theorem entries_stored (target : Target) (key part : Operation) (value : Value) :
    (stored (.map target key part) value).entries =
      value.entries.map fun e => (key.stored e.1, part.stored e.2) := by
  cases value <;> simp [stored, Value.entries, Staged.entries]

theorem additions_null (op : Operation) : op.additions .null = [] := by
  cases op <;> simp [additions]

theorem additions_struct (target : Target) (fields : List (Accessor × Operation)) :
    additions (.struct target fields) = additionsBelow fields := by
  funext value
  cases value <;> simp [additions, additionsBelow]

theorem additions_list (target : Target) (element : Operation) :
    additions (.list target element) = fun value =>
      List.replicate value.items.length element.column
        ++ value.items.flatMap element.additions := by
  funext value
  cases value <;> simp [additions, Value.items]

theorem additions_map (target : Target) (key part : Operation) :
    additions (.map target key part) = fun value =>
      List.replicate value.entries.length key.column
        ++ value.entries.flatMap fun e => key.additions e.1 ++ part.additions e.2 := by
  funext value
  cases value <;> simp [additions, Value.entries]

theorem additionsBelow_cons (accessor : Accessor) (op : Operation)
    (rest : List (Accessor × Operation)) :
    additionsBelow ((accessor, op) :: rest) = fun value =>
      op.additions (value.field accessor) ++ additionsBelow rest value := by
  funext value
  cases value with
  | struct record =>
    rw [additionsBelow, additionsOfFields, Value.field]
    cases record accessor with
    | ok value => rfl
    | error cause => simp [additions_null, additionsBelow]
  | _ => simp [additionsBelow, Value.field, additions_null]

end Operation

/-! ### Conforming values are admitted -/

/-- Only absent values are stored as absent ones. -/
theorem Operation.present_stored {op : Operation} {value : Value} (h : op.Conforms value)
    (hnull : value.isNull = false) : (op.stored value).present := by
  cases op with
  | primitive target kind =>
    have hne : value ≠ .null := by
      rintro rfl
      cases hnull
    rw [Conforms.eq_2 _ _ _ hne] at h
    rw [stored.eq_2 _ _ _ hne]
    -- a leaf value that conforms is converted, and scalars are present
    rcases convert_cases target.path kind value with ⟨s, hs, -⟩ | ⟨e, -, hviol⟩
    · rw [hs]
      rfl
    · rw [PrimitiveKind.violations_eq_nil_iff.2 h] at hviol
      cases hviol
  | struct target fields =>
    cases value with
    | struct record => rfl
    | null => cases hnull
    | _ => exact h.elim
  | list target element =>
    cases value with
    | list items => rfl
    | null => cases hnull
    | _ => exact h.elim
  | map target key part =>
    cases value with
    | map entries => rfl
    | null => cases hnull
    | _ => exact h.elim

mutual

/-- What is stored for a conforming value is admitted by the column. -/
theorem Plans.admits_stored {path : Path} {c : Column} {op : Operation} (h : Plans path c op)
    {value : Value} (hv : op.Conforms value) : c.Admits (op.stored value) := by
  -- every column has room for absent values, whatever its operation
  by_cases hnull : value = .null
  · subst hnull
    rw [Operation.stored]
    exact Column.admits_null c
  match h with
  | @Plans.primitive _ head kind =>
    rw [Operation.Conforms.eq_2 _ _ _ hnull] at hv
    rw [Operation.stored.eq_2 _ _ _ hnull]
    rcases convert_cases path kind value with ⟨s, hs, haccepts, -⟩ | ⟨e, -, hviol⟩
    · rw [hs]
      exact haccepts
    · rw [PrimitiveKind.violations_eq_nil_iff.2 hv] at hviol
      cases hviol
  | .struct hfields =>
    cases value with
    | struct record => exact hfields.admits_storedFields hv
    | null => contradiction
    | _ => exact hv.elim
  | .list helement =>
    cases value with
    | list items =>
      intro item hitem
      obtain ⟨v, hmem, rfl⟩ := List.mem_map.1 hitem
      exact helement.admits_stored (hv v hmem)
    | null => contradiction
    | _ => exact hv.elim
  | @Plans.map _ _ _ _ key _ hkey hvalue =>
    cases value with
    | map entries =>
      intro entry hentry
      obtain ⟨e, hmem, rfl⟩ := List.mem_map.1 hentry
      obtain ⟨hnotnull, hk, hv⟩ := hv e hmem
      exact ⟨key.present_stored hk hnotnull, hkey.admits_stored hk, hvalue.admits_stored hv⟩
    | null => contradiction
    | _ => exact hv.elim

theorem PlansFields.admits_storedFields {path : Path} {columns : List Column}
    {fields : List (Accessor × Operation)} (h : PlansFields path columns fields) {record : Record}
    (hrecord : Operation.ConformsFields fields record) :
    Column.AdmitsAll columns (Operation.storedFields fields record) := by
  match h with
  | .nil => trivial
  | @PlansFields.cons _ c rest accessor op ops hop hops =>
    obtain ⟨⟨value, hvalue, hv⟩, hrest⟩ := hrecord
    rw [Operation.storedFields, hvalue]
    exact ⟨hop.admits_stored hv, hops.admits_storedFields hrest⟩

end

/-! ### Room for elements -/

theorem count_flatMap_append {α β : Type} [BEq β] (f g : α → List β) (items : List α) (x : β) :
    (items.flatMap fun a => f a ++ g a).count x =
      (items.flatMap f).count x + (items.flatMap g).count x := by
  induction items with
  | nil => rfl
  | cons a rest ih =>
    simp only [List.flatMap_cons, List.count_append, ih]
    omega

theorem count_flatMap_replicate {α β : Type} (parts : α → List β) (items : List α)
    (column : ColumnId) :
    (items.flatMap fun a => List.replicate (parts a).length column).count column =
      (items.flatMap parts).length := by
  induction items with
  | nil => rfl
  | cons a rest ih =>
    rw [List.flatMap_cons, List.count_append, ih, List.count_replicate_self, List.flatMap_cons,
      List.length_append]

/-- There is room for so many new elements of each column behind its slots. -/
def Room (slots added : ColumnId → Nat) : Prop :=
  ∀ column, 0 < added column → slots column + added column ≤ maxElements

theorem Room.le {slots added : ColumnId → Nat} (h : Room slots added) {column : ColumnId}
    {size more : Nat} (hsize : slots column = size) (hold : size ≤ maxElements)
    (hmore : more ≤ added column) : size + more ≤ maxElements := by
  -- nothing was checked for columns to which nothing is added
  by_cases hzero : 0 < added column
  · have hfits := h column hzero
    omega
  · omega

section Bounded

variable {slots added : ColumnId → Nat}

mutual

/-- Columns stay within bounds if there is room for what the new values add. -/
theorem Plans.bounded_append (room : Room slots added) {path : Path} {c : Column}
    {op : Operation} (h : Plans path c op) {old : List Staged}
    (hslots : ∀ e ∈ c.spread old, slots e.1.id = e.2.length) (hold : c.Bounded old)
    (new : List Value)
    (hnew : ∀ column, (new.flatMap op.additions).count column ≤ added column) :
    c.Bounded (old ++ new.map op.stored) := by
  match h with
  | .primitive => trivial
  | @Plans.struct _ head _ _ fields hfields =>
    -- the values below the struct are those of its fields, and none if it is absent
    have hrows : (new.map (Operation.stored (.struct ⟨head.id, path⟩ fields))).map Staged.fields =
        new.map (Operation.storedBelow fields) := by
      simp [Operation.fields_stored]
    simp only [Operation.additions_struct] at hnew
    rw [Column.Bounded, List.map_append, hrows]
    refine hfields.boundedAll_append room (fun e he => hslots e ?_) hold new hnew
    exact List.mem_cons_of_mem _ he
  | @Plans.list _ head _ c element helement =>
    have hitems : (new.map (Operation.stored (.list ⟨head.id, path⟩ element))).flatMap Staged.items
        = (new.flatMap Value.items).map element.stored := by
      simp [List.flatMap_map, List.map_flatMap, Operation.items_stored]
    simp only [Operation.additions_list, count_flatMap_append] at hnew
    -- all new elements are counted for the element column
    have hcount : (new.flatMap Value.items).length ≤ added c.id := by
      have hc := hnew element.column
      rw [count_flatMap_replicate, helement.column_eq] at hc
      exact Nat.le_of_add_right_le hc
    have hc : slots c.id = (old.flatMap Staged.items).length :=
      hslots (c, old.flatMap Staged.items) (List.mem_cons_of_mem _ (Column.mem_spread_self ..))
    rw [Column.Bounded, List.flatMap_append, hitems]
    refine ⟨?_, helement.bounded_append room (fun e he => hslots e ?_) hold.2 _ ?_⟩
    · rw [List.length_append, List.length_map]
      exact room.le hc hold.1 hcount
    · exact List.mem_cons_of_mem _ he
    · intro column
      rw [List.flatMap_assoc]
      exact Nat.le_of_add_left_le (hnew column)
  | @Plans.map _ head c d key value hkey hvalue =>
    have hentries : (new.map (Operation.stored (.map ⟨head.id, path⟩ key value))).flatMap
        Staged.entries =
          (new.flatMap Value.entries).map fun e => (key.stored e.1, value.stored e.2) := by
      simp [List.flatMap_map, List.map_flatMap, Operation.entries_stored]
    simp only [Operation.additions_map, count_flatMap_append] at hnew
    -- entries are counted for the key column only, as there are as many keys as values
    have hcount : (new.flatMap Value.entries).length ≤ added c.id := by
      have hc := hnew key.column
      rw [count_flatMap_replicate, hkey.column_eq] at hc
      exact Nat.le_of_add_right_le hc
    -- the elements below keys and those below values are counted together
    have hbelow : ∀ column,
        ((new.flatMap Value.entries).flatMap fun e => key.additions e.1).count column
          + ((new.flatMap Value.entries).flatMap fun e => value.additions e.2).count column
            ≤ added column := by
      intro column
      rw [← count_flatMap_append, List.flatMap_assoc]
      exact Nat.le_of_add_left_le (hnew column)
    have hc : slots c.id = ((old.flatMap Staged.entries).map (·.1)).length :=
      hslots (c, (old.flatMap Staged.entries).map (·.1))
        (List.mem_cons_of_mem _ (List.mem_append_left _ (Column.mem_spread_self ..)))
    rw [Column.Bounded, List.flatMap_append, hentries, List.map_append, List.map_append,
      List.map_map, List.map_map]
    refine ⟨?_, ?_, ?_⟩
    · rw [List.length_append, List.length_map]
      rw [List.length_map] at hc
      exact room.le hc hold.1 hcount
    · have hkeys := hkey.bounded_append room
        (fun e he => hslots e (List.mem_cons_of_mem _ (List.mem_append_left _ he))) hold.2.1
        ((new.flatMap Value.entries).map (·.1)) fun column => by
          rw [List.flatMap_map]
          exact Nat.le_of_add_right_le (hbelow column)
      rwa [List.map_map] at hkeys
    · have hvalues := hvalue.bounded_append room
        (fun e he => hslots e (List.mem_cons_of_mem _ (List.mem_append_right _ he))) hold.2.2
        ((new.flatMap Value.entries).map (·.2)) fun column => by
          rw [List.flatMap_map]
          exact Nat.le_of_add_left_le (hbelow column)
      rwa [List.map_map] at hvalues

theorem PlansFields.boundedAll_append (room : Room slots added) {path : Path}
    {columns : List Column} {fields : List (Accessor × Operation)}
    (h : PlansFields path columns fields) {old : List (List Staged)}
    (hslots : ∀ e ∈ Column.spreadAll columns old, slots e.1.id = e.2.length)
    (hold : Column.BoundedAll columns old) (new : List Value)
    (hnew : ∀ column, (new.flatMap (Operation.additionsBelow fields)).count column ≤ added column) :
    Column.BoundedAll columns (old ++ new.map (Operation.storedBelow fields)) := by
  match h with
  | .nil => trivial
  | @PlansFields.cons _ c rest accessor op ops hop hops =>
    -- the first field has the values of its accessor, the rest is a plan of its own
    have hfirst : (new.map (Operation.storedBelow ((accessor, op) :: ops))).map (·.headD .null) =
        (new.map (Value.field accessor)).map op.stored := by
      simp [-List.headD_eq_head?_getD, Operation.headD_storedBelow]
    have htails : (new.map (Operation.storedBelow ((accessor, op) :: ops))).map List.tail =
        new.map (Operation.storedBelow ops) := by
      simp [Operation.tail_storedBelow]
    simp only [Operation.additionsBelow_cons, count_flatMap_append] at hnew
    rw [Column.BoundedAll, List.map_append, List.map_append, hfirst, htails]
    refine ⟨hop.bounded_append room (fun e he => hslots e ?_) hold.1 _ fun column => ?_,
      hops.boundedAll_append room (fun e he => hslots e ?_) hold.2 new fun column => ?_⟩
    · exact List.mem_append_left _ he
    · rw [List.flatMap_map]
      exact Nat.le_of_add_right_le (hnew column)
    · exact List.mem_append_right _ he
    · exact Nat.le_of_add_left_le (hnew column)

end

end Bounded

end Columnar
