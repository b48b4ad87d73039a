import Mathlib.Data.List.Induction
import Columnar.Proofs.Plan.Agreement
import Columnar.Proofs.Plan.Names

/-! # Relabelling plans

    The path of a column is written into its operation and its hint, and into
    errors, but it decides nothing.  So what is synthesized for a column at one
    path is what is synthesized for it at another, only that the other path
    stands in the place of the first one: for operations (`operation_rebase`),
    for hints (`capacityHints_rebase`), and for storage types, which have no
    paths at all (`storageType_of_path`). -/

namespace Columnar

/-! ### Leading paths -/

namespace Path

/-- The path that goes on from `p` by these names. -/
def below (p : Path) (steps : List String) : Path :=
  { p with steps := p.steps ++ steps }

theorem below_nil (p : Path) : p.below [] = p := by
  unfold below
  rw [List.append_nil]

theorem child_below (p : Path) (steps : List String) (name : String) :
    (p.below steps).child name = p.below (steps ++ [name]) := by
  unfold child below
  rw [List.append_assoc]

theorem below_child (p : Path) (name : String) (steps : List String) :
    (p.child name).below steps = p.below (name :: steps) := by
  unfold child below
  rw [List.append_assoc]
  rfl

theorem names_below (p : Path) (steps : List String) : (p.below steps).names = p.names ++ steps :=
  rfl

/-- The path with a name in the place of the leading path `p`.  A path that does not begin with `p`
    is left as it is. -/
def rebase (p : Path) (name : String) (q : Path) : Path :=
  if p.names <+: q.names then ⟨name, q.names.drop p.names.length⟩ else q

theorem rebase_below (p : Path) (name : String) (steps : List String) :
    p.rebase name (p.below steps) = ⟨name, steps⟩ := by
  unfold rebase
  rw [names_below, if_pos (List.prefix_append p.names steps), List.drop_left]

/-- The names that go on from a path are written behind its text, whatever that is. -/
theorem exists_text_below (steps : List String) :
    ∃ rest, ∀ p : Path, (p.below steps).text = p.text ++ rest := by
  induction steps using List.reverseRecOn with
  | nil => exact ⟨"", fun p => by rw [below_nil, String.append_empty]⟩
  | append_singleton steps name ih =>
    obtain ⟨rest, hrest⟩ := ih
    refine ⟨rest ++ "." ++ name, fun p => ?_⟩
    rw [← child_below, text_child, hrest, String.append_assoc, String.append_assoc,
      String.append_assoc]

/-- What is written behind the leading path is written behind the name instead. -/
theorem exists_text_rebase (p : Path) (name : String) (steps : List String) :
    ∃ rest, (p.below steps).text = p.text ++ rest ∧
      (p.rebase name (p.below steps)).text = name ++ rest := by
  obtain ⟨rest, hrest⟩ := exists_text_below steps
  refine ⟨rest, hrest p, ?_⟩
  have hname : (⟨name, []⟩ : Path).below steps = ⟨name, steps⟩ := rfl
  rw [rebase_below, ← hname, hrest, text_root]

end Path

/-! ### Storage types -/

mutual

/-- The type of a column does not depend on its path, which only errors tell. -/
theorem storageType_of_path {path path' : Path} {c : Column} {type : StorageType}
    (h : storageType path c = .ok type) : storageType path' c = .ok type := by
  match c with
  | .primitive head kind => exact h
  | .struct head typeName children =>
    unfold storageType at h ⊢
    split at h
    · cases h
    · next hempty =>
      obtain ⟨fields, hfields, h⟩ := exists_of_bind_eq_ok h
      rw [if_neg hempty, storageFields_of_path hfields]
      exact h
  | .list head averageSize element =>
    obtain ⟨type, htype, h⟩ := exists_of_bind_eq_ok h
    show (storageType _ element >>= _) = _
    rw [storageType_of_path htype]
    exact h
  | .map head key value =>
    cases key with
    | primitive khead kind =>
      obtain ⟨type, htype, h⟩ := exists_of_bind_eq_ok h
      show (storageType _ value >>= _) = _
      rw [storageType_of_path htype]
      exact h
    | _ => cases h

theorem storageFields_of_path {path path' : Path} {columns : List Column}
    {fields : List StorageField} (h : storageFields path columns = .ok fields) :
    storageFields path' columns = .ok fields := by
  match columns with
  | [] => exact h
  | c :: rest =>
    obtain ⟨type, htype, h⟩ := exists_of_bind_eq_ok h
    obtain ⟨fields, hfields, h⟩ := exists_of_bind_eq_ok h
    show (storageType _ c >>= _) = _
    rw [storageType_of_path htype]
    show (storageFields _ rest >>= _) = _
    rw [storageFields_of_path hfields]
    exact h

end

/-! ### Operations -/

mutual

/-- The operation with other paths and accessors, here and below. -/
def Operation.relabel (onPath : Path → Path) (onAccessor : Accessor → Accessor) :
    Operation → Operation
  | .primitive target kind => .primitive ⟨target.column, onPath target.path⟩ kind
  | .struct target fields =>
    .struct ⟨target.column, onPath target.path⟩ (Operation.relabelFields onPath onAccessor fields)
  | .list target element =>
    .list ⟨target.column, onPath target.path⟩ (Operation.relabel onPath onAccessor element)
  | .map target key value =>
    .map ⟨target.column, onPath target.path⟩ (Operation.relabel onPath onAccessor key)
      (Operation.relabel onPath onAccessor value)

def Operation.relabelFields (onPath : Path → Path) (onAccessor : Accessor → Accessor) :
    List (Accessor × Operation) → List (Accessor × Operation)
  | [] => []
  | (accessor, op) :: rest =>
    (onAccessor accessor, Operation.relabel onPath onAccessor op) ::
      Operation.relabelFields onPath onAccessor rest

end

/-! The lookups depend on the path only if they fail. -/

theorem describeOwner_of_path {owner : Owner} {path : Path} {typeName : String}
    {d : TypeDescription} (h : describeOwner owner path typeName = .ok d) (path' : Path) :
    describeOwner owner path' typeName = .ok d := by
  unfold describeOwner
  rw [describeOwner_eq_ok h]

theorem resolveColumn_of_path {d : TypeDescription} {path : Path} {c : Column} {accessor : Accessor}
    (h : resolveColumn d path c = .ok accessor) (path' : Path) :
    resolveColumn d path' c = .ok accessor := by
  unfold resolveColumn at h ⊢
  simp only at h ⊢
  split at h
  · exact h
  · cases h

section Rebasing

variable {owner : Owner} {p : Path}

mutual

/-- The operation for a column whose path begins with `p` is the one for the column at the path that
    begins with the name instead, only that the paths are those. -/
theorem operation_rebase {steps : List String} {c : Column} {op : Operation}
    (h : operation owner (p.below steps) c = .ok op) (name : String) :
    operation owner ⟨name, steps⟩ c = .ok (op.relabel (p.rebase name) id) := by
  match c with
  | .primitive head kind =>
    cases h
    rw [Operation.relabel, Path.rebase_below]
    rfl
  | .struct head typeName children =>
    obtain ⟨d, hd, h⟩ := exists_of_bind_eq_ok h
    obtain ⟨fields, hfields, h⟩ := exists_of_bind_eq_ok h
    cases h
    rw [Operation.relabel, Path.rebase_below, operation, describeOwner_of_path hd]
    show (fieldOperations owner d ⟨name, steps⟩ children >>= _) = _
    rw [fieldOperations_rebase hfields name]
    rfl
  | .list head averageSize element =>
    obtain ⟨below, hbelow, h⟩ := exists_of_bind_eq_ok h
    cases h
    rw [Path.child_below] at hbelow
    rw [Operation.relabel, Path.rebase_below]
    show (operation owner ⟨name, steps ++ [element.name]⟩ element >>= _) = _
    rw [operation_rebase hbelow name]
    rfl
  | .map head key value =>
    obtain ⟨keys, hkeys, h⟩ := exists_of_bind_eq_ok h
    obtain ⟨values, hvalues, h⟩ := exists_of_bind_eq_ok h
    cases h
    rw [Path.child_below] at hkeys hvalues
    rw [Operation.relabel, Path.rebase_below]
    show (operation owner ⟨name, steps ++ [key.name]⟩ key >>= _) = _
    rw [operation_rebase hkeys name]
    show (operation owner ⟨name, steps ++ [value.name]⟩ value >>= _) = _
    rw [operation_rebase hvalues name]
    rfl

theorem fieldOperations_rebase {d : TypeDescription} {steps : List String} {columns : List Column}
    {fields : List (Accessor × Operation)}
    (h : fieldOperations owner d (p.below steps) columns = .ok fields) (name : String) :
    fieldOperations owner d ⟨name, steps⟩ columns =
      .ok (Operation.relabelFields (p.rebase name) id fields) := by
  match columns with
  | [] =>
    cases h
    rfl
  | c :: rest =>
    obtain ⟨accessor, haccessor, h⟩ := exists_of_bind_eq_ok h
    obtain ⟨op, hop, h⟩ := exists_of_bind_eq_ok h
    obtain ⟨ops, hops, h⟩ := exists_of_bind_eq_ok h
    cases h
    rw [Path.child_below] at hop
    rw [Operation.relabelFields, fieldOperations, resolveColumn_of_path haccessor]
    show (operation owner ⟨name, steps ++ [c.name]⟩ c >>= _) = _
    rw [operation_rebase hop name]
    show (fieldOperations owner d ⟨name, steps⟩ rest >>= _) = _
    rw [fieldOperations_rebase hops name]
    rfl

end

/-! ### Hints -/

/-- The hint for the list at the path that begins with the name instead of `p`. -/
def CapacityHint.rebase (p : Path) (name : String) (h : CapacityHint) : CapacityHint :=
  { h with path := p.rebase name h.path }

mutual

theorem capacityHints_rebase (p : Path) (name : String) (steps : List String) (c : Column) :
    (capacityHints (p.below steps) c).map (CapacityHint.rebase p name) =
      capacityHints ⟨name, steps⟩ c := by
  match c with
  | .primitive head kind => rfl
  | .struct head typeName children => exact capacityHintsOfFields_rebase p name steps children
  | .list head averageSize element =>
    rw [capacityHints, List.map_cons, Path.child_below, capacityHints_rebase p name _ element,
      CapacityHint.rebase, Path.rebase_below]
    rfl
  | .map head key value =>
    rw [capacityHints, List.map_append, Path.child_below, Path.child_below,
      capacityHints_rebase p name _ key, capacityHints_rebase p name _ value]
    rfl

theorem capacityHintsOfFields_rebase (p : Path) (name : String) (steps : List String)
    (columns : List Column) :
    (capacityHintsOfFields (p.below steps) columns).map (CapacityHint.rebase p name) =
      capacityHintsOfFields ⟨name, steps⟩ columns := by
  match columns with
  | [] => rfl
  | c :: rest =>
    rw [capacityHintsOfFields, List.map_append, Path.child_below, capacityHints_rebase p name _ c,
      capacityHintsOfFields_rebase p name steps rest]
    rfl

end

end Rebasing

/-! ### Paths of nodes -/

mutual

/-- The paths of a tree begin with that of its root. -/
theorem Column.exists_path_nodes {role : Role} {path : Path} {c : Column} {n : Node}
    (h : n ∈ c.nodes role path) : ∃ steps, n.path = path.below steps := by
  match c with
  | .primitive head kind =>
    rw [List.mem_singleton.1 h]
    exact ⟨[], path.below_nil.symm⟩
  | .struct head typeName children =>
    rcases List.mem_cons.1 h with rfl | h
    · exact ⟨[], path.below_nil.symm⟩
    · exact exists_path_nodesOfFields h
  | .list head averageSize element =>
    rcases List.mem_cons.1 h with rfl | h
    · exact ⟨[], path.below_nil.symm⟩
    · obtain ⟨steps, hsteps⟩ := exists_path_nodes h
      exact ⟨element.name :: steps, hsteps.trans (path.below_child element.name steps)⟩
  | .map head key value =>
    rcases List.mem_cons.1 h with rfl | h
    · exact ⟨[], path.below_nil.symm⟩
    · rcases List.mem_append.1 h with h | h
      · obtain ⟨steps, hsteps⟩ := exists_path_nodes h
        exact ⟨key.name :: steps, hsteps.trans (path.below_child key.name steps)⟩
      · obtain ⟨steps, hsteps⟩ := exists_path_nodes h
        exact ⟨value.name :: steps, hsteps.trans (path.below_child value.name steps)⟩

theorem Column.exists_path_nodesOfFields {typeName : String} {path : Path}
    {columns : List Column} {n : Node} (h : n ∈ Column.nodesOfFields typeName path columns) :
    ∃ steps, n.path = path.below steps := by
  match columns with
  | [] => cases h
  | c :: rest =>
    rcases List.mem_append.1 h with h | h
    · obtain ⟨steps, hsteps⟩ := exists_path_nodes h
      exact ⟨c.name :: steps, hsteps.trans (path.below_child c.name steps)⟩
    · exact exists_path_nodesOfFields h

end

end Columnar
