import Columnar.Proofs.Plan.Relabelling
import Columnar.Proofs.Plan.Writable

/-! # What owners decide

    An owner is asked for the description of each struct type in the tree, and
    of what it answers only the position of an accessor goes into a plan.  If
    the positions are forgotten, a plan can be read off the tree alone
    (`relabel_unplaced`), so two owners whose plans are different differ in the
    positions.

    Trees that cannot be stored are refused before any owner is asked, with the
    error of the storage type (`synthesize_error_iff_storageType`). -/

namespace Columnar

/-! ### Plans without positions -/

/-- The accessor without its position. -/
def Accessor.unplaced (a : Accessor) : Accessor := { a with index := 0 }

theorem unplaced_of_resolveColumn {d : TypeDescription} {path : Path} {c : Column}
    {accessor : Accessor} (h : resolveColumn d path c = .ok accessor) :
    accessor.unplaced = ⟨0, c.accessorName⟩ := by
  obtain ⟨index, name⟩ := accessor
  obtain ⟨rfl, -⟩ := resolveColumn_eq_ok h
  rfl

mutual

/-- The operation for a column, but without the positions of accessors. -/
def Column.outline (path : Path) : Column → Operation
  | .primitive head kind => .primitive ⟨head.id, path⟩ kind
  | .struct head _ children => .struct ⟨head.id, path⟩ (Column.outlineFields path children)
  | .list head _ element => .list ⟨head.id, path⟩ (Column.outline (path.child element.name) element)
  | .map head key value =>
    .map ⟨head.id, path⟩ (Column.outline (path.child key.name) key)
      (Column.outline (path.child value.name) value)

def Column.outlineFields (path : Path) : List Column → List (Accessor × Operation)
  | [] => []
  | c :: rest =>
    (⟨0, c.accessorName⟩, Column.outline (path.child c.name) c) :: Column.outlineFields path rest

end

mutual

/-- Nothing but the positions in an operation is from the owner. -/
theorem relabel_unplaced {owner : Owner} {path : Path} {c : Column} {op : Operation}
    (h : operation owner path c = .ok op) :
    op.relabel id Accessor.unplaced = c.outline path := by
  match c with
  | .primitive head kind =>
    cases h
    rfl
  | .struct head typeName children =>
    obtain ⟨d, -, h⟩ := exists_of_bind_eq_ok h
    obtain ⟨fields, hfields, h⟩ := exists_of_bind_eq_ok h
    cases h
    rw [Operation.relabel, Column.outline, relabelFields_unplaced hfields]
    rfl
  | .list head averageSize element =>
    obtain ⟨below, hbelow, h⟩ := exists_of_bind_eq_ok h
    cases h
    rw [Operation.relabel, Column.outline, relabel_unplaced hbelow]
    rfl
  | .map head key value =>
    obtain ⟨keys, hkeys, h⟩ := exists_of_bind_eq_ok h
    obtain ⟨values, hvalues, h⟩ := exists_of_bind_eq_ok h
    cases h
    rw [Operation.relabel, Column.outline, relabel_unplaced hkeys, relabel_unplaced hvalues]
    rfl

theorem relabelFields_unplaced {owner : Owner} {d : TypeDescription} {path : Path}
    {columns : List Column} {fields : List (Accessor × Operation)}
    (h : fieldOperations owner d path columns = .ok fields) :
    Operation.relabelFields id Accessor.unplaced fields = Column.outlineFields path columns := by
  match columns with
  | [] =>
    cases h
    rfl
  | c :: rest =>
    obtain ⟨accessor, haccessor, h⟩ := exists_of_bind_eq_ok h
    obtain ⟨op, hop, h⟩ := exists_of_bind_eq_ok h
    obtain ⟨ops, hops, h⟩ := exists_of_bind_eq_ok h
    cases h
    rw [Operation.relabelFields, Column.outlineFields, unplaced_of_resolveColumn haccessor,
      relabel_unplaced hop, relabelFields_unplaced hops]

end

/-! ### Errors of the storage type -/

/-- The errors about trees that cannot be stored. -/
def PlanError.OfStorage : PlanError → Prop
  | .emptyStruct _ _ | .unsupportedMapKey _ _ => True
  | _ => False

theorem Node.ofStorage_of_storageDefect? {n : Node} {e : PlanError}
    (h : n.storageDefect? = some e) : e.OfStorage := by
  rcases Node.cases_of_storageDefect? h with ⟨path, typeName, rfl⟩ | ⟨path, kind, rfl⟩
  · trivial
  · trivial

theorem Node.not_ofStorage_of_mem_ownerDefects {owner : Owner} {n : Node} {e : PlanError}
    (h : e ∈ n.ownerDefects owner) : ¬e.OfStorage := by
  rcases List.mem_append.1 h with h | h
  · obtain ⟨path, typeName, accessor, rfl⟩ := Node.eq_of_accessorDefect? (Option.mem_toList.1 h)
    exact id
  · have hdefect := Option.mem_toList.1 h
    unfold Node.typeDefect? at hdefect
    split at hdefect
    · split at hdefect
      · cases hdefect
        exact id
      · cases hdefect
    · cases hdefect

/-- Whoever the owner is, the trees that cannot be stored are those that have no storage type, and
    the error is the one of the type. -/
theorem synthesize_error_iff_storageType {head : ColumnHead} {typeName : String}
    {children : List Column} (owner : Owner) (writerId : WriterId) (e : PlanError) :
    synthesize (.struct head typeName children) owner writerId = .error e ∧ e.OfStorage ↔
      storageType ⟨head.name, []⟩ (.struct head typeName children) = .error e := by
  rw [(synthesize_reports head typeName children owner writerId).error_iff,
    (storageType_reports .part ⟨head.name, []⟩ (.struct head typeName children)).error_iff]
  obtain ⟨nodes, hnodes⟩ : ∃ nodes, nodes =
      (Column.struct head typeName children).nodes .part ⟨head.name, []⟩ := ⟨_, rfl⟩
  have hdefects : (Column.struct head typeName children).defects owner =
      nodes.filterMap Node.storageDefect? ++ nodes.flatMap (Node.ownerDefects owner) := by
    rw [hnodes]
    rfl
  rw [hdefects, ← hnodes, List.head?_append]
  cases hfirst : nodes.filterMap Node.storageDefect? with
  | nil =>
    -- then it is the owner who is to blame
    refine ⟨fun ⟨howner, he⟩ => ?_, nofun⟩
    obtain ⟨n, -, hdefect⟩ := List.mem_flatMap.1 (List.mem_of_head? howner)
    exact absurd he (Node.not_ofStorage_of_mem_ownerDefects hdefect)
  | cons first rest =>
    refine ⟨fun h => h.1, fun h => ⟨h, ?_⟩⟩
    obtain ⟨n, -, hdefect⟩ := List.mem_filterMap.1 (hfirst ▸ List.mem_of_head? h)
    exact Node.ofStorage_of_storageDefect? hdefect

/-! ### Two owners -/

/-- The specifications say the same, except for the positions of accessors. -/
structure Specification.SameButPositions (s t : Specification) : Prop where
  name : s.name = t.name
  fields : s.fields = t.fields
  hints : s.hints = t.hints
  columnCount : s.columnCount = t.columnCount
  plan : Operation.relabelFields id Accessor.unplaced s.plan =
    Operation.relabelFields id Accessor.unplaced t.plan

/-- Two owners for whom a specification can be synthesized differ at most in the positions, and
    for a tree that cannot be stored no owner has a specification, nor another error. -/
theorem owner_decides_positions (root : Column) (owner owner' : Owner) (writerId : WriterId) :
    (∀ s s', synthesize root owner writerId = .ok s → synthesize root owner' writerId = .ok s' →
      s.SameButPositions s') ∧
    ∀ e, synthesize root owner writerId = .error e →
      ((∃ path typeName, e = .emptyStruct path typeName) ∨
        ∃ path kind, e = .unsupportedMapKey path kind) →
      synthesize root owner' writerId = .error e := by
  refine ⟨fun s s' hs hs' => ?_, fun e he hsort => ?_⟩
  · obtain ⟨head, typeName, children, fields, d, plan, rfl, -, hfields, -, hplan, rfl⟩ :=
      exists_of_synthesize_eq_ok hs
    obtain ⟨_, _, _, fields', d', plan', heq, -, hfields', -, hplan', rfl⟩ :=
      exists_of_synthesize_eq_ok hs'
    cases heq
    have hplans : Operation.relabelFields id Accessor.unplaced plan =
        Operation.relabelFields id Accessor.unplaced plan' :=
      (relabelFields_unplaced hplan).trans (relabelFields_unplaced hplan').symm
    exact ⟨rfl, Except.ok.inj (hfields.symm.trans hfields'), rfl, rfl, hplans⟩
  · have hstorage : e.OfStorage := by
      rcases hsort with ⟨path, typeName, rfl⟩ | ⟨path, kind, rfl⟩
      · trivial
      · trivial
    cases root with
    | struct head typeName children =>
      have htype := (synthesize_error_iff_storageType owner writerId e).1 ⟨he, hstorage⟩
      exact ((synthesize_error_iff_storageType owner' writerId e).2 htype).1
    -- no owner is asked about a root that is no struct
    | primitive => exact he
    | list => exact he
    | map => exact he

/-- An owner who has the same accessors for orders as the catalog, in another order. -/
def movers : Owner := fun typeName =>
  if typeName = "Order" then some { name := "Order", accessors := some ["tags", "buyer", "id"] }
  else orders.describe typeName

/-- Orders whose buyers are kept by a key that is a list. -/
def keyedOrders : Column :=
  .struct ⟨0, "Order", none⟩ "Order" [
    .map ⟨1, "buyers", "buyers"⟩
      (.list ⟨2, "key", none⟩ 1 (.primitive ⟨3, "element", none⟩ .string))
      (.primitive ⟨4, "value", none⟩ .string)]

/-- Two owners of orders, who place the accessors differently; and orders that nobody can store, not
    even someone who knows no types. -/
theorem orders_owner_decides_positions :
    (∃ s, synthesize ordersSpecification.root movers 0 = .ok s ∧
      s.plan.map (·.1.index) = [2, 1, 0] ∧
      ordersSpecification.plan.map (·.1.index) = [0, 1, 2] ∧
      ordersSpecification.SameButPositions s) ∧
    synthesize keyedOrders movers 0 =
      .error (.unsupportedMapKey ⟨"Order", ["buyers"]⟩ "list") ∧
    synthesize keyedOrders (fun _ => none) 0 =
      .error (.unsupportedMapKey ⟨"Order", ["buyers"]⟩ "list") := by
  have hkeyed : synthesize keyedOrders movers 0 =
      .error (.unsupportedMapKey ⟨"Order", ["buyers"]⟩ "list") := rfl
  obtain ⟨s, hs, hplaces⟩ : ∃ s, synthesize ordersSpecification.root movers 0 = .ok s ∧
      s.plan.map (·.1.index) = [2, 1, 0] := ⟨_, rfl, rfl⟩
  refine ⟨⟨s, hs, hplaces, rfl, ?_⟩, hkeyed, ?_⟩
  · exact (owner_decides_positions _ orders.describe movers 0).1 _ s synthesize_orders hs
  · exact (owner_decides_positions keyedOrders movers _ 0).2 _ hkeyed (.inr ⟨_, _, rfl⟩)

end Columnar
