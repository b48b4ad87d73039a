import Columnar.Plan.Listing
import Columnar.Plan.Synthesis
import Columnar.Proofs.Schema.Expansion
import Columnar.Proofs.Schema.Regular

/-! # Plans and their trees

    The append plan has the shape of the column tree: an operation for each
    column below the root, with the column's number and its dotted path.  Which
    accessors the operations read does not matter here.

    A specification that was built from a catalog is *well formed*: a regular
    tree, a plan of its shape and storage fields for all of its columns.  The
    theorems about handles take this as their only premise on specifications. -/

namespace Columnar

/-! ### The shape -/

mutual

/-- The operation fills the column, which has the given path, and the columns below it. -/
inductive Plans : Path → Column → Operation → Prop where
  | primitive {path : Path} {head : ColumnHead} {kind : PrimitiveKind} :
      Plans path (.primitive head kind) (.primitive ⟨head.id, path⟩ kind)
  | struct {path : Path} {head : ColumnHead} {typeName : String} {children : List Column}
      {fields : List (Accessor × Operation)} (hfields : PlansFields path children fields) :
      Plans path (.struct head typeName children) (.struct ⟨head.id, path⟩ fields)
  | list {path : Path} {head : ColumnHead} {averageSize : UInt32} {c : Column} {element : Operation}
      (helement : Plans (path.child c.name) c element) :
      Plans path (.list head averageSize c) (.list ⟨head.id, path⟩ element)
  | map {path : Path} {head : ColumnHead} {c d : Column} {key value : Operation}
      (hkey : Plans (path.child c.name) c key) (hvalue : Plans (path.child d.name) d value) :
      Plans path (.map head c d) (.map ⟨head.id, path⟩ key value)

/-- The operations fill the columns, which are children of the column with the given path. -/
inductive PlansFields : Path → List Column → List (Accessor × Operation) → Prop where
  | nil {path : Path} : PlansFields path [] []
  | cons {path : Path} {c : Column} {rest : List Column} {accessor : Accessor} {op : Operation}
      {ops : List (Accessor × Operation)} (hop : Plans (path.child c.name) c op)
      (hops : PlansFields path rest ops) : PlansFields path (c :: rest) ((accessor, op) :: ops)

end

@[simp] theorem Plans.column_eq {path : Path} {c : Column} {op : Operation}
    (h : Plans path c op) : op.column = c.id := by
  cases h <;> rfl

/-! ### Numbers and paths -/

mutual

/-- The columns of a tree with their dotted paths, in pre-order. -/
def Column.targets (path : Path) : Column → List Target
  | .primitive head _ => [⟨head.id, path⟩]
  | .struct head _ children => ⟨head.id, path⟩ :: Column.targetsOfFields path children
  | .list head _ element => ⟨head.id, path⟩ :: Column.targets (path.child element.name) element
  | .map head key value =>
    ⟨head.id, path⟩ ::
      (Column.targets (path.child key.name) key ++ Column.targets (path.child value.name) value)

def Column.targetsOfFields (path : Path) : List Column → List Target
  | [] => []
  | c :: rest => Column.targets (path.child c.name) c ++ Column.targetsOfFields path rest

end

mutual

/-- The operations of a plan have the numbers and paths of the tree, in the same order. -/
theorem Plans.targets_entries {path : Path} {c : Column} {op : Operation} (h : Plans path c op)
    (depth : Nat) (source : Source) :
    (op.entries depth source).map PlanEntry.target = c.targets path := by
  match h with
  | .primitive => rfl
  | .struct hfields =>
    rw [Operation.entries, List.map_cons, hfields.targets_entries]
    rfl
  | .list helement =>
    rw [Operation.entries, List.map_cons, helement.targets_entries]
    rfl
  | .map hkey hvalue =>
    rw [Operation.entries, List.map_cons, List.map_append, hkey.targets_entries,
      hvalue.targets_entries]
    rfl

theorem PlansFields.targets_entries {path : Path} {columns : List Column}
    {fields : List (Accessor × Operation)} (h : PlansFields path columns fields) (depth : Nat) :
    (Operation.fieldEntries depth fields).map PlanEntry.target =
      Column.targetsOfFields path columns := by
  match h with
  | .nil => rfl
  | .cons hop hops =>
    rw [Operation.fieldEntries, List.map_append, hop.targets_entries, hops.targets_entries]
    rfl

end

/-! ### Synthesized plans -/

mutual

theorem plans_of_operation {owner : Owner} {path : Path} {c : Column} {op : Operation}
    (h : operation owner path c = .ok op) : Plans path c op := by
  -- an operation is put together from those of the columns below
  match c with
  | .primitive head kind =>
    cases h
    exact .primitive
  | .struct head typeName children =>
    obtain ⟨d, -, h⟩ := exists_of_bind_eq_ok h
    obtain ⟨fields, hfields, h⟩ := exists_of_bind_eq_ok h
    cases h
    exact .struct (plansFields_of_fieldOperations hfields)
  | .list head averageSize element =>
    obtain ⟨op, hop, h⟩ := exists_of_bind_eq_ok h
    cases h
    exact .list (plans_of_operation hop)
  | .map head key value =>
    obtain ⟨k, hk, h⟩ := exists_of_bind_eq_ok h
    obtain ⟨v, hv, h⟩ := exists_of_bind_eq_ok h
    cases h
    exact .map (plans_of_operation hk) (plans_of_operation hv)

theorem plansFields_of_fieldOperations {owner : Owner} {d : TypeDescription} {path : Path}
    {columns : List Column} {fields : List (Accessor × Operation)}
    (h : fieldOperations owner d path columns = .ok fields) : PlansFields path columns fields := by
  match columns with
  | [] =>
    cases h
    exact .nil
  | c :: rest =>
    obtain ⟨accessor, -, h⟩ := exists_of_bind_eq_ok h
    obtain ⟨op, hop, h⟩ := exists_of_bind_eq_ok h
    obtain ⟨ops, hops, h⟩ := exists_of_bind_eq_ok h
    cases h
    exact .cons (plans_of_operation hop) (plansFields_of_fieldOperations hops)

end

/-! ### Well-formed specifications -/

/-- What building a specification from a catalog ensures. -/
structure Specification.WellFormed (s : Specification) : Prop where
  isStruct : ∃ head typeName, s.root = .struct head typeName s.root.children
  root_id : s.root.id = 0
  regular : Column.RegularFrom 1 s.root.children
  nonempty : s.root.children ≠ []
  plans : PlansFields ⟨s.root.name, []⟩ s.root.children s.plan
  stores : storageFields ⟨s.root.name, []⟩ s.root.children = .ok s.fields

theorem describeOwner_eq_ok {owner : Owner} {path : Path} {typeName : String}
    {d : TypeDescription} (h : describeOwner owner path typeName = .ok d) :
    owner typeName = some d := by
  unfold describeOwner at h
  split at h
  · next hd =>
    cases h
    exact hd
  · cases h

/-- A specification is put together from what the three recursions give for a struct column. -/
theorem exists_of_synthesize_eq_ok {root : Column} {owner : Owner} {writerId : WriterId}
    {s : Specification} (h : synthesize root owner writerId = .ok s) :
    ∃ head typeName children fields d plan,
      root = .struct head typeName children ∧ children ≠ [] ∧
      storageFields ⟨head.name, []⟩ children = .ok fields ∧
      owner typeName = some d ∧ fieldOperations owner d ⟨head.name, []⟩ children = .ok plan ∧
      s = ⟨writerId, typeName, root, fields, capacityHints ⟨head.name, []⟩ root, plan⟩ := by
  unfold synthesize at h
  cases root with
  | struct head typeName children =>
    simp only at h
    split at h
    · cases h
    · next hempty =>
      obtain ⟨fields, hfields, h⟩ := exists_of_bind_eq_ok h
      obtain ⟨d, hd, h⟩ := exists_of_bind_eq_ok h
      obtain ⟨plan, hplan, h⟩ := exists_of_bind_eq_ok h
      cases h
      exact ⟨head, typeName, children, fields, d, plan, rfl, by simpa using hempty, hfields,
        describeOwner_eq_ok hd, hplan, rfl⟩
  -- only a struct has fields to be planned
  | primitive => cases h
  | list => cases h
  | map => cases h

/-- Synthesizing succeeds for struct columns only, and keeps them as the root. -/
theorem synthesize_eq_ok {root : Column} {owner : Owner} {writerId : WriterId} {s : Specification}
    (h : synthesize root owner writerId = .ok s) :
    s.root = root ∧ (∃ head typeName, root = .struct head typeName root.children) ∧
      root.children ≠ [] ∧ storageFields ⟨root.name, []⟩ root.children = .ok s.fields ∧
      PlansFields ⟨root.name, []⟩ root.children s.plan := by
  obtain ⟨head, typeName, children, fields, d, plan, rfl, hne, hfields, -, hplan, rfl⟩ :=
    exists_of_synthesize_eq_ok h
  exact ⟨rfl, ⟨head, typeName, rfl⟩, hne, hfields, plansFields_of_fieldOperations hplan⟩

theorem hints_of_synthesize {root : Column} {owner : Owner} {writerId : WriterId}
    {s : Specification} (h : synthesize root owner writerId = .ok s) :
    s.hints = capacityHints ⟨root.name, []⟩ root := by
  obtain ⟨_, _, _, _, _, _, rfl, -, -, -, -, rfl⟩ := exists_of_synthesize_eq_ok h
  rfl

theorem Specification.build_wellFormed {c : Catalog} {writerId : WriterId} {s : Specification}
    (h : Specification.build c writerId = .ok s) : s.WellFormed := by
  unfold Specification.build at h
  split at h
  · cases h
  · next root hroot =>
    split at h
    · cases h
    · next hs =>
      cases h
      -- the tree is that of compiling, the plan that of synthesizing
      obtain ⟨children, rfl, hreg⟩ := compile_regular hroot
      obtain ⟨hrt, hstruct, hne, hstores, hplans⟩ := synthesize_eq_ok hs
      rw [← hrt] at hstruct hne hstores hplans hreg
      refine ⟨hstruct, by rw [hrt]; rfl, ?_, hne, hplans, hstores⟩
      rw [hrt] at hreg ⊢
      exact hreg

/-- A specification bears the number that it was built with. -/
theorem Specification.writerId_of_build {c : Catalog} {writerId : WriterId} {s : Specification}
    (h : Specification.build c writerId = .ok s) : s.writerId = writerId := by
  unfold Specification.build at h
  split at h
  · cases h
  · split at h
    · cases h
    · next hs =>
      cases h
      obtain ⟨_, _, _, _, _, _, -, -, -, -, -, rfl⟩ := exists_of_synthesize_eq_ok hs
      rfl

/-! ### An example -/

/-- Orders with a number, a buyer that has a name, and tags. -/
def orders : Catalog :=
  .ofList "Order" [
    { name := "Order", fields := [
      { name := "id", type := .primitive "long" },
      { name := "buyer", type := .structOf "Buyer" },
      { name := "tags", type := .list (.primitive "string") }] },
    { name := "Buyer", fields := [{ name := "name", type := .primitive "string" }] }]

/-- What is built for orders. -/
def ordersSpecification : Specification where
  writerId := 0
  rootType := "Order"
  root := .struct ⟨0, "Order", none⟩ "Order" [
    .primitive ⟨1, "id", "id"⟩ .long,
    .struct ⟨2, "buyer", "buyer"⟩ "Buyer" [.primitive ⟨3, "name", "name"⟩ .string],
    .list ⟨4, "tags", "tags"⟩ 1 (.primitive ⟨5, "element", none⟩ .string)]
  fields := [
    ⟨"id", .leaf .int64, true⟩,
    ⟨"buyer", .struct [⟨"name", .leaf .utf8, true⟩], true⟩,
    ⟨"tags", .listOf (.leaf .utf8), true⟩]
  hints := [⟨4, 5, 1, ⟨"Order", ["tags"]⟩⟩]
  plan := [
    (⟨0, "id"⟩, .primitive ⟨1, ⟨"Order", ["id"]⟩⟩ .long),
    (⟨1, "buyer"⟩, .struct ⟨2, ⟨"Order", ["buyer"]⟩⟩
      [(⟨0, "name"⟩, .primitive ⟨3, ⟨"Order", ["buyer", "name"]⟩⟩ .string)]),
    (⟨2, "tags"⟩, .list ⟨4, ⟨"Order", ["tags"]⟩⟩
      (.primitive ⟨5, ⟨"Order", ["tags", "element"]⟩⟩ .string))]

theorem describe_order : orders.describe "Order" = some { name := "Order", fields := [
    { name := "id", type := .primitive "long" },
    { name := "buyer", type := .structOf "Buyer" },
    { name := "tags", type := .list (.primitive "string") }] } := by decide +kernel

theorem describe_buyer : orders.describe "Buyer" =
    some { name := "Buyer", fields := [{ name := "name", type := .primitive "string" }] } := by
  decide +kernel

theorem compile_orders : compile orders = .ok ordersSpecification.root := by
  -- what the table says about kinds
  have hlong : KindTag.parse? "long" = some (.scalar .long) := by decide +kernel
  have hstring : KindTag.parse? "string" = some (.scalar .string) := by decide +kernel
  have hstruct : KindTag.parse? "struct" = some .struct := by decide +kernel
  have hlist : KindTag.parse? "list" = some .list := by decide +kernel
  have hroot : orders.root = "Order" := by decide +kernel
  -- the fields of an order one after the other, each with the tree below it
  unfold compile
  rw [hroot, describe_order]
  refine expandStruct_eq_ok (by simp) describe_order ?_
  apply expandFields_cons_eq_ok (by simp)
  · exact expandType_scalar_eq_ok (TypeRef.tag_of_parse? hlong rfl)
  apply expandFields_cons_eq_ok (by simp)
  · refine expandType_struct_eq_ok (TypeRef.tag_of_parse? hstruct rfl) rfl ?_
    refine expandStruct_eq_ok (by simp) describe_buyer ?_
    apply expandFields_cons_eq_ok (by simp)
    · exact expandType_scalar_eq_ok (TypeRef.tag_of_parse? hstring rfl)
    · exact expandFields_nil_eq_ok
  apply expandFields_cons_eq_ok (by simp)
  · refine expandType_list_eq_ok (TypeRef.tag_of_parse? hlist rfl) rfl (by simp [TypeRef.list]) ?_
    exact expandType_scalar_eq_ok (TypeRef.tag_of_parse? hstring rfl)
  · exact expandFields_nil_eq_ok

theorem build_orders : Specification.build orders 0 = .ok ordersSpecification := by
  unfold Specification.build
  rw [compile_orders]
  rfl

end Columnar
