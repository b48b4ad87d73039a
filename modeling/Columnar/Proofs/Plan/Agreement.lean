import Mathlib.Data.List.Forall2
import Mathlib.Data.List.Nodup
import Columnar.Proofs.Plan.Shape
import Columnar.Proofs.Schema.Subtree

/-! # Agreement of the parts of a specification

    The storage fields, the capacity hints and the append plan are derived
    from a column tree by three recursions.  Here all three are compared with
    one list, the nodes of the tree in pre-order, each with its dotted path and
    its role in the column around it.

    Hints can also be collected by a stack of columns that are still to be
    looked at, the last one first, and sorted by number afterwards
    (`pendingHints`).  This gives the same hints in the same order. -/

namespace Columnar

/-! ### Nodes -/

/-- What a column is to the one around it: a field of a struct of that type, or the element, key or
    value of a collection. -/
inductive Role where
  | field (typeName : String)
  | part
  deriving Repr, DecidableEq

/-- A column below the root of a tree. -/
structure Node where
  column : Column
  path : Path
  role : Role

mutual

/-- The nodes of a tree in pre-order, the first one with that role and path. -/
def Column.nodes (role : Role) (path : Path) : Column → List Node
  | .primitive head kind => [⟨.primitive head kind, path, role⟩]
  | .struct head typeName children =>
    ⟨.struct head typeName children, path, role⟩ :: Column.nodesOfFields typeName path children
  | .list head averageSize element =>
    ⟨.list head averageSize element, path, role⟩ ::
      Column.nodes .part (path.child element.name) element
  | .map head key value =>
    ⟨.map head key value, path, role⟩ ::
      (Column.nodes .part (path.child key.name) key ++
        Column.nodes .part (path.child value.name) value)

def Column.nodesOfFields (typeName : String) (path : Path) : List Column → List Node
  | [] => []
  | c :: rest =>
    Column.nodes (.field typeName) (path.child c.name) c ++ Column.nodesOfFields typeName path rest

end

/-- The nodes below a row type's root. -/
def Column.nodesBelow : Column → List Node
  | .struct head typeName children => Column.nodesOfFields typeName ⟨head.name, []⟩ children
  | _ => []

mutual

theorem Column.map_column_nodes (role : Role) (path : Path) (c : Column) :
    (c.nodes role path).map Node.column = c.preorder := by
  match c with
  | .primitive head kind => rfl
  | .struct head typeName children =>
    rw [nodes, List.map_cons, map_column_nodesOfFields typeName path children, preorder]
  | .list head averageSize element =>
    rw [nodes, List.map_cons, map_column_nodes .part _ element, preorder]
  | .map head key value =>
    rw [nodes, List.map_cons, List.map_append, map_column_nodes .part _ key,
      map_column_nodes .part _ value, preorder]

theorem Column.map_column_nodesOfFields (typeName : String) (path : Path) (columns : List Column) :
    (Column.nodesOfFields typeName path columns).map Node.column = preorderChildren columns := by
  match columns with
  | [] => rfl
  | c :: rest =>
    rw [nodesOfFields, List.map_append, map_column_nodes _ _ c,
      map_column_nodesOfFields typeName path rest, preorderChildren]

end

/-! ### Operations -/

mutual

/-- The operation and those below it in pre-order, each with the source of its values. -/
def Operation.preorder (source : Source) : Operation → List (Source × Operation)
  | .primitive target kind => [(source, .primitive target kind)]
  | .struct target fields => (source, .struct target fields) :: Operation.preorderFields fields
  | .list target element => (source, .list target element) :: Operation.preorder .element element
  | .map target key value =>
    (source, .map target key value) ::
      (Operation.preorder .element key ++ Operation.preorder .element value)

def Operation.preorderFields : List (Accessor × Operation) → List (Source × Operation)
  | [] => []
  | (accessor, op) :: rest =>
    Operation.preorder (.field accessor) op ++ Operation.preorderFields rest

end

/-- The operations of a specification in pre-order. -/
def Specification.operations (s : Specification) : List (Source × Operation) :=
  Operation.preorderFields s.plan

/-- The operation does what the column needs, those below them apart. -/
def Operation.Handles : Operation → Column → Prop
  | .primitive _ kind, .primitive _ kind' => kind = kind'
  | .struct _ fields, .struct _ _ children => fields.length = children.length
  | .list _ _, .list _ _ _ => True
  | .map _ _ _, .map _ _ _ => True
  | _, _ => False

/-- Where the values of a column come from: those of fields from the accessor that the owner of the
    struct's type has for the column, those of parts of collections with the collection. -/
def Node.Draws (owner : Owner) (n : Node) : Source → Prop
  | .field accessor => ∃ typeName d, n.role = .field typeName ∧ owner typeName = some d ∧
      accessor.name = n.column.accessor.getD n.column.name ∧
      d.resolveAccessor accessor.name = some accessor.index
  | .element => n.role = .part

/-- The operation, with the source of its values, is the one for the node. -/
structure Node.Filled (owner : Owner) (n : Node) (entry : Source × Operation) : Prop where
  column : entry.2.column = n.column.id
  path : entry.2.path = n.path
  source : n.Draws owner entry.1
  action : entry.2.Handles n.column

theorem resolveColumn_eq_ok {d : TypeDescription} {path : Path} {c : Column} {accessor : Accessor}
    (h : resolveColumn d path c = .ok accessor) :
    accessor.name = c.accessor.getD c.name ∧
      d.resolveAccessor accessor.name = some accessor.index := by
  unfold resolveColumn at h
  simp only at h
  split at h
  · next index hindex =>
    cases h
    exact ⟨rfl, hindex⟩
  · cases h

theorem length_fieldOperations {owner : Owner} {d : TypeDescription} {path : Path}
    {columns : List Column} {fields : List (Accessor × Operation)}
    (h : fieldOperations owner d path columns = .ok fields) : fields.length = columns.length := by
  induction columns generalizing fields with
  | nil =>
    cases h
    rfl
  | cons c rest ih =>
    obtain ⟨accessor, -, h⟩ := exists_of_bind_eq_ok h
    obtain ⟨op, -, h⟩ := exists_of_bind_eq_ok h
    obtain ⟨ops, hops, h⟩ := exists_of_bind_eq_ok h
    cases h
    rw [List.length_cons, List.length_cons, ih hops]

mutual

/-- The operations for a column are those for the nodes of its tree, one after the other. -/
theorem filled_of_operation {owner : Owner} {path : Path} {c : Column} {op : Operation}
    (h : operation owner path c = .ok op) {role : Role} {source : Source}
    (hsource : Node.Draws owner ⟨c, path, role⟩ source) :
    List.Forall₂ (Node.Filled owner) (c.nodes role path) (op.preorder source) := by
  match c with
  | .primitive head kind =>
    cases h
    exact .cons ⟨rfl, rfl, hsource, rfl⟩ .nil
  | .struct head typeName children =>
    obtain ⟨d, hd, h⟩ := exists_of_bind_eq_ok h
    obtain ⟨fields, hfields, h⟩ := exists_of_bind_eq_ok h
    cases h
    exact .cons ⟨rfl, rfl, hsource, length_fieldOperations hfields⟩
      (filled_of_fieldOperations (describeOwner_eq_ok hd) hfields)
  | .list head averageSize element =>
    obtain ⟨below, hbelow, h⟩ := exists_of_bind_eq_ok h
    cases h
    exact .cons ⟨rfl, rfl, hsource, trivial⟩ (filled_of_operation hbelow rfl)
  | .map head key value =>
    obtain ⟨keys, hkeys, h⟩ := exists_of_bind_eq_ok h
    obtain ⟨values, hvalues, h⟩ := exists_of_bind_eq_ok h
    cases h
    have hkeys' : List.Forall₂ (Node.Filled owner) (key.nodes .part (path.child key.name))
        (keys.preorder .element) := filled_of_operation hkeys rfl
    have hvalues' : List.Forall₂ (Node.Filled owner) (value.nodes .part (path.child value.name))
        (values.preorder .element) := filled_of_operation hvalues rfl
    exact .cons ⟨rfl, rfl, hsource, trivial⟩ (List.rel_append hkeys' hvalues')

theorem filled_of_fieldOperations {owner : Owner} {typeName : String} {d : TypeDescription}
    (hd : owner typeName = some d) {path : Path} {columns : List Column}
    {fields : List (Accessor × Operation)}
    (h : fieldOperations owner d path columns = .ok fields) :
    List.Forall₂ (Node.Filled owner) (Column.nodesOfFields typeName path columns)
      (Operation.preorderFields fields) := by
  match columns with
  | [] =>
    cases h
    exact .nil
  | c :: rest =>
    obtain ⟨accessor, haccessor, h⟩ := exists_of_bind_eq_ok h
    obtain ⟨op, hop, h⟩ := exists_of_bind_eq_ok h
    obtain ⟨ops, hops, h⟩ := exists_of_bind_eq_ok h
    cases h
    -- the column is a field of the struct, so its accessor is one of the struct's type
    obtain ⟨hname, hindex⟩ := resolveColumn_eq_ok haccessor
    have hsource : Node.Draws owner ⟨c, path.child c.name, .field typeName⟩ (.field accessor) :=
      ⟨typeName, d, rfl, hd, hname, hindex⟩
    exact List.rel_append (filled_of_operation hop hsource) (filled_of_fieldOperations hd hops)

end

/-- The operations of a specification are those of the nodes below its root, and fields are read
    through the accessors of the owner. -/
theorem filled_of_synthesize {root : Column} {owner : Owner} {writerId : WriterId}
    {s : Specification} (hs : synthesize root owner writerId = .ok s) :
    List.Forall₂ (Node.Filled owner) root.nodesBelow s.operations := by
  obtain ⟨_, _, _, _, _, _, rfl, -, -, hd, hplan, rfl⟩ := exists_of_synthesize_eq_ok hs
  exact filled_of_fieldOperations hd hplan

/-! ### Hints -/

/-- The hint for a column of that path, if it is a list. -/
def Column.hint? (path : Path) : Column → Option CapacityHint
  | .list head averageSize element => some ⟨head.id, element.id, averageSize, path⟩
  | _ => none

def Node.hint? (n : Node) : Option CapacityHint := n.column.hint? n.path

/-- The list column that the hint is for, and its path. -/
def CapacityHint.target (h : CapacityHint) : Target := ⟨h.list, h.path⟩

def Operation.isList : Operation → Bool
  | .list _ _ => true
  | _ => false

mutual

theorem capacityHints_eq (role : Role) (path : Path) (c : Column) :
    capacityHints path c = (c.nodes role path).filterMap Node.hint? := by
  match c with
  | .primitive head kind => rfl
  | .struct head typeName children =>
    rw [capacityHints, Column.nodes, capacityHintsOfFields_eq typeName path children]
    rfl
  | .list head averageSize element =>
    rw [capacityHints, Column.nodes, capacityHints_eq .part _ element]
    rfl
  | .map head key value =>
    rw [capacityHints, Column.nodes, capacityHints_eq .part _ key, capacityHints_eq .part _ value,
      ← List.filterMap_append]
    rfl

theorem capacityHintsOfFields_eq (typeName : String) (path : Path) (columns : List Column) :
    capacityHintsOfFields path columns =
      (Column.nodesOfFields typeName path columns).filterMap Node.hint? := by
  match columns with
  | [] => rfl
  | c :: rest =>
    rw [capacityHintsOfFields, Column.nodesOfFields, List.filterMap_append,
      capacityHints_eq (.field typeName) _ c, capacityHintsOfFields_eq typeName path rest]

end

/-- There is a hint for each list operation, with its column and path, and for no other one. -/
theorem map_target_hints {owner : Owner} {nodes : List Node} {entries : List (Source × Operation)}
    (h : List.Forall₂ (Node.Filled owner) nodes entries) :
    (nodes.filterMap Node.hint?).map CapacityHint.target =
      (entries.filter (·.2.isList)).map (·.2.target) := by
  induction h with
  | nil => rfl
  | @cons n entry nodes entries hn _ ih =>
    obtain ⟨c, path, role⟩ := n
    obtain ⟨source, op⟩ := entry
    obtain ⟨hcolumn, hpath, -, haction⟩ := hn
    -- both are lists or none is, as the operation does what the column needs
    cases c <;> cases op <;> simp only [Operation.Handles] at haction
    case list head averageSize element target below =>
      have htarget : (⟨head.id, path⟩ : Target) = target := by
        rw [show head.id = target.column from hcolumn.symm, show path = target.path from hpath.symm]
      rw [List.filter_cons_of_pos rfl, List.map_cons, ← ih, ← show _ = target from htarget]
      rfl
    all_goals
      rw [List.filter_cons_of_neg Bool.false_ne_true, ← ih]
      rfl

theorem Node.id_of_hint? {n : Node} {hint : CapacityHint} (h : n.hint? = some hint) :
    hint.list = n.column.id := by
  obtain ⟨c, path, role⟩ := n
  cases c with
  | list head averageSize element =>
    cases h
    rfl
  | _ => cases h

/-- Hints come in the order of the numbers of their columns, with one hint for a column at most. -/
theorem pairwise_capacityHints {c : Column} (hc : c.Regular) (path : Path) :
    (capacityHints path c).Pairwise (·.list < ·.list) := by
  rw [capacityHints_eq .part]
  have hids : (c.nodes .part path).Pairwise (·.column.id < ·.column.id) := by
    have hcolumns := hc.pairwise_preorder
    rwa [← c.map_column_nodes .part path, List.pairwise_map] at hcolumns
  refine hids.filterMap Node.hint? ?_
  intro n n' hlt hint hhint hint' hhint'
  rwa [Node.id_of_hint? hhint, Node.id_of_hint? hhint']

/-! ### Collecting hints with a stack -/

theorem Column.countChildren_append (xs ys : List Column) :
    countChildren (xs ++ ys) = countChildren xs + countChildren ys := by
  induction xs with
  | nil => exact (Nat.zero_add _).symm
  | cons c rest ih => rw [List.cons_append, countChildren, countChildren, ih, Nat.add_assoc]

theorem Column.countChildren_reverse (xs : List Column) :
    countChildren xs.reverse = countChildren xs := by
  induction xs with
  | nil => rfl
  | cons c rest ih =>
    rw [List.reverse_cons, countChildren_append, ih, countChildren, countChildren, countChildren]
    exact Nat.add_comm _ _

/-- The children of a column with their paths, the last one first. -/
def Column.pendingChildren (path : Path) (c : Column) : List (Column × Path) :=
  (c.children.map fun d => (d, path.child d.name)).reverse

/-- The hints for the trees on a stack, in the order in which a column that is taken from the stack
    leaves its children there. -/
def pendingHints : List (Column × Path) → List CapacityHint
  | [] => []
  | (c, path) :: pending =>
    (c.hint? path).toList ++ pendingHints (c.pendingChildren path ++ pending)
termination_by pending => Column.countChildren (pending.map (·.1))
decreasing_by
  have hcolumns : (c.pendingChildren path).map (·.1) = c.children.reverse := by
    simp [Column.pendingChildren, Function.comp_def]
  rw [List.map_append, hcolumns, Column.countChildren_append, Column.countChildren_reverse,
    List.map_cons, Column.countChildren, c.count_eq_succ]
  omega

/-- A column comes in front of its children. -/
theorem capacityHints_eq_cons (path : Path) (c : Column) :
    capacityHints path c = (c.hint? path).toList ++
      (c.children.map fun d => (d, path.child d.name)).flatMap fun e => capacityHints e.2 e.1 := by
  have hfields : ∀ columns : List Column, capacityHintsOfFields path columns =
      (columns.map fun d => (d, path.child d.name)).flatMap fun e => capacityHints e.2 e.1 := by
    intro columns
    induction columns with
    | nil => rfl
    | cons d rest ih => rw [capacityHintsOfFields, ih, List.map_cons, List.flatMap_cons]
  cases c with
  | primitive head kind => rfl
  | struct head typeName children => exact hfields children
  | list head averageSize element =>
    simp [capacityHints, Column.hint?, Column.children]
  | map head key value =>
    simp [capacityHints, Column.hint?, Column.children]

/-- The stack changes the order of the hints and nothing else. -/
theorem pendingHints_perm (pending : List (Column × Path)) :
    (pendingHints pending).Perm (pending.flatMap fun e => capacityHints e.2 e.1) := by
  induction pending using pendingHints.induct with
  | case1 =>
    rw [pendingHints]
    exact .nil
  | case2 c path pending ih =>
    rw [pendingHints, List.flatMap_cons, capacityHints_eq_cons, List.append_assoc]
    refine .append_left _ (ih.trans ?_)
    rw [List.flatMap_append]
    exact .append_right _ (.flatMap_right _ (List.reverse_perm _))

/-- Sorted by number, the hints collected with a stack are those of the tree in pre-order. -/
theorem mergeSort_pendingHints {c : Column} (hc : c.Regular) (path : Path) :
    (pendingHints [(c, path)]).mergeSort (fun a b => a.list ≤ b.list) = capacityHints path c := by
  have hordered := pairwise_capacityHints hc path
  have hperm : (pendingHints [(c, path)]).Perm (capacityHints path c) := by
    have h := pendingHints_perm [(c, path)]
    rwa [List.flatMap_cons, List.flatMap_nil, List.append_nil] at h
  have hsame := (List.mergeSort_perm (pendingHints [(c, path)])
    fun a b => decide (a.list ≤ b.list)).trans hperm
  have hsorted := @List.pairwise_mergeSort CapacityHint (fun a b => decide (a.list ≤ b.list))
    (fun a b d hab hbd => by
      simp only [decide_eq_true_eq] at hab hbd ⊢
      exact Nat.le_trans hab hbd)
    (fun a b => by simpa using Nat.le_total a.list b.list) (pendingHints [(c, path)])
  have hsorted' : (capacityHints path c).Pairwise fun a b => decide (a.list ≤ b.list) = true :=
    hordered.imp fun hlt => by simpa using Nat.le_of_lt hlt
  refine List.Perm.eq_of_pairwise ?_ hsorted hsorted' hsame
  -- hints of one number are one hint, since hints of the tree differ in their numbers
  intro a b ha hb hab hba
  have hlist : a.list = b.list := Nat.le_antisymm (by simpa using hab) (by simpa using hba)
  have hnodup : ((capacityHints path c).map CapacityHint.list).Nodup :=
    (List.pairwise_map.2 hordered).imp Nat.ne_of_lt
  exact List.inj_on_of_nodup_map hnodup (hsame.subset ha) hb hlist

/-! ### Storage -/

mutual

/-- The type stores the values of the column: leaves in the layout of their kind, the parts of
    nested columns in fields, of which only the keys and the entries of a map are never null. -/
inductive Stores : Column → StorageType → Prop where
  | primitive {head : ColumnHead} {kind : PrimitiveKind} :
      Stores (.primitive head kind) (.leaf kind.storage)
  | struct {head : ColumnHead} {typeName : String} {children : List Column}
      {fields : List StorageField} (hfields : StoresFields children fields) :
      Stores (.struct head typeName children) (.struct fields)
  | list {head : ColumnHead} {averageSize : UInt32} {element : Column} {type : StorageType}
      (helement : Stores element type) :
      Stores (.list head averageSize element) (.list ⟨"item", type, true⟩)
  | map {head : ColumnHead} {key value : Column} {keys values : StorageType}
      (hkey : Stores key keys) (hvalue : Stores value values) :
      Stores (.map head key value)
        (.map ⟨"entries", .struct [⟨"key", keys, false⟩, ⟨"value", values, true⟩], false⟩)

/-- There is a nullable field for each column, in the same order and of the same name. -/
inductive StoresFields : List Column → List StorageField → Prop where
  | nil : StoresFields [] []
  | cons {c : Column} {rest : List Column} {type : StorageType} {fields : List StorageField}
      (hc : Stores c type) (hrest : StoresFields rest fields) :
      StoresFields (c :: rest) (⟨c.name, type, true⟩ :: fields)

end

mutual

theorem stores_of_storageType {path : Path} {c : Column} {type : StorageType}
    (h : storageType path c = .ok type) : Stores c type := by
  match c with
  | .primitive head kind =>
    cases h
    exact .primitive
  | .struct head typeName children =>
    rw [storageType] at h
    split at h
    · cases h
    · obtain ⟨fields, hfields, h⟩ := exists_of_bind_eq_ok h
      cases h
      exact .struct (storesFields_of_storageFields hfields)
  | .list head averageSize element =>
    obtain ⟨elements, helements, h⟩ := exists_of_bind_eq_ok h
    cases h
    exact .list (stores_of_storageType helements)
  | .map head (.primitive keyHead kind) value =>
    obtain ⟨values, hvalues, h⟩ := exists_of_bind_eq_ok h
    cases h
    exact .map .primitive (stores_of_storageType hvalues)
  -- only leaves can be keys
  | .map head (.struct ..) value => cases h
  | .map head (.list ..) value => cases h
  | .map head (.map ..) value => cases h

theorem storesFields_of_storageFields {path : Path} {columns : List Column}
    {fields : List StorageField} (h : storageFields path columns = .ok fields) :
    StoresFields columns fields := by
  match columns with
  | [] =>
    cases h
    exact .nil
  | c :: rest =>
    obtain ⟨type, htype, h⟩ := exists_of_bind_eq_ok h
    obtain ⟨fields, hfields, h⟩ := exists_of_bind_eq_ok h
    cases h
    exact .cons (stores_of_storageType htype) (storesFields_of_storageFields hfields)

end

/-! ### All three parts -/

/-- The parts of the specification describe the tree: there are operations for the nodes below the
    root, one after the other, hints for the lists among them, and fields for all of them. -/
structure Specification.Describes (s : Specification) (owner : Owner) (root : Column) : Prop where
  isStruct : ∃ head typeName, root = .struct head typeName root.children
  nodes : root.preorder = root :: root.nodesBelow.map Node.column
  operations : List.Forall₂ (Node.Filled owner) root.nodesBelow s.operations
  hints : s.hints = root.nodesBelow.filterMap Node.hint?
  ascending : s.hints.Pairwise (·.list < ·.list)
  targets : s.hints.map CapacityHint.target =
    (s.operations.filter (·.2.isList)).map (·.2.target)
  collected : s.hints =
    (pendingHints [(root, ⟨root.name, []⟩)]).mergeSort fun a b => a.list ≤ b.list
  fields : StoresFields root.children s.fields

/-- Whatever specification is synthesized for a column of a compiled tree, its three parts agree on
    every column below. -/
theorem parts_agree {c : Catalog} {tree root : Column} (hcompile : compile c = .ok tree)
    (hroot : root ∈ tree.preorder) {owner : Owner} {writerId : WriterId} {s : Specification}
    (hs : synthesize root owner writerId = .ok s) : s.Describes owner root := by
  obtain ⟨-, -, htree⟩ := compile_regular hcompile
  have hregular := htree.of_mem_preorder hroot
  unfold synthesize at hs
  cases root with
  | struct head typeName children =>
    simp only at hs
    split at hs
    · cases hs
    · obtain ⟨fields, hfields, hs⟩ := exists_of_bind_eq_ok hs
      obtain ⟨d, hd, hs⟩ := exists_of_bind_eq_ok hs
      obtain ⟨plan, hplan, hs⟩ := exists_of_bind_eq_ok hs
      cases hs
      have hfilled := filled_of_fieldOperations (describeOwner_eq_ok hd) hplan
      have hhints := capacityHintsOfFields_eq typeName ⟨head.name, []⟩ children
      have htargets := (congrArg (List.map CapacityHint.target) hhints).trans
        (map_target_hints hfilled)
      refine ⟨⟨head, typeName, rfl⟩, ?_, hfilled, hhints, pairwise_capacityHints hregular _,
        htargets, (mergeSort_pendingHints hregular _).symm, storesFields_of_storageFields hfields⟩
      rw [Column.nodesBelow, Column.map_column_nodesOfFields]
      rfl
  | primitive => cases hs
  | list => cases hs
  | map => cases hs

/-- What is synthesized for the buyers within orders.  Its columns keep their numbers. -/
def buyersSpecification : Specification where
  writerId := 1
  rootType := "Buyer"
  root := .struct ⟨2, "buyer", "buyer"⟩ "Buyer" [.primitive ⟨3, "name", "name"⟩ .string]
  fields := [⟨"name", .leaf .utf8, true⟩]
  hints := []
  plan := [(⟨0, "name"⟩, .primitive ⟨3, ⟨"buyer", ["name"]⟩⟩ .string)]

theorem buyers_mem : buyersSpecification.root ∈ ordersSpecification.root.preorder := by
  simp [buyersSpecification, ordersSpecification, Column.preorder, Column.preorderChildren]

theorem synthesize_orders :
    synthesize ordersSpecification.root orders.describe 0 = .ok ordersSpecification := rfl

theorem synthesize_buyers :
    synthesize buyersSpecification.root orders.describe 1 = .ok buyersSpecification := rfl

/-- The parts of the specification for orders, and of the one for the buyers within them. -/
theorem orders_parts_agree :
    ordersSpecification.Describes orders.describe ordersSpecification.root ∧
      buyersSpecification.Describes orders.describe buyersSpecification.root :=
  ⟨parts_agree compile_orders (by simp [ordersSpecification, Column.preorder])
      synthesize_orders,
    parts_agree compile_orders buyers_mem synthesize_buyers⟩

end Columnar
