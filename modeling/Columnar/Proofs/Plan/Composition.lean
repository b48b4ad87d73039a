import Columnar.Proofs.Plan.Relabelling

/-! # Synthesis of parts

    What is synthesized for a column holds what is synthesized for each column
    below it, at the same place: choosing children by position, one after the
    other, leads from the column to a child, from its operation to the child's
    operation, and from its storage type to the child's type
    (`Synthesizes.child`, and for whole places `Synthesizes.descend`).

    So a struct column anywhere in a tree can be given a specification of its
    own, and this says nothing that the whole one does not say there.  Only the
    paths begin with another name (`synthesis_compositional`). -/

namespace Columnar

/-! ### Places -/

/-- What is reached by choosing parts by position, one after the other. -/
def descendBy {α : Type} (parts : α → List α) (x : α) : List Nat → Option α
  | [] => some x
  | i :: rest => ((parts x)[i]?).bind fun y => descendBy parts y rest

namespace Operation

/-- The operations for the children of the column. -/
def parts : Operation → List Operation
  | .primitive _ _ => []
  | .struct _ fields => fields.map (·.2)
  | .list _ element => [element]
  | .map _ key value => [key, value]

end Operation

namespace StorageType

/-- The types that the type is made of.  Those of a map are the types of keys and values. -/
def parts : StorageType → List StorageType
  | .leaf _ => []
  | .struct fields => fields.map (·.type)
  | .list item => [item.type]
  | .map ⟨_, .struct fields, _⟩ => fields.map (·.type)
  | .map _ => []

end StorageType

/-! ### From a column to its children -/

theorem getElem?_fieldOperations {owner : Owner} {d : TypeDescription} {path : Path}
    {columns : List Column} {fields : List (Accessor × Operation)}
    (h : fieldOperations owner d path columns = .ok fields) {i : Nat} {c : Column}
    (hc : columns[i]? = some c) :
    ∃ op, (fields.map (·.2))[i]? = some op ∧ operation owner (path.child c.name) c = .ok op := by
  induction columns generalizing fields i with
  | nil => cases hc
  | cons first rest ih =>
    obtain ⟨accessor, -, h⟩ := exists_of_bind_eq_ok h
    obtain ⟨op, hop, h⟩ := exists_of_bind_eq_ok h
    obtain ⟨ops, hops, h⟩ := exists_of_bind_eq_ok h
    cases h
    cases i with
    | zero =>
      cases hc
      exact ⟨op, rfl, hop⟩
    | succ i => exact ih hops hc

theorem getElem?_storageFields {path : Path} {columns : List Column} {fields : List StorageField}
    (h : storageFields path columns = .ok fields) {i : Nat} {c : Column}
    (hc : columns[i]? = some c) :
    ∃ type, (fields.map (·.type))[i]? = some type ∧
      storageType (path.child c.name) c = .ok type := by
  induction columns generalizing fields i with
  | nil => cases hc
  | cons first rest ih =>
    obtain ⟨type, htype, h⟩ := exists_of_bind_eq_ok h
    obtain ⟨fields, hfields, h⟩ := exists_of_bind_eq_ok h
    cases h
    cases i with
    | zero =>
      cases hc
      exact ⟨type, rfl, htype⟩
    | succ i => exact ih hfields hc

/-- The nodes of a child stand together among those of the column. -/
theorem Column.nodes_child_isInfix {c d : Column} (h : d ∈ c.children) (role : Role)
    (path : Path) : ∃ role', d.nodes role' (path.child d.name) <:+: c.nodes role path := by
  match c with
  | .primitive head kind => cases h
  | .struct head typeName children =>
    have hfields : ∀ columns : List Column, d ∈ columns →
        d.nodes (.field typeName) (path.child d.name) <:+: nodesOfFields typeName path columns := by
      intro columns hd
      induction columns with
      | nil => cases hd
      | cons first rest ih =>
        rcases List.mem_cons.1 hd with rfl | hd
        · exact (List.prefix_append _ _).isInfix
        · exact (ih hd).trans (List.suffix_append _ _).isInfix
    exact ⟨_, List.infix_cons (hfields children h)⟩
  | .list head averageSize element =>
    rw [List.mem_singleton.1 h]
    exact ⟨_, (List.suffix_cons _ _).isInfix⟩
  | .map head key value =>
    rcases List.mem_cons.1 h with rfl | h
    · exact ⟨_, List.infix_cons (List.prefix_append _ _).isInfix⟩
    · rw [List.mem_singleton.1 h]
      exact ⟨_, List.infix_cons (List.suffix_append _ _).isInfix⟩

/-- The operation and the type are what is synthesized for the column at that path. -/
structure Synthesizes (owner : Owner) (path : Path) (c : Column) (op : Operation)
    (type : StorageType) : Prop where
  operation : operation owner path c = .ok op
  type : storageType path c = .ok type

section Structs

variable {owner : Owner} {path : Path} {head : ColumnHead} {typeName : String}
  {children : List Column}

theorem synthesizes_struct_iff {op : Operation} {type : StorageType} :
    Synthesizes owner path (.struct head typeName children) op type ↔
      ∃ d ops fields, children ≠ [] ∧ owner typeName = some d ∧
        fieldOperations owner d path children = .ok ops ∧
        storageFields path children = .ok fields ∧
        op = .struct ⟨head.id, path⟩ ops ∧ type = .struct fields := by
  constructor
  · rintro ⟨hop, htype⟩
    obtain ⟨d, hd, hop⟩ := exists_of_bind_eq_ok hop
    obtain ⟨ops, hops, hop⟩ := exists_of_bind_eq_ok hop
    cases hop
    unfold storageType at htype
    split at htype
    · cases htype
    · next hempty =>
      obtain ⟨fields, hfields, htype⟩ := exists_of_bind_eq_ok htype
      cases htype
      exact ⟨d, ops, fields, by simpa using hempty, describeOwner_eq_ok hd, hops, hfields, rfl, rfl⟩
  · rintro ⟨d, ops, fields, hne, hd, hops, hfields, rfl, rfl⟩
    constructor
    · rw [operation, describeOwner, hd]
      show (fieldOperations owner d path children >>= _) = _
      rw [hops]
      rfl
    · rw [storageType, if_neg (by simpa using hne), hfields]
      rfl

/-- A specification is synthesized if an operation and a type are synthesized for the root; it
    holds the operations and types of the children. -/
theorem synthesize_struct_iff {writerId : WriterId} {s : Specification} :
    synthesize (.struct head typeName children) owner writerId = .ok s ↔
      ∃ plan fields, Synthesizes owner ⟨head.name, []⟩ (.struct head typeName children)
          (.struct ⟨head.id, ⟨head.name, []⟩⟩ plan) (.struct fields) ∧
        s = ⟨writerId, typeName, .struct head typeName children, fields,
          capacityHintsOfFields ⟨head.name, []⟩ children, plan⟩ := by
  simp only [synthesizes_struct_iff]
  constructor
  · intro h
    obtain ⟨_, _, _, fields, d, plan, heq, hne, hfields, hd, hplan, rfl⟩ :=
      exists_of_synthesize_eq_ok h
    cases heq
    exact ⟨plan, fields, ⟨d, plan, fields, hne, hd, hplan, hfields, rfl, rfl⟩, rfl⟩
  · rintro ⟨plan, fields, ⟨d, _, _, hne, hd, hplan, hfields, ⟨⟩, ⟨⟩⟩, rfl⟩
    unfold synthesize
    simp only
    rw [if_neg (by simpa using hne)]
    show (storageFields ⟨head.name, []⟩ children >>= _) = _
    rw [hfields]
    show (describeOwner owner _ typeName >>= _) = _
    rw [describeOwner, hd]
    show (fieldOperations owner d ⟨head.name, []⟩ children >>= _) = _
    rw [hplan]
    rfl

end Structs

namespace Synthesizes

variable {owner : Owner} {path : Path} {c d : Column} {op : Operation} {type : StorageType}

/-- The same is synthesized for the column at another path, the paths apart. -/
theorem rebase {steps : List String} (h : Synthesizes owner (path.below steps) c op type)
    (name : String) :
    Synthesizes owner ⟨name, steps⟩ c (op.relabel (path.rebase name) id) type :=
  ⟨operation_rebase h.operation name, storageType_of_path h.type⟩

/-- The parts of an operation and of a type are synthesized for the children. -/
theorem child (h : Synthesizes owner path c op type) {i : Nat} (hd : c.children[i]? = some d) :
    ∃ op' type', op.parts[i]? = some op' ∧ type.parts[i]? = some type' ∧
      Synthesizes owner (path.child d.name) d op' type' := by
  match c with
  | .primitive head kind => cases hd
  | .struct head typeName children =>
    obtain ⟨_, _, _, -, -, hops, hfields, rfl, rfl⟩ := synthesizes_struct_iff.1 h
    obtain ⟨op', hop', hchild⟩ := getElem?_fieldOperations hops hd
    obtain ⟨type', htype', hchild'⟩ := getElem?_storageFields hfields hd
    exact ⟨op', type', hop', htype', hchild, hchild'⟩
  | .list head averageSize element =>
    obtain ⟨hop, htype⟩ := h
    obtain ⟨below, hbelow, hop⟩ := exists_of_bind_eq_ok hop
    obtain ⟨item, hitem, htype⟩ := exists_of_bind_eq_ok htype
    cases hop
    cases htype
    cases i with
    | zero =>
      cases hd
      exact ⟨below, item, rfl, rfl, hbelow, hitem⟩
    | succ i => cases hd
  | .map head (.primitive keyHead kind) value =>
    obtain ⟨hop, htype⟩ := h
    obtain ⟨keys, hkeys, hop⟩ := exists_of_bind_eq_ok hop
    obtain ⟨values, hvalues, hop⟩ := exists_of_bind_eq_ok hop
    obtain ⟨valueType, hvalueType, htype⟩ := exists_of_bind_eq_ok htype
    cases hop
    cases htype
    match i with
    | 0 =>
      cases hd
      exact ⟨keys, .leaf kind.storage, rfl, rfl, hkeys, rfl⟩
    | 1 =>
      cases hd
      exact ⟨values, valueType, rfl, rfl, hvalues, hvalueType⟩
    | _ + 2 => cases hd
  -- only leaves can be keys
  | .map head (.struct ..) value => cases h.type
  | .map head (.list ..) value => cases h.type
  | .map head (.map ..) value => cases h.type

/-- What is synthesized for a column leads, by the way to any column below, to what is synthesized
    for that one.  Its path goes on from that of the first one. -/
theorem descend (h : Synthesizes owner path c op type) {place : List Nat}
    (hd : c.descend? place = some d) (role : Role) :
    ∃ steps op' type' role', descendBy Operation.parts op place = some op' ∧
      descendBy StorageType.parts type place = some type' ∧
      Synthesizes owner (path.below steps) d op' type' ∧
      d.nodes role' (path.below steps) <:+: c.nodes role path := by
  induction place generalizing path c op type role with
  | nil =>
    cases hd
    have hpath : path = path.below [] := path.below_nil.symm
    exact ⟨[], op, type, role, rfl, rfl, hpath ▸ h, hpath ▸ List.infix_refl _⟩
  | cons i rest ih =>
    obtain ⟨e, he, hd⟩ := Option.bind_eq_some_iff.1 hd
    obtain ⟨op₁, type₁, hop₁, htype₁, h₁⟩ := h.child he
    obtain ⟨role₁, hnodes₁⟩ := Column.nodes_child_isInfix (List.mem_of_getElem? he) role path
    obtain ⟨steps, op', type', role', hop', htype', h', hnodes'⟩ := ih h₁ hd role₁
    rw [Path.below_child] at h' hnodes'
    refine ⟨e.name :: steps, op', type', role', ?_, ?_, h', hnodes'.trans hnodes₁⟩
    · show (op.parts[i]?).bind _ = _
      rw [hop₁]
      exact hop'
    · show (type.parts[i]?).bind _ = _
      rw [htype₁]
      exact htype'

end Synthesizes

/-! ### Hints of a part -/

/-- The hints for the columns of a part are told by the numbers of these columns. -/
theorem filter_hints_of_nodup {before inside after : List Node}
    (h : ((before ++ inside ++ after).map (·.column.id)).Nodup) :
    (((before ++ inside ++ after).filterMap Node.hint?).filter
      fun hint => hint.list ∈ inside.map (·.column.id)) = inside.filterMap Node.hint? := by
  have hinside : (inside.filterMap Node.hint?).filter
      (fun hint => hint.list ∈ inside.map (·.column.id)) = inside.filterMap Node.hint? := by
    rw [List.filter_eq_self]
    intro hint hhint
    obtain ⟨n, hn, hhint⟩ := List.mem_filterMap.1 hhint
    rw [Node.id_of_hint? hhint, decide_eq_true_iff]
    exact List.mem_map_of_mem hn
  have houtside : ∀ nodes : List Node,
      (nodes.map (·.column.id)).Disjoint (inside.map (·.column.id)) →
      (nodes.filterMap Node.hint?).filter (fun hint => hint.list ∈ inside.map (·.column.id)) =
        [] := by
    intro nodes hdisjoint
    rw [List.filter_eq_nil_iff]
    intro hint hhint
    obtain ⟨n, hn, hhint⟩ := List.mem_filterMap.1 hhint
    rw [Node.id_of_hint? hhint, decide_eq_true_iff]
    exact hdisjoint (List.mem_map_of_mem hn)
  rw [List.map_append, List.map_append, List.nodup_append', List.nodup_append'] at h
  obtain ⟨⟨-, -, hbefore⟩, -, hafter⟩ := h
  rw [List.filterMap_append, List.filterMap_append, List.filter_append, List.filter_append,
    houtside before hbefore, hinside,
    houtside after fun id hid hmem => hafter (List.mem_append_right _ hmem) hid]
  rw [List.nil_append, List.append_nil]

/-- The hints of a tree that are for the lists below one of its struct columns. -/
theorem hints_of_isInfix {root : Column} (hroot : root.Regular) {role role' : Role}
    {p path : Path} {head : ColumnHead} {typeName : String} {children : List Column}
    (h : (Column.struct head typeName children).nodes role' path <:+: root.nodes role p) :
    ((capacityHints p root).filter
      fun hint => hint.list ∈ (Column.preorderChildren children).map Column.id) =
        capacityHintsOfFields path children := by
  obtain ⟨before, after, h⟩ := h
  have hids : (root.nodes role p).map (·.column.id) = root.preorder.map Column.id := by
    rw [← root.map_column_nodes role p, List.map_map]
    rfl
  have hinside : (Column.nodesOfFields typeName path children).map (·.column.id) =
      (Column.preorderChildren children).map Column.id := by
    rw [← Column.map_column_nodesOfFields typeName path children, List.map_map]
    rfl
  -- the struct column itself stands in front of those below
  have hsplit : (before ++ [⟨.struct head typeName children, path, role'⟩]) ++
      Column.nodesOfFields typeName path children ++ after = root.nodes role p := by
    rw [← h, Column.nodes, List.append_assoc before, List.singleton_append]
  rw [capacityHints_eq role, capacityHintsOfFields_eq typeName, ← hinside, ← hsplit]
  apply filter_hints_of_nodup
  rw [hsplit, hids, Column.preorder_ids hroot]
  exact List.nodup_range'

/-! ### Paths of a part -/

theorem Node.path_of_hint? {n : Node} {hint : CapacityHint} (h : n.hint? = some hint) :
    hint.path = n.path := by
  obtain ⟨c, path, role⟩ := n
  cases c with
  | list head averageSize element =>
    cases h
    rfl
  | _ => cases h

theorem map_path_of_filled {owner : Owner} {nodes : List Node}
    {entries : List (Source × Operation)} (h : List.Forall₂ (Node.Filled owner) nodes entries) :
    entries.map (·.2.path) = nodes.map Node.path := by
  induction h with
  | nil => rfl
  | cons hn _ ih => rw [List.map_cons, List.map_cons, hn.path, ih]

/-- The operations and hints for the columns below a struct have the paths of these columns. -/
theorem exists_node_of_path {owner : Owner} {d : TypeDescription} {typeName : String} {path : Path}
    {columns : List Column} {ops : List (Accessor × Operation)} (hd : owner typeName = some d)
    (hops : fieldOperations owner d path columns = .ok ops) {q : Path}
    (hq : q ∈ (Operation.preorderFields ops).map (·.2.path) ++
      (capacityHintsOfFields path columns).map (·.path)) :
    ∃ n ∈ Column.nodesOfFields typeName path columns, n.path = q := by
  rcases List.mem_append.1 hq with hq | hq
  · rw [map_path_of_filled (filled_of_fieldOperations hd hops)] at hq
    exact List.mem_map.1 hq
  · obtain ⟨hint, hhint, rfl⟩ := List.mem_map.1 hq
    rw [capacityHintsOfFields_eq typeName] at hhint
    obtain ⟨n, hn, hhint⟩ := List.mem_filterMap.1 hhint
    exact ⟨n, hn, (Node.path_of_hint? hhint).symm⟩

/-! ### Specifications of parts -/

namespace Specification

/-- The operation for the whole row, which holds the plan. -/
def operation (s : Specification) : Operation :=
  .struct ⟨s.root.id, ⟨s.root.name, []⟩⟩ s.plan

/-- The hints for the lists below the column. -/
def hintsBelow (s : Specification) (c : Column) : List CapacityHint :=
  s.hints.filter fun hint => hint.list ∈ (Column.preorderChildren c.children).map Column.id

/-- At the place there is a struct column with that path and those operations for its fields, and
    the other specification is the part for this column: its paths begin with the name of the
    column instead of the path, and this is the only difference. -/
structure HasPart (whole : Specification) (place : List Nat) (path : Path)
    (ops : List (Accessor × Operation)) (part : Specification) : Prop where
  operation : descendBy Operation.parts whole.operation place =
    some (.struct ⟨part.root.id, path⟩ ops)
  plan : part.plan = Operation.relabelFields (path.rebase part.root.name) id ops
  hints : part.hints =
    (whole.hintsBelow part.root).map (CapacityHint.rebase path part.root.name)
  fields : descendBy StorageType.parts (.struct whole.fields) place = some (.struct part.fields)
  texts : ∀ q ∈ (Operation.preorderFields ops).map (·.2.path) ++
      (whole.hintsBelow part.root).map (·.path),
    ∃ rest, q.text = path.text ++ rest ∧
      (path.rebase part.root.name q).text = part.root.name ++ rest

end Specification

/-- Every struct column of a compiled tree has a specification of its own if the tree has one, and
    this is the part of that one. -/
theorem synthesis_compositional {c : Catalog} {root : Column} (hcompile : compile c = .ok root)
    {owner : Owner} {writerId : WriterId} {whole : Specification}
    (hwhole : synthesize root owner writerId = .ok whole) {place : List Nat} {head : ColumnHead}
    {typeName : String} {children : List Column}
    (hplace : root.descend? place = some (.struct head typeName children)) :
    ∃ part, synthesize (.struct head typeName children) owner writerId = .ok part ∧
      part.root = .struct head typeName children ∧
      ∃ path ops, whole.HasPart place path ops part := by
  obtain ⟨-, -, hregular⟩ := compile_regular hcompile
  obtain ⟨rootHead, rootType, rootChildren, -, -, -, rfl, -⟩ := exists_of_synthesize_eq_ok hwhole
  obtain ⟨plan, fields, hroot, rfl⟩ := synthesize_struct_iff.1 hwhole
  obtain ⟨steps, op, type, role, hop, htype, hpart, hnodes⟩ := hroot.descend hplace .part
  obtain ⟨path, hpath⟩ : ∃ path, path = Path.below ⟨rootHead.name, []⟩ steps := ⟨_, rfl⟩
  rw [← hpath] at hpart hnodes
  -- the part is synthesized at the path that has only its name
  have hrebased : Synthesizes owner ⟨head.name, []⟩ (.struct head typeName children)
      (op.relabel (path.rebase head.name) id) type := by
    rw [← path.below_nil] at hpart
    exact hpart.rebase head.name
  obtain ⟨d, ops, types, -, hd, hops, -, rfl, rfl⟩ := synthesizes_struct_iff.1 hpart
  have hname : path.rebase head.name path = ⟨head.name, []⟩ := by
    have h := path.rebase_below head.name []
    rwa [Path.below_nil] at h
  rw [Operation.relabel, hname] at hrebased
  refine ⟨_, synthesize_struct_iff.2 ⟨_, _, hrebased, rfl⟩, rfl, path, ops, ?_⟩
  have hhints := hints_of_isInfix hregular hnodes
  refine ⟨hop, rfl, ?_, htype, ?_⟩
  · have hmap := capacityHintsOfFields_rebase path head.name [] children
    rw [Path.below_nil, ← hhints] at hmap
    exact hmap.symm
  · intro q hq
    have hq' : q ∈ (Operation.preorderFields ops).map (·.2.path) ++
        (capacityHintsOfFields path children).map (·.path) := by
      rw [← hhints]
      exact hq
    obtain ⟨n, hn, rfl⟩ := exists_node_of_path hd hops hq'
    obtain ⟨steps, hsteps⟩ := Column.exists_path_nodesOfFields hn
    rw [hsteps]
    exact path.exists_text_rebase head.name steps

/-- Routes with stops, each with a name and notes, and tags. -/
def routes : Catalog :=
  .ofList "Route" [
    { name := "Route", fields := [
      { name := "stops", type := (TypeRef.list (.structOf "Stop")).withAverageSize 8 },
      { name := "tags", type := .list (.primitive "string") }] },
    { name := "Stop", fields := [
      { name := "name", type := .primitive "string" },
      { name := "notes", type := (TypeRef.list (.primitive "string")).withAverageSize 2 }] }]

/-- The stops within routes. -/
def stopsColumn : Column :=
  .struct ⟨2, "element", none⟩ "Stop" [
    .primitive ⟨3, "name", "name"⟩ .string,
    .list ⟨4, "notes", "notes"⟩ 2 (.primitive ⟨5, "element", none⟩ .string)]

/-- What is built for routes. -/
def routesSpecification : Specification where
  writerId := 0
  rootType := "Route"
  root := .struct ⟨0, "Route", none⟩ "Route" [
    .list ⟨1, "stops", "stops"⟩ 8 stopsColumn,
    .list ⟨6, "tags", "tags"⟩ 1 (.primitive ⟨7, "element", none⟩ .string)]
  fields := [
    ⟨"stops", .listOf (.struct [
      ⟨"name", .leaf .utf8, true⟩,
      ⟨"notes", .listOf (.leaf .utf8), true⟩]), true⟩,
    ⟨"tags", .listOf (.leaf .utf8), true⟩]
  hints := [⟨1, 2, 8, ⟨"Route", ["stops"]⟩⟩,
    ⟨4, 5, 2, ⟨"Route", ["stops", "element", "notes"]⟩⟩,
    ⟨6, 7, 1, ⟨"Route", ["tags"]⟩⟩]
  plan := [
    (⟨0, "stops"⟩, .list ⟨1, ⟨"Route", ["stops"]⟩⟩
      (.struct ⟨2, ⟨"Route", ["stops", "element"]⟩⟩ [
        (⟨0, "name"⟩, .primitive ⟨3, ⟨"Route", ["stops", "element", "name"]⟩⟩ .string),
        (⟨1, "notes"⟩, .list ⟨4, ⟨"Route", ["stops", "element", "notes"]⟩⟩
          (.primitive ⟨5, ⟨"Route", ["stops", "element", "notes", "element"]⟩⟩ .string))])),
    (⟨1, "tags"⟩, .list ⟨6, ⟨"Route", ["tags"]⟩⟩
      (.primitive ⟨7, ⟨"Route", ["tags", "element"]⟩⟩ .string))]

theorem compile_routes : compile routes = .ok routesSpecification.root := by
  have hroute : routes.describe "Route" = some { name := "Route", fields := [
      { name := "stops", type := (TypeRef.list (.structOf "Stop")).withAverageSize 8 },
      { name := "tags", type := .list (.primitive "string") }] } := by decide +kernel
  have hstop : routes.describe "Stop" = some { name := "Stop", fields := [
      { name := "name", type := .primitive "string" },
      { name := "notes", type := (TypeRef.list (.primitive "string")).withAverageSize 2 }] } := by
    decide +kernel
  have hstring : KindTag.parse? "string" = some (.scalar .string) := by decide +kernel
  have hstruct : KindTag.parse? "struct" = some .struct := by decide +kernel
  have hlist : KindTag.parse? "list" = some .list := by decide +kernel
  have hroot : routes.root = "Route" := by decide +kernel
  unfold compile
  rw [hroot, hroute]
  refine expandStruct_eq_ok (by simp) hroute ?_
  apply expandFields_cons_eq_ok (by simp)
  · refine expandType_list_eq_ok (TypeRef.tag_list hlist) rfl (by decide) ?_
    refine expandType_struct_eq_ok (TypeRef.tag_of_parse? hstruct rfl) rfl ?_
    refine expandStruct_eq_ok (by simp) hstop ?_
    apply expandFields_cons_eq_ok (by simp)
    · exact expandType_scalar_eq_ok (TypeRef.tag_of_parse? hstring rfl)
    apply expandFields_cons_eq_ok (by simp)
    · refine expandType_list_eq_ok (TypeRef.tag_list hlist) rfl (by decide) ?_
      exact expandType_scalar_eq_ok (TypeRef.tag_of_parse? hstring rfl)
    · exact expandFields_nil_eq_ok
  apply expandFields_cons_eq_ok (by simp)
  · refine expandType_list_eq_ok (TypeRef.tag_list hlist) rfl (by decide) ?_
    exact expandType_scalar_eq_ok (TypeRef.tag_of_parse? hstring rfl)
  · exact expandFields_nil_eq_ok

/-- The stops of routes have a specification of their own. -/
theorem stops_compositional :
    compile routes = .ok routesSpecification.root ∧
    synthesize routesSpecification.root routes.describe 0 = .ok routesSpecification ∧
    routesSpecification.root.descend? [0, 0] = some stopsColumn ∧
    ∃ part, synthesize stopsColumn routes.describe 0 = .ok part ∧
      (∃ path ops, routesSpecification.HasPart [0, 0] path ops part) ∧
      part.hints = [⟨4, 5, 2, ⟨"element", ["notes"]⟩⟩] := by
  have hwhole : synthesize routesSpecification.root routes.describe 0 = .ok routesSpecification :=
    rfl
  have hplace : routesSpecification.root.descend? [0, 0] = some stopsColumn := rfl
  obtain ⟨part, hpart, -, hhas⟩ :=
    synthesis_compositional compile_routes hwhole hplace
  refine ⟨compile_routes, hwhole, hplace, part, hpart, hhas, ?_⟩
  cases hpart
  rfl

end Columnar
