import Columnar.Proofs.Plan.Agreement
import Columnar.Proofs.Schema.Compilation

/-! # Trees that can be written

    A tree can be written if each of its columns can: structs have fields and
    their types are described by the owner, who offers an accessor for each of
    the fields; keys of maps are leaves.  Otherwise synthesizing ends with the
    first thing that is wrong.  What keeps a column from being stored comes
    before what keeps one from being read, wherever they are in the tree, and
    either of them is looked for in pre-order.

    An owner who describes what the tree was compiled from knows every type in
    it, so that only accessors can be missing there, and none is if types offer
    one for each field. -/

namespace Columnar

/-! ### Columns that can be written -/

/-- Values of the type have an accessor of that name. -/
def TypeDescription.Offers (d : TypeDescription) (accessor : String) : Prop :=
  accessor ∈ d.accessors.getD (d.fields.map FieldDescriptor.name)

instance (d : TypeDescription) (accessor : String) : Decidable (d.Offers accessor) :=
  inferInstanceAs (Decidable (accessor ∈ d.accessors.getD (d.fields.map FieldDescriptor.name)))

/-- The accessor that reads the column as a field. -/
def Column.accessorName (c : Column) : String := c.accessor.getD c.name

/-- The column can be stored, and its children can be read by accessors of the owner.  What is below
    the children does not matter. -/
def Column.Writable (owner : Owner) : Column → Prop
  | .primitive _ _ => True
  | .struct _ typeName children => children ≠ [] ∧
      ∃ d, owner typeName = some d ∧ ∀ child ∈ children, d.Offers child.accessorName
  | .list _ _ _ => True
  | .map _ key _ => ∃ head kind, key = .primitive head kind

/-- What keeps a column from being stored. -/
def Node.storageDefect? (n : Node) : Option PlanError :=
  match n.column with
  | .struct _ typeName [] => some (.emptyStruct n.path typeName)
  | .map _ (.primitive _ _) _ => none
  | .map _ key _ => some (.unsupportedMapKey n.path key.label)
  | _ => none

/-- What keeps a field from being read, if anything is known about the struct's type. -/
def Node.accessorDefect? (owner : Owner) (n : Node) : Option PlanError :=
  match n.role with
  | .part => none
  | .field typeName => (owner typeName).bind fun d =>
    if d.Offers n.column.accessorName then none
    else some (.unresolvedAccessor n.path d.name n.column.accessorName)

/-- What keeps the fields of a struct from being looked up. -/
def Node.typeDefect? (owner : Owner) (n : Node) : Option PlanError :=
  match n.column with
  | .struct _ typeName _ =>
    if (owner typeName).isNone then some (.unknownOwnerType n.path typeName) else none
  | _ => none

/-- What is wrong with a column and its owner.  A column is looked up before its fields are. -/
def Node.ownerDefects (owner : Owner) (n : Node) : List PlanError :=
  (n.accessorDefect? owner).toList ++ (n.typeDefect? owner).toList

/-- What keeps the tree of a row type from being written. -/
def Column.defects (owner : Owner) (root : Column) : List PlanError :=
  let nodes := root.nodes .part ⟨root.name, []⟩
  nodes.filterMap Node.storageDefect? ++ nodes.flatMap (Node.ownerDefects owner)

/-! ### First defects -/

/-- The error is the first of the defects; there is a result if there are none. -/
def Reports {ε α : Type} (result : Except ε α) (defects : List ε) : Prop :=
  match result with
  | .ok _ => defects = []
  | .error e => defects.head? = some e

namespace Reports

variable {ε α β : Type} {result : Except ε α} {defects : List ε}

/-- Two parts one after the other: the defects of the first one come first. -/
theorem bind {f : α → Except ε β} {more : List ε} (h : Reports result defects)
    (hf : ∀ a, result = .ok a → Reports (f a) more) : Reports (result >>= f) (defects ++ more) := by
  cases result with
  | error e =>
    show (defects ++ more).head? = some e
    rw [List.head?_append, h]
    rfl
  | ok a =>
    rw [show defects = [] from h]
    exact hf a rfl

theorem map {f : α → β} (h : Reports result defects) :
    Reports (result >>= fun a => .ok (f a)) defects := by
  rw [← List.append_nil defects]
  exact h.bind fun a _ => rfl

theorem exists_ok_iff (h : Reports result defects) : (∃ a, result = .ok a) ↔ defects = [] := by
  cases result with
  | ok a => exact ⟨fun _ => h, fun _ => ⟨a, rfl⟩⟩
  | error e =>
    refine ⟨nofun, fun hnone => ?_⟩
    rw [hnone] at h
    cases h

theorem error_iff (h : Reports result defects) {e : ε} :
    result = .error e ↔ defects.head? = some e := by
  cases result with
  | ok a =>
    rw [show defects = [] from h]
    exact ⟨nofun, nofun⟩
  | error e' =>
    rw [show defects.head? = some e' from h]
    constructor
    · intro heq
      cases heq
      rfl
    · intro heq
      cases heq
      rfl

end Reports

/-! ### Storage -/

mutual

theorem storageType_reports (role : Role) (path : Path) (c : Column) :
    Reports (storageType path c) ((c.nodes role path).filterMap Node.storageDefect?) := by
  match c with
  | .primitive head kind => rfl
  | .struct head typeName [] => rfl
  | .struct head typeName (child :: rest) =>
    have hnode : Node.storageDefect? ⟨.struct head typeName (child :: rest), path, role⟩ = none := rfl
    rw [Column.nodes, List.filterMap_cons_none hnode]
    exact (storageFields_reports typeName path (child :: rest)).map
  | .list head averageSize element =>
    have hnode : Node.storageDefect? ⟨.list head averageSize element, path, role⟩ = none := rfl
    rw [Column.nodes, List.filterMap_cons_none hnode]
    exact (storageType_reports .part (path.child element.name) element).map
  | .map head (.primitive keyHead kind) value =>
    have hnode : Node.storageDefect? ⟨.map head (.primitive keyHead kind) value, path, role⟩ = none :=
      rfl
    rw [Column.nodes, List.filterMap_cons_none hnode]
    exact (storageType_reports .part (path.child value.name) value).map
  -- keys that are no leaves, which nothing below the map comes before
  | .map head (.struct ..) value => rfl
  | .map head (.list ..) value => rfl
  | .map head (.map ..) value => rfl

theorem storageFields_reports (typeName : String) (path : Path) (columns : List Column) :
    Reports (storageFields path columns)
      ((Column.nodesOfFields typeName path columns).filterMap Node.storageDefect?) := by
  match columns with
  | [] => rfl
  | c :: rest =>
    rw [Column.nodesOfFields, List.filterMap_append]
    refine (storageType_reports _ (path.child c.name) c).bind fun type _ => ?_
    exact (storageFields_reports typeName path rest).map

end

/-! ### Accessors -/

theorem TypeDescription.offers_iff {d : TypeDescription} {accessor : String} :
    d.Offers accessor ↔ (d.resolveAccessor accessor).isSome := by
  unfold Offers resolveAccessor
  cases d.accessors with
  | none => simp [List.findIdx?_isSome]
  | some names => simp [List.findIdx?_isSome]

/-- What is wrong with a field and with the accessor for it, which is looked up first. -/
theorem flatMap_ownerDefects_field (owner : Owner) (typeName : String) (path : Path) (c : Column) :
    (c.nodes (.field typeName) path).flatMap (Node.ownerDefects owner) =
      (Node.accessorDefect? owner ⟨c, path, .field typeName⟩).toList ++
        (c.nodes .part path).flatMap (Node.ownerDefects owner) := by
  cases c <;> simp [Column.nodes, Node.ownerDefects, Node.accessorDefect?, Node.typeDefect?]

theorem resolveColumn_reports {owner : Owner} {typeName : String} {d : TypeDescription}
    (hd : owner typeName = some d) (path : Path) (c : Column) :
    Reports (resolveColumn d path c)
      (Node.accessorDefect? owner ⟨c, path, .field typeName⟩).toList := by
  have hname : c.accessor.getD c.name = c.accessorName := rfl
  unfold resolveColumn Node.accessorDefect?
  simp only [hd, hname, Option.bind_some, TypeDescription.offers_iff]
  cases d.resolveAccessor c.accessorName with
  | some index => rfl
  | none => rfl

/-- What is wrong with a struct itself, which nobody reads as a field. -/
theorem describeOwner_reports (owner : Owner) (path : Path) (head : ColumnHead)
    (typeName : String) (children : List Column) :
    Reports (describeOwner owner path typeName)
      (Node.ownerDefects owner ⟨.struct head typeName children, path, .part⟩) := by
  unfold describeOwner Node.ownerDefects Node.accessorDefect? Node.typeDefect?
  cases hd : owner typeName with
  | some d => simp [hd, Reports]
  | none => simp [hd, Reports]

mutual

theorem operation_reports (owner : Owner) (path : Path) (c : Column) :
    Reports (operation owner path c) ((c.nodes .part path).flatMap (Node.ownerDefects owner)) := by
  match c with
  | .primitive head kind => rfl
  | .struct head typeName children =>
    rw [Column.nodes, List.flatMap_cons]
    refine (describeOwner_reports owner path head typeName children).bind fun d hd => ?_
    exact (fieldOperations_reports (describeOwner_eq_ok hd) path children).map
  | .list head averageSize element =>
    have hnode : Node.ownerDefects owner ⟨.list head averageSize element, path, .part⟩ = [] := rfl
    rw [Column.nodes, List.flatMap_cons, hnode]
    exact (operation_reports owner (path.child element.name) element).map
  | .map head key value =>
    have hnode : Node.ownerDefects owner ⟨.map head key value, path, .part⟩ = [] := rfl
    rw [Column.nodes, List.flatMap_cons, hnode, List.nil_append, List.flatMap_append]
    refine (operation_reports owner (path.child key.name) key).bind fun keys _ => ?_
    exact (operation_reports owner (path.child value.name) value).map

theorem fieldOperations_reports {owner : Owner} {typeName : String} {d : TypeDescription}
    (hd : owner typeName = some d) (path : Path) (columns : List Column) :
    Reports (fieldOperations owner d path columns)
      ((Column.nodesOfFields typeName path columns).flatMap (Node.ownerDefects owner)) := by
  match columns with
  | [] => rfl
  | c :: rest =>
    rw [Column.nodesOfFields, List.flatMap_append, flatMap_ownerDefects_field, List.append_assoc]
    refine (resolveColumn_reports hd (path.child c.name) c).bind fun accessor _ => ?_
    refine (operation_reports owner (path.child c.name) c).bind fun op _ => ?_
    exact (fieldOperations_reports hd path rest).map

end

/-- Synthesizing for a struct column ends with the first of all defects. -/
theorem synthesize_reports (head : ColumnHead) (typeName : String) (children : List Column)
    (owner : Owner) (writerId : WriterId) :
    Reports (synthesize (.struct head typeName children) owner writerId)
      ((Column.struct head typeName children).defects owner) := by
  unfold Column.defects
  cases children with
  | nil => rfl
  | cons child rest =>
    have hroot : Node.storageDefect?
        ⟨.struct head typeName (child :: rest), ⟨head.name, []⟩, .part⟩ = none := rfl
    show Reports _ ((Column.nodes .part ⟨head.name, []⟩ _).filterMap Node.storageDefect? ++
      (Column.nodes .part ⟨head.name, []⟩ _).flatMap (Node.ownerDefects owner))
    rw [Column.nodes, List.filterMap_cons_none hroot, List.flatMap_cons]
    -- the storage of the fields, the type of the root, the operations of the fields
    refine (storageFields_reports typeName ⟨head.name, []⟩ (child :: rest)).bind fun fields _ => ?_
    refine (describeOwner_reports owner ⟨head.name, []⟩ head typeName (child :: rest)).bind
      fun d hd => ?_
    exact (fieldOperations_reports (describeOwner_eq_ok hd) ⟨head.name, []⟩ (child :: rest)).map

/-! ### Sorts of defects -/

theorem Node.cases_of_storageDefect? {n : Node} {e : PlanError} (h : n.storageDefect? = some e) :
    (∃ path typeName, e = .emptyStruct path typeName) ∨
      ∃ path kind, e = .unsupportedMapKey path kind := by
  unfold storageDefect? at h
  split at h <;> cases h
  · exact .inl ⟨_, _, rfl⟩
  · exact .inr ⟨_, _, rfl⟩

theorem Node.eq_of_accessorDefect? {owner : Owner} {n : Node} {e : PlanError}
    (h : n.accessorDefect? owner = some e) :
    ∃ path typeName accessor, e = .unresolvedAccessor path typeName accessor := by
  unfold accessorDefect? at h
  split at h
  · cases h
  · obtain ⟨d, -, h⟩ := Option.bind_eq_some_iff.1 h
    split at h <;> cases h
    exact ⟨_, _, _, rfl⟩

/-! ### Nothing wrong -/

/-- Nothing keeps the node from being stored or read. -/
def Node.Sound (owner : Owner) (n : Node) : Prop :=
  n.storageDefect? = none ∧ n.accessorDefect? owner = none ∧ n.typeDefect? owner = none

theorem Node.accessorDefect?_eq_none_iff {owner : Owner} {n : Node} {typeName : String}
    {d : TypeDescription} (hrole : n.role = .field typeName) (hd : owner typeName = some d) :
    n.accessorDefect? owner = none ↔ d.Offers n.column.accessorName := by
  unfold accessorDefect?
  rw [hrole]
  simp [hd]

theorem Column.defects_eq_nil_iff {owner : Owner} {root : Column} : root.defects owner = [] ↔
    ∀ n ∈ root.nodes .part ⟨root.name, []⟩, n.Sound owner := by
  unfold Column.defects
  simp only [List.append_eq_nil_iff, List.filterMap_eq_nil_iff, List.flatMap_eq_nil_iff,
    Node.ownerDefects, Option.toList_eq_nil_iff]
  constructor
  · rintro ⟨hstorage, howner⟩ n hn
    exact ⟨hstorage n hn, howner n hn⟩
  · intro h
    exact ⟨fun n hn => (h n hn).1, fun n hn => (h n hn).2⟩

/-- A struct column can be written if nothing is wrong with it, nor with the accessors of its
    children. -/
theorem Column.writable_struct_iff {owner : Owner} {head : ColumnHead} {typeName : String}
    {children : List Column} (path : Path) (role : Role) :
    (Column.struct head typeName children).Writable owner ↔
      Node.storageDefect? ⟨.struct head typeName children, path, role⟩ = none ∧
      Node.typeDefect? owner ⟨.struct head typeName children, path, role⟩ = none ∧
      ∀ child ∈ children, Node.accessorDefect? owner
        ⟨child, path.child child.name, .field typeName⟩ = none := by
  have hstorage : Node.storageDefect? ⟨.struct head typeName children, path, role⟩ = none ↔
      children ≠ [] := by
    cases children <;> simp [Node.storageDefect?]
  rw [hstorage]
  unfold Writable Node.typeDefect?
  cases hd : owner typeName with
  | none => simp [hd]
  | some d => simp [hd, Node.accessorDefect?_eq_none_iff (n := ⟨_, _, .field typeName⟩) rfl hd]

mutual

theorem Column.sound_nodes_iff (owner : Owner) (role : Role) (path : Path) (c : Column) :
    (∀ n ∈ c.nodes role path, n.Sound owner) ↔
      Node.accessorDefect? owner ⟨c, path, role⟩ = none ∧
        ∀ column ∈ c.preorder, column.Writable owner := by
  match c with
  | .primitive head kind =>
    simp [Column.nodes, Column.preorder, Node.Sound, Node.storageDefect?, Node.typeDefect?,
      Writable]
  | .struct head typeName children =>
    rw [Column.nodes, Column.preorder, List.forall_mem_cons, List.forall_mem_cons,
      sound_nodesOfFields_iff owner typeName path children,
      Column.writable_struct_iff path role]
    unfold Node.Sound
    tauto
  | .list head averageSize element =>
    rw [Column.nodes, Column.preorder, List.forall_mem_cons, List.forall_mem_cons,
      sound_nodes_iff owner .part _ element]
    simp [Node.Sound, Node.storageDefect?, Node.typeDefect?, Node.accessorDefect?, Writable]
  | .map head key value =>
    rw [Column.nodes, Column.preorder, List.forall_mem_cons, List.forall_mem_cons,
      List.forall_mem_append, List.forall_mem_append, sound_nodes_iff owner .part _ key,
      sound_nodes_iff owner .part _ value]
    have hkey : Node.storageDefect? ⟨.map head key value, path, role⟩ = none ↔
        (Column.map head key value).Writable owner := by
      cases key <;> simp [Node.storageDefect?, Writable]
    have htype : Node.typeDefect? owner ⟨.map head key value, path, role⟩ = none := rfl
    have hpart : ∀ c path, Node.accessorDefect? owner ⟨c, path, .part⟩ = none := fun c path => rfl
    simp only [Node.Sound, hkey, htype, hpart]
    tauto

theorem Column.sound_nodesOfFields_iff (owner : Owner) (typeName : String) (path : Path)
    (columns : List Column) :
    (∀ n ∈ Column.nodesOfFields typeName path columns, n.Sound owner) ↔
      (∀ child ∈ columns, Node.accessorDefect? owner
        ⟨child, path.child child.name, .field typeName⟩ = none) ∧
        ∀ column ∈ preorderChildren columns, column.Writable owner := by
  match columns with
  | [] => simp [Column.nodesOfFields, preorderChildren]
  | c :: rest =>
    rw [Column.nodesOfFields, preorderChildren, List.forall_mem_append, List.forall_mem_append,
      List.forall_mem_cons, sound_nodes_iff owner _ _ c,
      sound_nodesOfFields_iff owner typeName path rest]
    tauto

end

/-! ### Owners that know the types -/

/-- A struct column has a child for each field that its type declares, in the same order. -/
def Column.Declared (c : Catalog) : Column → Prop
  | .struct _ typeName children => ∃ d, c.describe typeName = some d ∧
      children.map (fun child => (child.name, child.accessor)) =
        d.fields.map fun f => (f.name, some f.accessorName)
  | _ => True

theorem Catalog.Unfolds.head_eq {c : Catalog} {head : ColumnHead} {t : TypeRef} {column : Column}
    (h : c.Unfolds head t column) : column.head = head := by
  cases h <;> rfl

mutual

theorem Catalog.Unfolds.declared {c : Catalog} {head : ColumnHead} {t : TypeRef} {column : Column}
    (h : c.Unfolds head t column) : ∀ below ∈ column.preorder, below.Declared c := by
  match column with
  | .primitive head kind =>
    rw [Column.preorder, List.forall_mem_singleton]
    trivial
  | .struct head typeName children =>
    rw [Column.preorder, List.forall_mem_cons]
    cases h with
    | struct _ _ hd hchildren =>
      obtain ⟨hnames, hbelow⟩ := hchildren.declared
      exact ⟨⟨_, hd, hnames⟩, hbelow⟩
  | .list head averageSize element =>
    rw [Column.preorder, List.forall_mem_cons]
    cases h with
    | list _ _ helement => exact ⟨trivial, helement.declared⟩
  | .map head key value =>
    rw [Column.preorder, List.forall_mem_cons, List.forall_mem_append]
    cases h with
    | map _ _ _ hkey hvalue => exact ⟨trivial, hkey.declared, hvalue.declared⟩

theorem Catalog.UnfoldsFields.declared {c : Catalog} {next : ColumnId}
    {fields : List FieldDescriptor} {columns : List Column}
    (h : c.UnfoldsFields next fields columns) :
    columns.map (fun child => (child.name, child.accessor)) =
        fields.map (fun f => (f.name, some f.accessorName)) ∧
      ∀ below ∈ Column.preorderChildren columns, below.Declared c := by
  match columns with
  | [] =>
    cases h
    exact ⟨rfl, by simp [Column.preorderChildren]⟩
  | column :: columns =>
    cases h with
    | cons hcolumn hrest =>
      obtain ⟨hnames, hbelow⟩ := hrest.declared
      refine ⟨?_, ?_⟩
      · rw [List.map_cons, List.map_cons, hnames, Column.name, Column.accessor, hcolumn.head_eq]
      · rw [Column.preorderChildren, List.forall_mem_append]
        exact ⟨hcolumn.declared, hbelow⟩

end

/-- Every struct column of a compiled tree has the fields of its type, which is described. -/
theorem declared_of_compile {c : Catalog} {root : Column} (h : compile c = .ok root) :
    ∀ column ∈ root.preorder, column.Declared c := by
  have hunfolds := ((compile_settled c).ok_iff.1 h).2
  cases hunfolds with
  | mk hd hchildren =>
    obtain ⟨hnames, hbelow⟩ := hchildren.declared
    rw [Column.preorder, List.forall_mem_cons]
    exact ⟨⟨_, hd, hnames⟩, hbelow⟩

/-- The catalog that a tree was compiled from has a description of every struct type in it. -/
theorem typeDefect?_describe {c : Catalog} {root : Column} (h : compile c = .ok root) {n : Node}
    (hn : n ∈ root.nodes .part ⟨root.name, []⟩) : n.typeDefect? c.describe = none := by
  have hmem : n.column ∈ root.preorder := by
    rw [← root.map_column_nodes .part ⟨root.name, []⟩]
    exact List.mem_map_of_mem hn
  have hdeclared := declared_of_compile h n.column hmem
  unfold Node.typeDefect?
  split
  · next head typeName children hcolumn =>
    rw [hcolumn] at hdeclared
    obtain ⟨d, hd, -⟩ := hdeclared
    simp [hd]
  · rfl

theorem Column.RegularFrom.nodup_names {next : ColumnId} {columns : List Column}
    (h : RegularFrom next columns) : (columns.map Column.name).Nodup := by
  induction columns generalizing next with
  | nil => exact .nil
  | cons c rest ih =>
    obtain ⟨⟨-, -, hname⟩, -, hrest⟩ := h
    rw [List.map_cons, List.nodup_cons]
    refine ⟨?_, ih hrest⟩
    intro hmem
    obtain ⟨other, hother, heq⟩ := List.mem_map.1 hmem
    exact hname other hother heq

/-- Types that offer an accessor for each field offer it in the field's place. -/
theorem resolveColumn_of_plain {c : Catalog} {root : Column} (h : compile c = .ok root)
    {head : ColumnHead} {typeName : String} {children : List Column} {d : TypeDescription}
    (hmem : .struct head typeName children ∈ root.preorder) (hd : c.describe typeName = some d)
    (hoffered : d.accessors = none) (hplain : ∀ f ∈ d.fields, f.accessor = none)
    {i : Nat} {child : Column} (hchild : children[i]? = some child) (path : Path) :
    resolveColumn d path child = .ok ⟨i, child.name⟩ := by
  obtain ⟨-, -, hregular⟩ := compile_regular h
  have hnodup : (children.map Column.name).Nodup :=
    Column.RegularFrom.nodup_names (hregular.of_mem_preorder hmem)
  obtain ⟨d', hd', hfields⟩ := declared_of_compile h _ hmem
  cases hd.symm.trans hd'
  have hnames : children.map Column.name = d.fields.map FieldDescriptor.name := by
    have hfirst := congrArg (List.map Prod.fst) hfields
    simpa [Function.comp_def] using hfirst
  -- the field of the column has its name, and so has the accessor
  have hentry := congrArg (fun entries => entries[i]?) hfields
  simp only [List.getElem?_map, hchild, Option.map_some] at hentry
  obtain ⟨f, hf, hentry⟩ := Option.map_eq_some_iff.1 hentry.symm
  obtain ⟨hname, haccessor⟩ := Prod.mk.inj hentry
  obtain ⟨hi, hget⟩ := List.getElem?_eq_some_iff.1 hf
  have haccessorName : child.accessor.getD child.name = child.name := by
    rw [← haccessor, Option.getD_some, FieldDescriptor.accessorName,
      hplain f (List.mem_of_getElem? hf), Option.getD_none, hname]
  -- no field before it is called the same
  have hresolve : d.resolveAccessor child.name = some i := by
    unfold TypeDescription.resolveAccessor
    rw [hoffered]
    refine List.findIdx?_eq_some_iff_getElem.2 ⟨hi, ?_, fun j hj => ?_⟩
    · rw [hget, hname, beq_self_eq_true]
    · rw [hnames] at hnodup
      have hne := List.pairwise_iff_getElem.1 hnodup j i (by simpa using Nat.lt_trans hj hi)
        (by simpa using hi) hj
      rw [List.getElem_map, List.getElem_map, hget, hname] at hne
      simpa using hne
  unfold resolveColumn
  simp only [haccessorName, hresolve]

/-! ### Synthesizing -/

/-- For a compiled tree, synthesizing succeeds if every column can be written with the accessors of
    the owner, and ends with the first defect otherwise: columns that cannot be stored come before
    those that cannot be read.  With the catalog itself as the owner only accessors can be missing
    among the latter, and types that offer one for each field have them in the fields' places. -/
theorem synthesize_iff_writable {c : Catalog} {root : Column} (hcompile : compile c = .ok root)
    (owner : Owner) (writerId : WriterId) :
    ((∃ s, synthesize root owner writerId = .ok s) ↔
      ∀ column ∈ root.preorder, column.Writable owner) ∧
    (∀ e, synthesize root owner writerId = .error e ↔ (root.defects owner).head? = some e) ∧
    (∀ e, synthesize root c.describe writerId = .error e →
      (∃ path typeName, e = .emptyStruct path typeName) ∨
      (∃ path kind, e = .unsupportedMapKey path kind) ∨
      ∃ path typeName accessor, e = .unresolvedAccessor path typeName accessor) ∧
    ∀ head typeName children d, .struct head typeName children ∈ root.preorder →
      c.describe typeName = some d → d.accessors = none → (∀ f ∈ d.fields, f.accessor = none) →
      ∀ i child, children[i]? = some child → ∀ path,
        resolveColumn d path child = .ok ⟨i, child.name⟩ := by
  obtain ⟨children, hroot, -⟩ := compile_regular hcompile
  have hreports : ∀ owner, Reports (synthesize root owner writerId) (root.defects owner) := by
    intro owner
    rw [hroot]
    exact synthesize_reports _ _ _ owner writerId
  refine ⟨?_, fun e => (hreports owner).error_iff, fun e he => ?_, ?_⟩
  · rw [(hreports owner).exists_ok_iff, Column.defects_eq_nil_iff, Column.sound_nodes_iff]
    exact and_iff_right rfl
  · have hfirst := List.mem_of_head? ((hreports c.describe).error_iff.1 he)
    unfold Column.defects at hfirst
    rcases List.mem_append.1 hfirst with hstorage | howner
    · obtain ⟨n, -, hdefect⟩ := List.mem_filterMap.1 hstorage
      rcases Node.cases_of_storageDefect? hdefect with h | h
      · exact .inl h
      · exact .inr (.inl h)
    · obtain ⟨n, hn, hdefect⟩ := List.mem_flatMap.1 howner
      rw [Node.ownerDefects, typeDefect?_describe hcompile hn, Option.toList_none,
        List.append_nil, Option.mem_toList] at hdefect
      exact .inr (.inr (Node.eq_of_accessorDefect? hdefect))
  · intro head typeName children d hmem hd hoffered hplain i child hchild path
    exact resolveColumn_of_plain hcompile hmem hd hoffered hplain hchild path

/-- An owner who knows no buyers, and no tags of orders. -/
def clerks : Owner := fun typeName =>
  if typeName = "Order" then some { name := "Order", accessors := some ["id", "buyer"] } else none

/-- The catalog of orders is an owner whose accessors write them; for the clerks the buyers are
    wrong before the tags are. -/
theorem orders_writable :
    (∀ column ∈ ordersSpecification.root.preorder, column.Writable orders.describe) ∧
    synthesize ordersSpecification.root clerks 0 =
      .error (.unknownOwnerType ⟨"Order", ["buyer"]⟩ "Buyer") ∧
    ∃ d, orders.describe "Order" = some d ∧
      ∀ child, ordersSpecification.root.children[2]? = some child →
        resolveColumn d ⟨"Order", ["tags"]⟩ child = .ok ⟨2, child.name⟩ := by
  refine ⟨(synthesize_iff_writable compile_orders orders.describe 0).1.1 ⟨_, synthesize_orders⟩,
    ((synthesize_iff_writable compile_orders clerks 0).2.1 _).2 (by decide +kernel), ?_⟩
  obtain ⟨-, -, -, hplain⟩ := synthesize_iff_writable compile_orders orders.describe 0
  obtain ⟨d, hd, haccessors, hfields⟩ : ∃ d, orders.describe "Order" = some d ∧
      d.accessors = none ∧ ∀ f ∈ d.fields, f.accessor = none :=
    ⟨_, rfl, rfl, by decide +kernel⟩
  refine ⟨d, hd, fun child hchild => ?_⟩
  have hroot : .struct ⟨0, "Order", none⟩ "Order" ordersSpecification.root.children ∈
      ordersSpecification.root.preorder := List.mem_cons_self
  exact hplain _ _ _ d hroot hd haccessors hfields 2 child hchild _

end Columnar
