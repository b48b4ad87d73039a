import Columnar.Proofs.Plan.Listing

/-! # Recovering plans from listings

    The lines of a listing tell columns, depths, sources and the texts of
    paths.  From the depths the plan is put together again: what is below an
    operation is listed behind it and deeper, up to the first operation that is
    not deeper.  The name of a column is what its path has more than that of
    the column around it.

    Only the name of the root is not told by its children's paths, since names
    may have points in them.  But a longer name would leave less of these paths
    to each of the children, and the type of the rows tells how long their
    names are together.  So a listing determines the plan
    (`render_eq_iff`). -/

namespace Columnar

/-! ### Operations and those below them -/

/-- The entries of what is below an operation. -/
def Operation.entriesBelow (depth : Nat) : Operation → List PlanEntry
  | .primitive _ _ => []
  | .struct _ fields => Operation.fieldEntries (depth + 1) fields
  | .list _ element => Operation.entries (depth + 1) .element element
  | .map _ key value =>
    Operation.entries (depth + 1) .element key ++ Operation.entries (depth + 1) .element value

theorem Operation.entries_eq_cons (depth : Nat) (source : Source) (op : Operation) :
    op.entries depth source = ⟨depth, op.target, source, op.label⟩ :: op.entriesBelow depth := by
  cases op <;> rfl

/-- The operations append to columns of one sort, leaves of one kind. -/
inductive Operation.Alike : Operation → Operation → Prop where
  | primitive {t t' : Target} {kind : PrimitiveKind} :
      Alike (.primitive t kind) (.primitive t' kind)
  | struct {t t' : Target} {fields fields' : List (Accessor × Operation)} :
      Alike (.struct t fields) (.struct t' fields')
  | list {t t' : Target} {element element' : Operation} :
      Alike (.list t element) (.list t' element')
  | map {t t' : Target} {key key' value value' : Operation} :
      Alike (.map t key value) (.map t' key' value')

theorem Operation.alike_of_label {op op' : Operation} (h : op.label = op'.label) :
    Alike op op' := by
  have hnested : ∀ (kind : PrimitiveKind) (label : String), label ∈ ["struct", "list", "map"] →
      kind.typeName ≠ label := fun kind _ => kind.typeName_ne_nested
  cases op with
  | primitive t kind =>
    cases op' with
    | primitive t' kind' =>
      obtain rfl := PrimitiveKind.typeName_inj h
      exact .primitive
    | struct => exact absurd h (hnested kind "struct" (by decide))
    | list => exact absurd h (hnested kind "list" (by decide))
    | map => exact absurd h (hnested kind "map" (by decide))
  | struct t fields =>
    cases op' with
    | struct => exact .struct
    | primitive t' kind => exact absurd h.symm (hnested kind "struct" (by decide))
    | list => exact absurd (show "struct" = "list" from h) (by decide)
    | map => exact absurd (show "struct" = "map" from h) (by decide)
  | list t element =>
    cases op' with
    | list => exact .list
    | primitive t' kind => exact absurd h.symm (hnested kind "list" (by decide))
    | struct => exact absurd (show "list" = "struct" from h) (by decide)
    | map => exact absurd (show "list" = "map" from h) (by decide)
  | map t key value =>
    cases op' with
    | map => exact .map
    | primitive t' kind => exact absurd h.symm (hnested kind "map" (by decide))
    | struct => exact absurd (show "map" = "struct" from h) (by decide)
    | list => exact absurd (show "map" = "list" from h) (by decide)

theorem Plans.target_eq {path : Path} {c : Column} {op : Operation} (h : Plans path c op) :
    op.target = ⟨c.id, path⟩ := by
  cases h <;> rfl

/-- The next line, if there is one, is of a lesser depth. -/
def Outside (depth : Nat) (rest : List Listed) : Prop :=
  ∀ l ∈ rest.head?, l.depth < depth

namespace Outside

variable {depth : Nat} {rest : List Listed}

theorem nil : Outside depth [] :=
  fun _ h => absurd h (by simp)

theorem mono {depth' : Nat} (h : Outside depth rest) (hle : depth ≤ depth') :
    Outside depth' rest :=
  fun l hl => Nat.lt_of_lt_of_le (h l hl) hle

theorem entries (source : Source) (op : Operation) :
    Outside (depth + 1) ((op.entries depth source).map PlanEntry.listed ++ rest) := by
  intro l hl
  rw [Operation.entries_eq_cons, List.map_cons] at hl
  obtain rfl := Option.mem_some.1 hl
  exact Nat.lt_succ_self depth

theorem fieldEntries (h : Outside depth rest) (fields : List (Accessor × Operation)) :
    Outside (depth + 1) ((Operation.fieldEntries depth fields).map PlanEntry.listed ++ rest) := by
  cases fields with
  | nil => exact h.mono (Nat.le_succ depth)
  | cons field fields =>
    rw [Operation.fieldEntries, List.map_append, List.append_assoc]
    exact entries _ _

/-- Fields of that depth are not listed there. -/
theorem ne_fieldEntries (h : Outside depth rest) (field : Accessor × Operation)
    (fields : List (Accessor × Operation)) (rest' : List Listed) :
    rest ≠ (Operation.fieldEntries depth (field :: fields)).map PlanEntry.listed ++ rest' := by
  rintro rfl
  rw [Operation.fieldEntries, Operation.entries_eq_cons] at h
  exact absurd (h _ (Option.mem_some_self _)) (Nat.lt_irrefl depth)

end Outside

section Recovery

variable {p q : Path} {depth : Nat} {rest rest' : List Listed}

/-- The first line of an operation tells what its column is, and what it does with it. -/
theorem Plans.head_inj {c d : Column} {op op' : Operation} {source source' : Source}
    (h : Plans p c op) (h' : Plans q d op')
    (heq : (op.entries depth source).map PlanEntry.listed ++ rest =
      (op'.entries depth source').map PlanEntry.listed ++ rest') :
    c.id = d.id ∧ p.text = q.text ∧ source = source' ∧ op.label = op'.label ∧
      (op.entriesBelow depth).map PlanEntry.listed ++ rest =
        (op'.entriesBelow depth).map PlanEntry.listed ++ rest' := by
  rw [Operation.entries_eq_cons, Operation.entries_eq_cons, List.map_cons, List.map_cons,
    List.cons_append, List.cons_append] at heq
  obtain ⟨hhead, hbelow⟩ := List.cons.inj heq
  rw [PlanEntry.listed, PlanEntry.listed, h.target_eq, h'.target_eq] at hhead
  obtain ⟨-, hid, htext, hsource, hlabel⟩ := Listed.mk.inj hhead
  exact ⟨hid, htext, hsource, hlabel, hbelow⟩

/-- The columns have one shape, and as children of the columns with these paths they have paths of
    one text. -/
def Column.Matches (p q : Path) (c d : Column) : Prop :=
  c.shape = d.shape ∧ (p.child c.name).text = (q.child d.name).text

theorem fieldShapes_eq_of_matches {columns others : List Column} (hpq : p.text = q.text)
    (h : List.Forall₂ (Column.Matches p q) columns others) :
    Column.fieldShapes columns = Column.fieldShapes others := by
  induction h with
  | nil => rfl
  | cons hc _ ih =>
    rw [Column.fieldShapes, Column.fieldShapes, hc.1, Path.child_text_inj hpq hc.2, ih]

mutual

/-- Columns whose operations are listed by the same lines have the same shape.  If they have the
    same path, then their operations are the same. -/
theorem Plans.eq_of_listed {p q : Path} {c d : Column} {op op' : Operation} (h : Plans p c op)
    (h' : Plans q d op') {depth : Nat} {source source' : Source} {rest rest' : List Listed}
    (hrest : Outside (depth + 1) rest) (hrest' : Outside (depth + 1) rest')
    (heq : (op.entries depth source).map PlanEntry.listed ++ rest =
      (op'.entries depth source').map PlanEntry.listed ++ rest') :
    c.shape = d.shape ∧ (p = q → op = op') ∧ rest = rest' := by
  obtain ⟨hid, htext, -, hlabel, hbelow⟩ := h.head_inj h' heq
  have halike := Operation.alike_of_label hlabel
  clear heq hlabel
  -- by induction on the first plan; operations of one label are made by one constructor
  match h with
  | @Plans.primitive _ head kind =>
    cases halike
    cases h' with
    | @primitive _ head' =>
      have hid : head.id = head'.id := hid
      refine ⟨rfl, fun hpq => ?_, hbelow⟩
      rw [hid, hpq]
  | @Plans.struct _ head _ _ _ hfields =>
    cases halike
    cases h' with
    | @struct _ head' _ _ _ hfields' =>
      have hid : head.id = head'.id := hid
      obtain ⟨hmatches, hops, hrest⟩ := hfields.eq_of_listed hfields' hrest hrest' hbelow
      refine ⟨?_, fun hpq => ?_, hrest⟩
      · rw [Column.shape, Column.shape, fieldShapes_eq_of_matches htext hmatches]
      · rw [hid, hops hpq, hpq]
  | @Plans.list _ head _ _ _ helement =>
    cases halike
    cases h' with
    | @list _ head' _ _ _ helement' =>
      have hid : head.id = head'.id := hid
      obtain ⟨-, hchild, -, -, -⟩ := helement.head_inj helement' hbelow
      obtain ⟨hshape, hop, hrest⟩ := helement.eq_of_listed helement' (hrest.mono (Nat.le_succ _))
        (hrest'.mono (Nat.le_succ _)) hbelow
      refine ⟨?_, fun hpq => ?_, hrest⟩
      · rw [Column.shape, Column.shape, hshape]
      · rw [hid, hop (by rw [hpq, Path.child_text_inj htext hchild]), hpq]
  | @Plans.map _ head _ _ _ _ hkey hvalue =>
    cases halike
    cases h' with
    | @map _ head' _ _ _ _ hkey' hvalue' =>
      have hid : head.id = head'.id := hid
      rw [Operation.entriesBelow, Operation.entriesBelow, List.map_append, List.map_append,
        List.append_assoc, List.append_assoc] at hbelow
      -- what is listed behind the key is the value, at the same depth
      have hbehind : ∀ (op : Operation) (rest : List Listed), Outside (depth + 1 + 1)
          ((op.entries (depth + 1) .element).map PlanEntry.listed ++ rest) :=
        fun op _ => Outside.entries .element op
      obtain ⟨-, hkeyChild, -, -, -⟩ := hkey.head_inj hkey' hbelow
      obtain ⟨hkeyShape, hkeyOp, hbelow⟩ :=
        hkey.eq_of_listed hkey' (hbehind _ _) (hbehind _ _) hbelow
      obtain ⟨-, hvalueChild, -, -, -⟩ := hvalue.head_inj hvalue' hbelow
      obtain ⟨hvalueShape, hvalueOp, hrest⟩ := hvalue.eq_of_listed hvalue'
        (hrest.mono (Nat.le_succ _)) (hrest'.mono (Nat.le_succ _)) hbelow
      refine ⟨?_, fun hpq => ?_, hrest⟩
      · rw [Column.shape, Column.shape, hkeyShape, hvalueShape]
      · rw [hid, hkeyOp (by rw [hpq, Path.child_text_inj htext hkeyChild]),
          hvalueOp (by rw [hpq, Path.child_text_inj htext hvalueChild]), hpq]

/-- So it is for the fields of two structs, one by one, whatever the paths of the structs are. -/
theorem PlansFields.eq_of_listed {p q : Path} {columns others : List Column}
    {fields fields' : List (Accessor × Operation)} (h : PlansFields p columns fields)
    (h' : PlansFields q others fields') {depth : Nat} {rest rest' : List Listed}
    (hrest : Outside depth rest) (hrest' : Outside depth rest')
    (heq : (Operation.fieldEntries depth fields).map PlanEntry.listed ++ rest =
      (Operation.fieldEntries depth fields').map PlanEntry.listed ++ rest') :
    List.Forall₂ (Column.Matches p q) columns others ∧ (p = q → fields = fields') ∧
      rest = rest' := by
  match h, h' with
  | .nil, .nil => exact ⟨.nil, fun _ => rfl, heq⟩
  | .nil, .cons _ _ => exact absurd heq (hrest.ne_fieldEntries _ _ _)
  | .cons _ _, .nil => exact absurd heq.symm (hrest'.ne_fieldEntries _ _ _)
  | .cons hop hops, .cons hop' hops' =>
    rw [Operation.fieldEntries, Operation.fieldEntries, List.map_append, List.map_append,
      List.append_assoc, List.append_assoc] at heq
    obtain ⟨-, htext, hsource, -, -⟩ := hop.head_inj hop' heq
    obtain ⟨hshape, hopEq, heq⟩ := hop.eq_of_listed hop' (hrest.fieldEntries _)
      (hrest'.fieldEntries _) heq
    obtain ⟨hmatches, hopsEq, hrest⟩ := hops.eq_of_listed hops' hrest hrest' heq
    refine ⟨.cons ⟨hshape, htext⟩ hmatches, fun hpq => ?_, hrest⟩
    subst hpq
    rw [Source.field.inj hsource, hopEq (by rw [Path.child_text_inj rfl htext]), hopsEq rfl]

end

/-! ### The root -/

/-- The longer the path of a struct is, the less is left to the names of its fields. -/
theorem length_behindField {columns others : List Column}
    (h : List.Forall₂ (Column.Matches p q) columns others) (closing : List Char) :
    (Shape.behindField (Column.fieldShapes columns) closing).length
        + columns.length * p.text.length =
      (Shape.behindField (Column.fieldShapes others) closing).length
        + columns.length * q.text.length := by
  induction h with
  | nil => simp [Column.fieldShapes]
  | @cons c d columns others hc _ ih =>
    have hlength := congrArg String.length hc.2
    rw [Path.text_child, Path.text_child] at hlength
    have hshape := congrArg (fun s => s.text.length) hc.1
    simp only [Column.fieldShapes, Shape.behindField, List.length_cons, List.length_append,
      String.length_toList, String.length_append, Nat.succ_mul] at ih hshape hlength ⊢
    omega

/-- Structs have the same name if their fields have paths of the same texts, and their types too. -/
theorem root_name_eq {name name' : String} {columns others : List Column} (hne : columns ≠ [])
    (h : List.Forall₂ (Column.Matches ⟨name, []⟩ ⟨name', []⟩) columns others)
    (htype : (Shape.struct (Column.fieldShapes columns)).text =
      (Shape.struct (Column.fieldShapes others)).text) : name = name' := by
  have hsum := length_behindField h []
  cases h with
  | nil => exact absurd rfl hne
  | @cons c d columns others hc hrest =>
    have hbehind := Shape.behindField_eq_of_text htype
    have hlength : name.length = name'.length := by
      rw [Path.text_root, Path.text_root, Column.fieldShapes, Column.fieldShapes, hbehind] at hsum
      exact Nat.eq_of_mul_eq_mul_left (by simp) (Nat.add_left_cancel hsum)
    have htext := congrArg String.toList hc.2
    simp only [Path.text_child, Path.text_root, String.append_assoc, String.toList_append] at htext
    rw [← String.length_toList, ← String.length_toList] at hlength
    exact String.toList_inj.1 (List.append_inj htext hlength).1

/-- Operations tell the name of the root above them. -/
theorem PlansFields.root_eq {columns others : List Column} {fields : List (Accessor × Operation)}
    (h : PlansFields p columns fields) (h' : PlansFields q others fields) (hne : columns ≠ []) :
    p.root = q.root := by
  match h, h' with
  | .nil, .nil => exact absurd rfl hne
  | .cons hop _, .cons hop' _ =>
    have htarget := hop.target_eq.symm.trans hop'.target_eq
    exact congrArg (fun t : Target => t.path.root) htarget

section Roots

variable {name name' : String} {columns others : List Column}
  {fields fields' : List (Accessor × Operation)} (h : PlansFields ⟨name, []⟩ columns fields)
  (h' : PlansFields ⟨name', []⟩ others fields')

include h h'

/-- The lines of the operations below a root and the text of its type tell the shapes of its fields,
    and what the operations are. -/
theorem PlansFields.eq_of_typed_listing (hne : columns ≠ [])
    (htype : (Shape.struct (Column.fieldShapes columns)).text =
      (Shape.struct (Column.fieldShapes others)).text)
    (hlisted : (Operation.fieldEntries 0 fields).map PlanEntry.listed =
      (Operation.fieldEntries 0 fields').map PlanEntry.listed) :
    Column.fieldShapes columns = Column.fieldShapes others ∧ fields = fields' := by
  -- nothing is listed behind them
  rw [← List.append_nil (List.map _ (Operation.fieldEntries 0 fields)),
    ← List.append_nil (List.map _ (Operation.fieldEntries 0 fields'))] at hlisted
  obtain ⟨hmatches, hfields, -⟩ := h.eq_of_listed h' .nil .nil hlisted
  obtain rfl := root_name_eq hne hmatches htype
  exact ⟨fieldShapes_eq_of_matches rfl hmatches, hfields rfl⟩

/-- The operations below a root tell the shapes of its fields. -/
theorem PlansFields.shapes_eq_of_fields (hne : columns ≠ []) (hfields : fields = fields') :
    Column.fieldShapes columns = Column.fieldShapes others := by
  subst hfields
  have hend : Outside 0 [] := .nil
  obtain ⟨hmatches, -, -⟩ := h.eq_of_listed h' hend hend rfl
  have hname : name = name' := h.root_eq h' hne
  exact fieldShapes_eq_of_matches (by rw [hname]) hmatches

end Roots

end Recovery

/-! ### Hints and storage -/

/-- The hints of a specification are for the columns of the plan's lists. -/
theorem target_hints_of_synthesize {root : Column} {owner : Owner} {writerId : WriterId}
    {s : Specification} (hs : synthesize root owner writerId = .ok s) :
    s.hints.map CapacityHint.target =
      ((Operation.preorderFields s.plan).filter (·.2.isList)).map (·.2.target) := by
  have hfilled := filled_of_synthesize hs
  obtain ⟨head, typeName, children, _, _, _, rfl, -, -, -, -, rfl⟩ := exists_of_synthesize_eq_ok hs
  have hhints := capacityHintsOfFields_eq typeName ⟨head.name, []⟩ children
  exact (congrArg (List.map CapacityHint.target) hhints).trans (map_target_hints hfilled)

/-- Hints are determined by their columns and what their lines say. -/
theorem hints_eq_of_listed {hints hints' : List CapacityHint}
    (hlisted : hints.map CapacityHint.listed = hints'.map CapacityHint.listed)
    (htarget : hints.map CapacityHint.target = hints'.map CapacityHint.target) :
    hints = hints' := by
  have hinj : Function.Injective fun h : CapacityHint => (h.listed, h.target) := by
    intro h h' heq
    simp only [CapacityHint.listed, CapacityHint.target, Prod.mk.injEq, Target.mk.injEq] at heq
    obtain ⟨⟨-, -, helement, hsize⟩, hlist, hpath⟩ := heq
    cases h
    cases h'
    subst hlist helement hsize hpath
    rfl
  have hboth := congrArg₂ List.zip hlisted htarget
  rw [List.zip_map', List.zip_map'] at hboth
  exact List.map_injective_iff.2 hinj hboth

namespace Shape

mutual

/-- The type that stores the columns of that shape. -/
def storage : Shape → StorageType
  | .primitive kind => .leaf kind.storage
  | .struct fields => .struct (fieldStorage fields)
  | .list element => .listOf (storage element)
  | .map key value => .mapOf (storage key) (storage value)

def fieldStorage : List (String × Shape) → List StorageField
  | [] => []
  | (name, s) :: rest => ⟨name, storage s, true⟩ :: fieldStorage rest

end

end Shape

mutual

theorem Stores.eq_storage {c : Column} {type : StorageType} (h : Stores c type) :
    type = c.shape.storage := by
  match h with
  | .primitive => rfl
  | .struct hfields =>
    rw [hfields.eq_fieldStorage]
    rfl
  | .list helement =>
    rw [helement.eq_storage]
    rfl
  | .map hkey hvalue =>
    rw [hkey.eq_storage, hvalue.eq_storage]
    rfl

theorem StoresFields.eq_fieldStorage {columns : List Column} {fields : List StorageField}
    (h : StoresFields columns fields) :
    fields = Shape.fieldStorage (Column.fieldShapes columns) := by
  match h with
  | .nil => rfl
  | .cons hc hrest =>
    rw [hc.eq_storage, hrest.eq_fieldStorage]
    rfl

end

/-! ### Specifications -/

/-- If all names are words, the listings of two specifications are the same exactly if the writers
    have one number and one type of rows, with the same hints, the same plan and the same storage
    types. -/
theorem render_eq_iff {root root' : Column} {owner owner' : Owner} {writerId writerId' : WriterId}
    {s t : Specification} (hs : synthesize root owner writerId = .ok s)
    (ht : synthesize root' owner' writerId' = .ok t)
    (hroot : Column.NamedByWords root.preorder) (hroot' : Column.NamedByWords root'.preorder) :
    s.render = t.render ↔
      s.writerId = t.writerId ∧ s.rootType = t.rootType ∧ s.hints = t.hints ∧ s.plan = t.plan ∧
        s.fields = t.fields := by
  have hreadable := readable_of_synthesize hs hroot
  have hreadable' := readable_of_synthesize ht hroot'
  have htargets := target_hints_of_synthesize hs
  have htargets' := target_hints_of_synthesize ht
  obtain ⟨head, typeName, children, fields, d, plan, rfl, hne, hfields, -, hplan, rfl⟩ :=
    exists_of_synthesize_eq_ok hs
  obtain ⟨head', typeName', children', fields', d', plan', rfl, hne', hfields', -, hplan', rfl⟩ :=
    exists_of_synthesize_eq_ok ht
  have hplans := plansFields_of_fieldOperations hplan
  have hplans' := plansFields_of_fieldOperations hplan'
  constructor
  · intro h
    obtain ⟨hname, htype, hlisted, hentries⟩ := hreadable.listed_eq_of_render hreadable' h
    rw [Column.typeString_eq_text, Column.typeString_eq_text] at htype
    obtain ⟨hrootType, hwriterId⟩ := Specification.name_eq_iff.1 hname
    obtain ⟨hshapes, hplanEq⟩ := hplans.eq_of_typed_listing hplans' hne htype hentries
    have hplanEq : plan = plan' := hplanEq
    refine ⟨hwriterId, hrootType, hints_eq_of_listed hlisted ?_, hplanEq, ?_⟩
    · rw [htargets, htargets']
      show _ = ((Operation.preorderFields plan').filter (·.2.isList)).map (·.2.target)
      rw [← hplanEq]
    · show fields = fields'
      rw [(storesFields_of_storageFields hfields).eq_fieldStorage,
        (storesFields_of_storageFields hfields').eq_fieldStorage, hshapes]
  · rintro ⟨hwriterId, hrootType, hhints, hplanEq, -⟩
    have hname := Specification.name_eq_iff.2 ⟨hrootType, hwriterId⟩
    have htype : (Column.struct head typeName children).typeString =
        (Column.struct head' typeName' children').typeString := by
      rw [Column.typeString_eq_text, Column.typeString_eq_text, Column.shape, Column.shape,
        hplans.shapes_eq_of_fields hplans' hne hplanEq]
    unfold Specification.render Specification.entries
    rw [hname, htype, hhints, hplanEq]

/-- Orders whose buyers are of a type with another name. -/
def clientOrders : Catalog :=
  .ofList "Order" [
    { name := "Order", fields := [
      { name := "id", type := .primitive "long" },
      { name := "buyer", type := .structOf "Client" },
      { name := "tags", type := .list (.primitive "string") }] },
    { name := "Client", fields := [{ name := "name", type := .primitive "string" }] }]

def clientOrdersSpecification : Specification :=
  { ordersSpecification with
    root := .struct ⟨0, "Order", none⟩ "Order" [
      .primitive ⟨1, "id", "id"⟩ .long,
      .struct ⟨2, "buyer", "buyer"⟩ "Client" [.primitive ⟨3, "name", "name"⟩ .string],
      .list ⟨4, "tags", "tags"⟩ 1 (.primitive ⟨5, "element", none⟩ .string)] }

theorem synthesize_clientOrders :
    synthesize clientOrdersSpecification.root clientOrders.describe 0 =
      .ok clientOrdersSpecification := rfl

/-- The listing does not tell the names of nested types, and the plan does not depend on them. -/
theorem clientOrders_plan :
    synthesize ordersSpecification.root orders.describe 0 = .ok ordersSpecification ∧
    synthesize clientOrdersSpecification.root clientOrders.describe 0 =
      .ok clientOrdersSpecification ∧
    Column.NamedByWords ordersSpecification.root.preorder ∧
    Column.NamedByWords clientOrdersSpecification.root.preorder ∧
    ordersSpecification.render = clientOrdersSpecification.render ∧
    ordersSpecification.hints = clientOrdersSpecification.hints ∧
    ordersSpecification.plan = clientOrdersSpecification.plan ∧
    ordersSpecification.fields = clientOrdersSpecification.fields := by
  have hwords : Column.NamedByWords ordersSpecification.root.preorder := by decide
  have hwords' : Column.NamedByWords clientOrdersSpecification.root.preorder := by decide
  have htype : ordersSpecification.root.typeString = clientOrdersSpecification.root.typeString := by
    rw [Column.typeString_eq_text, Column.typeString_eq_text]
    rfl
  have hrender : ordersSpecification.render = clientOrdersSpecification.render := by
    unfold Specification.render
    rw [htype]
    rfl
  obtain ⟨-, -, hhints, hplan, hfields⟩ :=
    (render_eq_iff synthesize_orders synthesize_clientOrders hwords hwords').1 hrender
  exact ⟨synthesize_orders, synthesize_clientOrders, hwords, hwords', hrender, hhints, hplan,
    hfields⟩

end Columnar
