import Mathlib.Data.List.Nodup
import Columnar.Proofs.Plan.Composition
import Columnar.Proofs.Plan.Writable
import Columnar.Proofs.Schema.Positions

/-! # Paths name columns

    Children of a column have different names, so that no two columns of a tree
    have the same path.  The texts of two paths are different, too, if no name
    below the root has a point (`Path.text_inj`); that of the root may be
    anything, since all paths begin with it. -/

namespace Columnar

/-! ### Texts -/

namespace Path

/-- Each name below the root stands behind a point. -/
theorem toList_text (p : Path) :
    p.text.toList = p.root.toList ++ p.steps.flatMap fun name => '.' :: name.toList := by
  rcases p with ⟨root, steps⟩
  induction steps using List.reverseRecOn with
  | nil =>
    rw [text_root]
    exact (List.append_nil _).symm
  | append_singleton steps name ih =>
    have htext : (⟨root, steps ++ [name]⟩ : Path).text =
        (⟨root, steps⟩ : Path).text ++ "." ++ name := text_child ⟨root, steps⟩ name
    rw [htext, String.toList_append, String.toList_append, ih, List.flatMap_append,
      List.append_assoc, List.append_assoc]
    simp

/-- No name below the root has a point. -/
def Undotted (p : Path) : Prop :=
  ∀ name ∈ p.steps, '.' ∉ name.toList

theorem Undotted.child {p : Path} (h : p.Undotted) {name : String} (hname : '.' ∉ name.toList) :
    (p.child name).Undotted := by
  intro step hstep
  rcases List.mem_append.1 hstep with hstep | hstep
  · exact h step hstep
  · rw [List.mem_singleton.1 hstep]
    exact hname

/-- Paths below one root are told by their texts, if no name has a point. -/
theorem text_inj {p q : Path} (hroot : p.root = q.root) (hp : p.Undotted) (hq : q.Undotted)
    (h : p.text = q.text) : p = q := by
  rcases p with ⟨root, steps⟩
  rcases q with ⟨_, steps'⟩
  cases hroot
  have hlist := congrArg String.toList h
  rw [toList_text, toList_text] at hlist
  have hbehind : (steps.map String.toList).flatMap ('.' :: ·) =
      (steps'.map String.toList).flatMap ('.' :: ·) := by
    rw [List.flatMap_map, List.flatMap_map]
    exact List.append_cancel_left hlist
  have hnames : steps.map String.toList = steps'.map String.toList :=
    Text.parts_inj (List.forall_mem_map.2 hp) (List.forall_mem_map.2 hq) hbehind
  have hsteps : steps = steps' :=
    List.map_injective_iff.2 (fun _ _ => String.toList_inj.1) hnames
  rw [hsteps]

end Path

/-! ### Nodes of a tree -/

namespace Column

/-- What the children of the column are to it. -/
def childRole : Column → Role
  | .struct _ typeName _ => .field typeName
  | _ => .part

theorem nodesOfFields_eq_flatMap (typeName : String) (path : Path) (columns : List Column) :
    nodesOfFields typeName path columns =
      columns.flatMap fun d => d.nodes (.field typeName) (path.child d.name) := by
  induction columns with
  | nil => rfl
  | cons c rest ih => rw [nodesOfFields, List.flatMap_cons, ih]

/-- The nodes of a column's children come behind its own. -/
theorem nodes_eq_cons (role : Role) (path : Path) (c : Column) :
    c.nodes role path =
      ⟨c, path, role⟩ :: c.children.flatMap fun d => d.nodes c.childRole (path.child d.name) := by
  cases c with
  | primitive head kind => rfl
  | struct head typeName children =>
    rw [nodes, nodesOfFields_eq_flatMap]
    rfl
  | list head averageSize element =>
    rw [nodes]
    simp [children, childRole]
  | map head key value =>
    rw [nodes]
    simp [children, childRole]

theorem sizeOf_lt_of_mem_children {c d : Column} (h : d ∈ c.children) : sizeOf d < sizeOf c :=
  Nat.lt_trans (List.sizeOf_lt_of_mem h) c.sizeOf_children_lt

theorem mem_preorder_of_mem_children {c d : Column} (h : d ∈ c.children) : d ∈ c.preorder := by
  rw [preorder_eq_cons, preorderChildren_eq_flatMap]
  apply List.mem_cons_of_mem
  exact List.mem_flatMap.2 ⟨d, h, by rw [preorder_eq_cons]; exact List.mem_cons_self⟩

/-- The children of a column have different names. -/
theorem Regular.nodup_childNames {c : Column} (h : c.Regular) :
    (c.children.map Column.name).Nodup := by
  cases c with
  | primitive head kind => exact .nil
  | struct head typeName children => exact RegularFrom.nodup_names h
  | list head averageSize element => exact List.nodup_singleton _
  | map head key value =>
    obtain ⟨hkey, -, hvalue, -⟩ := h
    have hne : key.name ≠ value.name := by
      rw [name, name, hkey, hvalue]
      show "key" ≠ "value"
      decide
    simpa [children] using hne

/-- No two columns of a tree have the same path. -/
theorem Regular.nodup_paths {c : Column} (h : c.Regular) (role : Role) (path : Path) :
    ((c.nodes role path).map Node.path).Nodup := by
  rw [nodes_eq_cons, List.map_cons, List.nodup_cons, List.map_flatMap, List.nodup_flatMap]
  refine ⟨?_, ?_, ?_⟩
  -- the paths below a column are longer than its own
  · intro hmem
    obtain ⟨d, -, hmem⟩ := List.mem_flatMap.1 hmem
    obtain ⟨n, hn, hpath⟩ := List.mem_map.1 hmem
    obtain ⟨steps, hsteps⟩ := exists_path_nodes hn
    rw [hsteps, Path.below_child] at hpath
    have hlength := congrArg (fun p => p.steps.length) hpath
    simp [Path.below] at hlength
  · intro d hd
    exact Regular.nodup_paths (h.of_mem_preorder (mem_preorder_of_mem_children hd)) _ _
  -- those below two children go on by different names
  · apply (List.pairwise_map.1 h.nodup_childNames).imp
    intro d e hne p hd he
    obtain ⟨n, hn, rfl⟩ := List.mem_map.1 hd
    obtain ⟨m, hm, hpath⟩ := List.mem_map.1 he
    obtain ⟨steps, hsteps⟩ := exists_path_nodes hn
    obtain ⟨steps', hsteps'⟩ := exists_path_nodes hm
    rw [hsteps, hsteps', Path.below_child, Path.below_child] at hpath
    have hnames := congrArg Path.steps hpath
    exact hne (List.head_eq_of_cons_eq (List.append_cancel_left hnames)).symm
termination_by sizeOf c
decreasing_by exact sizeOf_lt_of_mem_children hd

/-- If no child in the tree has a point in its name, then no path has one behind its beginning. -/
theorem undotted_nodes {c : Column} {path : Path} (hpath : path.Undotted)
    (hnames : ∀ column ∈ c.preorder, ∀ d ∈ column.children, '.' ∉ d.name.toList) (role : Role) :
    ∀ n ∈ c.nodes role path, n.path.Undotted := by
  intro n hn
  rw [nodes_eq_cons] at hn
  rcases List.mem_cons.1 hn with rfl | hn
  · exact hpath
  · obtain ⟨d, hd, hn⟩ := List.mem_flatMap.1 hn
    have hown : c ∈ c.preorder := by
      rw [preorder_eq_cons]
      exact List.mem_cons_self
    have hbelow : ∀ column ∈ d.preorder, ∀ e ∈ column.children, '.' ∉ e.name.toList := by
      intro column hcolumn
      exact hnames column ((preorder_isInfix (mem_preorder_of_mem_children hd)).subset hcolumn)
    exact undotted_nodes (hpath.child (hnames c hown d hd)) hbelow _ n hn
termination_by sizeOf c
decreasing_by exact sizeOf_lt_of_mem_children hd

end Column

/-! ### Compiled trees -/

/-- Names below the root of a compiled tree are those of fields, or of parts of collections. -/
theorem undotted_of_compile {c : Catalog} {root : Column} (h : compile c = .ok root)
    (hnames : ∀ d ∈ c.types, ∀ f ∈ d.fields, '.' ∉ f.name.toList) :
    ∀ column ∈ root.preorder, ∀ d ∈ column.children, '.' ∉ d.name.toList := by
  intro column hcolumn d hd
  obtain ⟨-, -, hregular⟩ := compile_regular h
  have hregular' := hregular.of_mem_preorder hcolumn
  cases column with
  | primitive head kind => cases hd
  | struct head typeName children =>
    obtain ⟨t, ht, hfields⟩ := declared_of_compile h _ hcolumn
    have hfirst : children.map Column.name = t.fields.map FieldDescriptor.name := by
      simpa [Function.comp_def] using congrArg (List.map Prod.fst) hfields
    have hmem : d.name ∈ t.fields.map FieldDescriptor.name := hfirst ▸ List.mem_map_of_mem hd
    obtain ⟨f, hf, hname⟩ := List.mem_map.1 hmem
    rw [← hname]
    exact hnames t (List.mem_of_find?_eq_some ht) f hf
  | list head averageSize element =>
    obtain ⟨-, helement, -⟩ := hregular'
    rw [List.mem_singleton.1 hd, Column.name, helement]
    show '.' ∉ "element".toList
    decide
  | map head key value =>
    obtain ⟨hkey, -, hvalue, -⟩ := hregular'
    rcases List.mem_cons.1 hd with rfl | hd
    · rw [Column.name, hkey]
      show '.' ∉ "key".toList
      decide
    · rw [List.mem_singleton.1 hd, Column.name, hvalue]
      show '.' ∉ "value".toList
      decide

/-! ### Operations and hints -/

/-- The operation, with the source of its values, is the only one whose path has that text. -/
def Specification.Names (s : Specification) (text : String) (entry : Source × Operation) : Prop :=
  s.operations.filter (·.2.path.text == text) = [entry]

theorem filter_eq_singleton {α : Type} {f : α → String} {xs : List α} (h : (xs.map f).Nodup)
    {x : α} (hx : x ∈ xs) : xs.filter (f · == f x) = [x] := by
  induction xs with
  | nil => cases hx
  | cons y rest ih =>
    rw [List.map_cons, List.nodup_cons] at h
    rcases List.mem_cons.1 hx with rfl | hx
    · rw [List.filter_cons_of_pos (by simp), List.filter_eq_nil_iff.2]
      intro y hy heq
      exact h.1 (List.mem_map.2 ⟨y, hy, by simpa using heq⟩)
    · have hne : f y ≠ f x := by
        intro heq
        exact h.1 (List.mem_map.2 ⟨x, hx, heq.symm⟩)
      rw [List.filter_cons_of_neg (by simpa using hne)]
      exact ih h.2 hx

/-- No two operations of a specification have paths of the same text. -/
theorem nodup_texts {c : Catalog} {root : Column} (hcompile : compile c = .ok root)
    (hnames : ∀ d ∈ c.types, ∀ f ∈ d.fields, '.' ∉ f.name.toList) {owner : Owner}
    {writerId : WriterId} {s : Specification} (hs : synthesize root owner writerId = .ok s) :
    (s.operations.map (·.2.path.text)).Nodup := by
  obtain ⟨children, rfl, hregular⟩ := compile_regular hcompile
  have hbelow : (Column.struct ⟨0, c.root, none⟩ c.root children).nodes .part ⟨c.root, []⟩ =
      ⟨.struct ⟨0, c.root, none⟩ c.root children, ⟨c.root, []⟩, .part⟩ ::
        Column.nodesOfFields c.root ⟨c.root, []⟩ children := rfl
  have hpaths : s.operations.map (·.2.path) =
      (Column.nodesOfFields c.root ⟨c.root, []⟩ children).map Node.path :=
    map_path_of_filled (filled_of_synthesize hs)
  have htexts : s.operations.map (·.2.path.text) =
      ((Column.nodesOfFields c.root ⟨c.root, []⟩ children).map Node.path).map Path.text := by
    rw [← hpaths, List.map_map]
    rfl
  have hnodup := hregular.nodup_paths .part ⟨c.root, []⟩
  rw [hbelow, List.map_cons, List.nodup_cons] at hnodup
  -- all paths begin with the name of the root, and no other name in them has a point
  have hwithin : ∀ p ∈ (Column.nodesOfFields c.root ⟨c.root, []⟩ children).map Node.path,
      p.root = c.root ∧ p.Undotted := by
    intro p hp
    obtain ⟨n, hn, rfl⟩ := List.mem_map.1 hp
    constructor
    · obtain ⟨steps, hsteps⟩ := Column.exists_path_nodesOfFields hn
      rw [hsteps]
      rfl
    · have hroot : (⟨c.root, []⟩ : Path).Undotted := by
        intro name hname
        cases hname
      apply Column.undotted_nodes hroot (undotted_of_compile hcompile hnames) .part n
      rw [hbelow]
      exact List.mem_cons_of_mem _ hn
  rw [htexts]
  apply hnodup.2.map_on
  intro p hp q hq htext
  obtain ⟨hroot, hundotted⟩ := hwithin p hp
  obtain ⟨hroot', hundotted'⟩ := hwithin q hq
  exact Path.text_inj (hroot.trans hroot'.symm) hundotted hundotted' htext

mutual

/-- There is a list operation for each hint, with its column and path, and it has the operation for
    the elements. -/
theorem Plans.exists_of_hint {path : Path} {c : Column} {op : Operation} (h : Plans path c op)
    (source : Source) {hint : CapacityHint} (hhint : hint ∈ capacityHints path c) :
    ∃ source' element, (source', .list hint.target element) ∈ op.preorder source ∧
      element.column = hint.element := by
  match h with
  | .primitive => cases hhint
  | .struct hfields =>
    obtain ⟨source', element, hmem, helement⟩ := hfields.exists_of_hint hhint
    exact ⟨source', element, List.mem_cons_of_mem _ hmem, helement⟩
  | .list hbelow =>
    rcases List.mem_cons.1 hhint with rfl | hhint
    · exact ⟨source, _, List.mem_cons_self, hbelow.column_eq⟩
    · obtain ⟨source', element, hmem, helement⟩ := hbelow.exists_of_hint .element hhint
      exact ⟨source', element, List.mem_cons_of_mem _ hmem, helement⟩
  | .map hkey hvalue =>
    rcases List.mem_append.1 hhint with hhint | hhint
    · obtain ⟨source', element, hmem, helement⟩ := hkey.exists_of_hint .element hhint
      exact ⟨source', element, List.mem_cons_of_mem _ (List.mem_append_left _ hmem), helement⟩
    · obtain ⟨source', element, hmem, helement⟩ := hvalue.exists_of_hint .element hhint
      exact ⟨source', element, List.mem_cons_of_mem _ (List.mem_append_right _ hmem), helement⟩

theorem PlansFields.exists_of_hint {path : Path} {columns : List Column}
    {fields : List (Accessor × Operation)} (h : PlansFields path columns fields)
    {hint : CapacityHint} (hhint : hint ∈ capacityHintsOfFields path columns) :
    ∃ source' element, (source', .list hint.target element) ∈ Operation.preorderFields fields ∧
      element.column = hint.element := by
  match h with
  | .nil => cases hhint
  | .cons hop hops =>
    rcases List.mem_append.1 hhint with hhint | hhint
    · obtain ⟨source', element, hmem, helement⟩ := hop.exists_of_hint _ hhint
      exact ⟨source', element, List.mem_append_left _ hmem, helement⟩
    · obtain ⟨source', element, hmem, helement⟩ := hops.exists_of_hint hhint
      exact ⟨source', element, List.mem_append_right _ hmem, helement⟩

end

/-- There is a list operation for each hint of a specification, and the operation for its elements. -/
theorem exists_of_hint_of_synthesize {root : Column} {owner : Owner} {writerId : WriterId}
    {s : Specification} (hs : synthesize root owner writerId = .ok s) {hint : CapacityHint}
    (hhint : hint ∈ s.hints) :
    ∃ source element, (source, .list hint.target element) ∈ s.operations ∧
      element.column = hint.element := by
  obtain ⟨head, typeName, children, _, _, plan, rfl, -, -, -, hplan, rfl⟩ :=
    exists_of_synthesize_eq_ok hs
  exact (plansFields_of_fieldOperations hplan).exists_of_hint hhint

/-- What is built for a catalog is synthesized from its compiled tree. -/
theorem Specification.exists_of_build {c : Catalog} {writerId : WriterId} {s : Specification}
    (h : Specification.build c writerId = .ok s) :
    ∃ root, compile c = .ok root ∧ synthesize root c.describe writerId = .ok s := by
  unfold Specification.build at h
  split at h
  · cases h
  · next root hroot =>
    split at h
    · cases h
    · next hs =>
      cases h
      exact ⟨root, hroot, hs⟩

end Columnar
