import Columnar.Proofs.Outcome
import Columnar.Proofs.Schema.Expansion
import Columnar.Proofs.Schema.Unfolding

/-! # Compiling is unfolding

    Compiling succeeds when nothing that is met is wrong, and gives the only
    tree that the catalog unfolds to (`Catalog.UnfoldsRoot`).  Otherwise the
    error is the first defect there is. -/

namespace Columnar

/-! ### Trees -/

mutual

/-- The tree of a reference, for a column with the given head. -/
inductive Catalog.Unfolds (c : Catalog) : ColumnHead → TypeRef → Column → Prop
  | scalar {head : ColumnHead} {t : TypeRef} {kind : PrimitiveKind} :
    t.tag? = some (.scalar kind) → c.Unfolds head t (.primitive head kind)
  | decimal {head : ColumnHead} {t : TypeRef} : t.tag? = some .decimal →
    c.Unfolds head t (.primitive head (.decimal (t.precision.getD 38) (t.scale.getD 10)))
  | struct {head : ColumnHead} {t : TypeRef} {typeName : String} {d : TypeDescription}
      {children : List Column} : t.tag? = some .struct → t.typeName = some typeName →
    c.describe typeName = some d → c.UnfoldsFields (head.id + 1) d.fields children →
    c.Unfolds head t (.struct head typeName children)
  | list {head : ColumnHead} {t element : TypeRef} {column : Column} : t.tag? = some .list →
    t.element = some element → c.Unfolds ⟨head.id + 1, "element", none⟩ element column →
    c.Unfolds head t (.list head (t.averageSize.getD 1) column)
  | map {head : ColumnHead} {t key value : TypeRef} {keys values : Column} :
    t.tag? = some .map → t.key = some key → t.value = some value →
    c.Unfolds ⟨head.id + 1, "key", none⟩ key keys →
    c.Unfolds ⟨head.id + 1 + keys.count, "value", none⟩ value values →
    c.Unfolds head t (.map head keys values)

/-- The trees of fields in the order of declaration, the first column with the given number. -/
inductive Catalog.UnfoldsFields (c : Catalog) :
    ColumnId → List FieldDescriptor → List Column → Prop
  | nil {next : ColumnId} : c.UnfoldsFields next [] []
  | cons {next : ColumnId} {f : FieldDescriptor} {rest : List FieldDescriptor} {column : Column}
      {columns : List Column} : c.Unfolds ⟨next, f.name, some f.accessorName⟩ f.type column →
    c.UnfoldsFields (next + column.count) rest columns →
    c.UnfoldsFields next (f :: rest) (column :: columns)

end

/-- The tree of the row type. -/
inductive Catalog.UnfoldsRoot (c : Catalog) : Column → Prop
  | mk {d : TypeDescription} {children : List Column} : c.describe c.root = some d →
    c.UnfoldsFields 1 d.fields children →
    c.UnfoldsRoot (.struct ⟨0, c.root, none⟩ c.root children)

/-! ### Settled results -/

/-- The error is the first defect; if there is none, the result is the only tree. -/
def Settled {α : Type} (result : Except SchemaError α) (defects : List SchemaError)
    (tree : α → Prop) : Prop :=
  match result with
  | .ok a => defects = [] ∧ ∀ b, tree b ↔ b = a
  | .error e => defects.head? = some e

namespace Settled

variable {α β : Type} {result : Except SchemaError α} {defects : List SchemaError}
  {tree : α → Prop}

theorem error {e : SchemaError} (h : result = .error e) (hfirst : defects.head? = some e) :
    Settled result defects tree := by
  rw [h]
  exact hfirst

theorem ok {a : α} (h : result = .ok a) (htree : ∀ b, tree b ↔ b = a) :
    Settled result [] tree := by
  rw [h]
  exact ⟨rfl, htree⟩

/-- Two parts one after the other: the defects of the first one come first. -/
theorem bind {f : α → Except SchemaError β} {more : List SchemaError} {whole : β → Prop}
    (h : Settled result defects tree)
    (hf : ∀ a, (∀ b, tree b ↔ b = a) → Settled (f a) more whole) :
    Settled (result >>= f) (defects ++ more) whole := by
  cases result with
  | error e =>
    show (defects ++ more).head? = some e
    rw [List.head?_append, h]
    rfl
  | ok a =>
    obtain ⟨rfl, htree⟩ := h
    exact hf a htree

theorem map {f : α → β} {whole : β → Prop} (h : Settled result defects tree)
    (hwhole : ∀ a, (∀ b, tree b ↔ b = a) → ∀ b, whole b ↔ b = f a) :
    Settled (result >>= fun a => .ok (f a)) defects whole := by
  rw [← List.append_nil defects]
  exact h.bind fun a ha => .ok rfl (hwhole a ha)

theorem congr {other : α → Prop} (h : Settled result defects tree)
    (htrees : ∀ a, other a ↔ tree a) : Settled result defects other := by
  cases result with
  | error e => exact h
  | ok a => exact ⟨h.1, fun b => (htrees b).trans (h.2 b)⟩

theorem ok_iff (h : Settled result defects tree) {a : α} :
    result = .ok a ↔ defects = [] ∧ tree a := by
  cases result with
  | error e =>
    refine ⟨nofun, fun ⟨hnone, _⟩ => ?_⟩
    rw [hnone] at h
    cases h
  | ok b =>
    rw [h.2 a]
    exact ⟨fun heq => ⟨h.1, (Except.ok.inj heq).symm⟩, fun ⟨_, heq⟩ => by rw [heq]⟩

theorem error_iff (h : Settled result defects tree) {e : SchemaError} :
    result = .error e ↔ defects.head? = some e := by
  cases result with
  | error e' =>
    rw [show defects.head? = some e' from h]
    exact ⟨fun heq => by cases heq; rfl, fun heq => by cases heq; rfl⟩
  | ok a =>
    rw [h.1]
    exact ⟨nofun, nofun⟩

end Settled

/-! ### Expanding -/

section Expanding

variable {c : Catalog} {expanding : List String} {head : ColumnHead} {path : Path} {t : TypeRef}

/-- The kind of a proper reference is its tag: if it asks for an average size it is a list. -/
theorem TypeRef.Proper.tag_eq (ht : t.Proper c expanding) {tag : KindTag}
    (htag : t.tag? = some tag) : t.tag path = .ok tag := by
  unfold TypeRef.tag
  rw [show KindTag.parse? t.kind = some tag from htag]
  cases hsize : t.averageSize with
  | none => rfl
  | some n =>
    have hlist := (ht.averageSize n hsize).1
    rw [htag] at hlist
    cases hlist
    rfl

/-- A reference with a defect is not expanded. -/
theorem expandType_of_defect {e : SchemaError} (h : t.defect? c expanding path = some e) :
    expandType c expanding head path t = .error e := by
  rw [expandType, TypeRef.tag]
  unfold TypeRef.defect? TypeRef.tag? at h
  cases htag : KindTag.parse? t.kind with
  | none =>
    rw [htag] at h
    cases h
    rfl
  | some tag =>
    rw [htag] at h
    simp only at h ⊢
    by_cases hsize : t.averageSize.isSome && tag != .list
    · rw [if_pos hsize] at h ⊢
      cases h
      rfl
    · rw [if_neg hsize] at h ⊢
      dsimp only [bind, Except.bind]
      -- the tag decides which defects there can be
      cases tag with
      | scalar kind => cases h
      | decimal =>
        simp only at h ⊢
        split at h
        · cases h
        · next hdecimal =>
          cases h
          exact if_neg hdecimal
      | struct =>
        simp only at h ⊢
        generalize t.typeName = written at h ⊢
        cases written with
        | none =>
          cases h
          rfl
        | some typeName =>
          simp only at h ⊢
          split at h
          · next hn =>
            cases h
            exact expandStruct_of_mem hn
          · next hn =>
            split at h
            · next hd =>
              cases h
              exact expandStruct_of_undescribed hn (Option.isNone_iff_eq_none.1 hd)
            · cases h
      | list =>
        simp only at h ⊢
        generalize t.element = part at h ⊢
        cases part with
        | none =>
          cases h
          rfl
        | some element =>
          simp only [Option.isNone_some, Bool.false_eq_true, if_false] at h ⊢
          split at h
          · next hzero =>
            cases h
            exact if_pos hzero
          · cases h
      | map =>
        simp only at h ⊢
        generalize t.key = part at h ⊢
        generalize t.value = other at h ⊢
        cases part with
        | none =>
          cases h
          rfl
        | some key =>
          cases other with
          | none =>
            cases h
            rfl
          | some value => cases h

end Expanding

/-! ### Every reference -/

namespace Catalog

variable {c : Catalog} {head : ColumnHead} {t : TypeRef} {column : Column}

/-! The tag of a reference tells what its tree is made of. -/

theorem unfolds_scalar_iff {kind : PrimitiveKind} (htag : t.tag? = some (.scalar kind)) :
    c.Unfolds head t column ↔ column = .primitive head kind := by
  constructor
  · intro h
    cases h with
    | scalar htag' =>
      rw [htag] at htag'
      cases htag'
      rfl
    | decimal htag' | struct htag' | list htag' | map htag' =>
      rw [htag] at htag'
      cases htag'
  · rintro rfl
    exact .scalar htag

theorem unfolds_decimal_iff (htag : t.tag? = some .decimal) : c.Unfolds head t column ↔
    column = .primitive head (.decimal (t.precision.getD 38) (t.scale.getD 10)) := by
  constructor
  · intro h
    cases h with
    | decimal => rfl
    | scalar htag' | struct htag' | list htag' | map htag' =>
      rw [htag] at htag'
      cases htag'
  · rintro rfl
    exact .decimal htag

theorem unfolds_struct_iff {typeName : String} {d : TypeDescription}
    (htag : t.tag? = some .struct) (hname : t.typeName = some typeName)
    (hd : c.describe typeName = some d) : c.Unfolds head t column ↔
      ∃ children, c.UnfoldsFields (head.id + 1) d.fields children ∧
        column = .struct head typeName children := by
  constructor
  · intro h
    cases h with
    | struct _ hname' hd' hchildren =>
      cases hname.symm.trans hname'
      cases hd.symm.trans hd'
      exact ⟨_, hchildren, rfl⟩
    | scalar htag' | decimal htag' | list htag' | map htag' =>
      rw [htag] at htag'
      cases htag'
  · rintro ⟨children, hchildren, rfl⟩
    exact .struct htag hname hd hchildren

theorem unfolds_list_iff {element : TypeRef} (htag : t.tag? = some .list)
    (helement : t.element = some element) : c.Unfolds head t column ↔
      ∃ elements, c.Unfolds ⟨head.id + 1, "element", none⟩ element elements ∧
        column = .list head (t.averageSize.getD 1) elements := by
  constructor
  · intro h
    cases h with
    | list _ helement' hcolumn =>
      cases helement.symm.trans helement'
      exact ⟨_, hcolumn, rfl⟩
    | scalar htag' | decimal htag' | struct htag' | map htag' =>
      rw [htag] at htag'
      cases htag'
  · rintro ⟨elements, helements, rfl⟩
    exact .list htag helement helements

theorem unfolds_map_iff {key value : TypeRef} (htag : t.tag? = some .map)
    (hkey : t.key = some key) (hvalue : t.value = some value) : c.Unfolds head t column ↔
      ∃ keys values, c.Unfolds ⟨head.id + 1, "key", none⟩ key keys ∧
        c.Unfolds ⟨head.id + 1 + keys.count, "value", none⟩ value values ∧
        column = .map head keys values := by
  constructor
  · intro h
    cases h with
    | map _ hkey' hvalue' hkeys hvalues =>
      cases hkey.symm.trans hkey'
      cases hvalue.symm.trans hvalue'
      exact ⟨_, _, hkeys, hvalues, rfl⟩
    | scalar htag' | decimal htag' | struct htag' | list htag' =>
      rw [htag] at htag'
      cases htag'
  · rintro ⟨keys, values, hkeys, hvalues, rfl⟩
    exact .map htag hkey hvalue hkeys hvalues

end Catalog

mutual

theorem expandStruct_settled {c : Catalog} {expanding : List String} {head : ColumnHead}
    {path : Path} {typeName : String} {d : TypeDescription} (hn : typeName ∉ expanding)
    (hd : c.describe typeName = some d) :
    Settled (expandStruct c expanding head path typeName)
      ((fieldVisits (c.visitsFrom (expanding ++ [typeName])) path typeName
        (declared [] d.fields)).filterMap (Visit.defect? c))
      (fun column => ∃ children, c.UnfoldsFields (head.id + 1) d.fields children ∧
        column = .struct head typeName children) := by
  rw [expandStruct_eq hn hd]
  refine expandFields_settled.map fun children hchildren column => ⟨?_, ?_⟩
  · rintro ⟨others, hothers, rfl⟩
    rw [(hchildren others).1 hothers]
  · rintro rfl
    exact ⟨children, (hchildren children).2 rfl, rfl⟩
termination_by (c.remaining expanding, 0)
decreasing_by exact Prod.Lex.left _ _ (Catalog.remaining_lt hd hn)

theorem expandFields_settled {c : Catalog} {expanding : List String} {next : ColumnId}
    {path : Path} {typeName : String} {seen : List String} {fields : List FieldDescriptor} :
    Settled (expandFields c expanding next path typeName seen fields)
      ((fieldVisits (c.visitsFrom expanding) path typeName
        (declared seen fields)).filterMap (Visit.defect? c))
      (c.UnfoldsFields next fields) := by
  match fields with
  | [] =>
    refine .ok expandFields_nil_eq_ok fun columns => ⟨fun h => ?_, fun h => ?_⟩
    · cases h
      rfl
    · rw [h]
      exact .nil
  | f :: rest =>
    have hvisits : fieldVisits (c.visitsFrom expanding) path typeName (declared seen (f :: rest)) =
        .field typeName seen f.name :: (c.visitsFrom expanding (path.child f.name) f.type ++
          fieldVisits (c.visitsFrom expanding) path typeName (declared (f.name :: seen) rest)) := rfl
    rw [hvisits]
    by_cases hf : f.name ∈ seen
    · have hdefect : Visit.defect? c (.field typeName seen f.name) =
          some (.duplicateField typeName f.name) := if_pos hf
      rw [List.filterMap_cons_some hdefect]
      refine .error ?_ rfl
      rw [expandFields, if_pos hf]
      rfl
    · have hdefect : Visit.defect? c (.field typeName seen f.name) = none := if_neg hf
      rw [expandFields_cons_eq hf, List.filterMap_cons_none hdefect, List.filterMap_append]
      refine expandType_settled.bind fun column hcolumn => ?_
      refine expandFields_settled.map fun columns hcolumns trees => ⟨fun h => ?_, ?_⟩
      · cases h with
        | cons hfirst hrest =>
          cases (hcolumn _).1 hfirst
          rw [(hcolumns _).1 hrest]
      · rintro rfl
        exact .cons ((hcolumn _).2 rfl) ((hcolumns _).2 rfl)
termination_by (c.remaining expanding, sizeOf fields)
decreasing_by
  · exact Prod.Lex.right _ (FieldDescriptor.sizeOf_type_lt f rest)
  · exact Prod.Lex.right _ (by rw [List.cons.sizeOf_spec]; omega)

theorem expandType_settled {c : Catalog} {expanding : List String} {head : ColumnHead}
    {path : Path} {t : TypeRef} :
    Settled (expandType c expanding head path t)
      ((c.visitsFrom expanding path t).filterMap (Visit.defect? c)) (c.Unfolds head t) := by
  rw [Catalog.visitsFrom_eq]
  cases hdefect : Visit.defect? c (.reference expanding path t) with
  | some e =>
    rw [List.filterMap_cons_some hdefect]
    exact .error (expandType_of_defect hdefect) rfl
  | none =>
    have ht : t.Proper c expanding := TypeRef.defect?_eq_none_iff.1 hdefect
    rw [List.filterMap_cons_none hdefect, List.filterMap_append]
    obtain ⟨tag, htag⟩ := Option.isSome_iff_exists.1 ht.known
    have htag' : t.tag path = .ok tag := ht.tag_eq htag
    by_cases hstruct : tag = .struct
    · subst hstruct
      obtain ⟨typeName, hname, hn, hsome⟩ := ht.struct htag
      obtain ⟨d, hd⟩ := Option.isSome_iff_exists.1 hsome
      have henters : t.entered? c expanding = some d := by
        simp [TypeRef.entered?, TypeRef.structName?, htag, hname, hn, hd]
      have hparts : t.parts = [] := by simp [TypeRef.parts, htag]
      rw [expandType_struct_eq htag' hname, henters, hparts, Option.elim_some, List.flatMap_nil,
        List.filterMap_nil, List.append_nil, c.name_of_describe hd]
      exact (expandStruct_settled hn hd).congr fun _ => Catalog.unfolds_struct_iff htag hname hd
    · have henters : t.entered? c expanding = none := by
        simp [TypeRef.entered?, TypeRef.structName?, htag, hstruct]
      rw [henters, Option.elim_none, List.filterMap_nil, List.nil_append]
      cases tag with
      | struct => exact absurd rfl hstruct
      | scalar kind =>
        have hparts : t.parts = [] := by simp [TypeRef.parts, htag]
        rw [hparts]
        exact .ok (expandType_scalar_eq_ok htag') fun _ => Catalog.unfolds_scalar_iff htag
      | decimal =>
        have hparts : t.parts = [] := by simp [TypeRef.parts, htag]
        rw [hparts]
        exact .ok (expandType_decimal_eq_ok htag' (validDecimal_iff.2 (ht.decimal htag)))
          fun _ => Catalog.unfolds_decimal_iff htag
      | list =>
        obtain ⟨hsome, hzero⟩ := (TypeRef.proper_list_iff htag).1 ht
        obtain ⟨element, helement⟩ := Option.isSome_iff_exists.1 hsome
        have hparts : t.parts = [("element", element)] := by simp [TypeRef.parts, htag, helement]
        rw [expandType_list_eq htag' helement hzero, hparts, List.flatMap_singleton]
        refine expandType_settled.map fun elements helements tree => ?_
        rw [Catalog.unfolds_list_iff htag helement]
        simp only [helements, exists_eq_left]
      | map =>
        obtain ⟨hkeySome, hvalueSome⟩ := ht.map htag
        obtain ⟨key, hkey⟩ := Option.isSome_iff_exists.1 hkeySome
        obtain ⟨value, hvalue⟩ := Option.isSome_iff_exists.1 hvalueSome
        have hparts : t.parts = [("key", key), ("value", value)] := by
          simp [TypeRef.parts, htag, hkey, hvalue]
        rw [expandType_map_eq htag' hkey hvalue, hparts, List.flatMap_cons,
          List.flatMap_singleton, List.filterMap_append]
        refine expandType_settled.bind fun keys hkeys => ?_
        refine expandType_settled.map fun values hvalues tree => ?_
        rw [Catalog.unfolds_map_iff htag hkey hvalue]
        simp only [hkeys, exists_and_left, exists_eq_left, hvalues]
termination_by (c.remaining expanding, sizeOf t)
decreasing_by
  · exact Prod.Lex.right _ (TypeRef.sizeOf_pos t)
  · exact Prod.Lex.right _ (TypeRef.sizeOf_lt_of_element ‹_›)
  · exact Prod.Lex.right _ (TypeRef.sizeOf_lt_of_key ‹_›)
  · exact Prod.Lex.right _ (TypeRef.sizeOf_lt_of_value ‹_›)

end

/-! ### Whole catalogs -/

/-- Compiling ends with the first defect, or with the only tree. -/
theorem compile_settled (c : Catalog) : Settled (compile c) c.defects c.UnfoldsRoot := by
  unfold compile Catalog.defects
  cases hd : c.describe c.root with
  | none => exact .error rfl rfl
  | some d =>
    have hvisits : c.visits =
        fieldVisits (c.visitsFrom [c.root]) ⟨c.root, []⟩ c.root (declared [] d.fields) := by
      rw [Catalog.visits, hd]
      rw [← c.name_of_describe hd]
    have hstruct : Settled (expandStruct c [] ⟨0, c.root, none⟩ ⟨c.root, []⟩ c.root) _ _ :=
      expandStruct_settled (by simp) hd
    rw [hvisits]
    refine hstruct.congr fun root => ⟨fun h => ?_, ?_⟩
    · cases h with
      | mk hd' hchildren =>
        cases hd.symm.trans hd'
        exact ⟨_, hchildren, rfl⟩
    · rintro ⟨children, hchildren, rfl⟩
      exact .mk hd hchildren

/-- Nothing is wrong if everything that is met is as it has to be. -/
theorem Catalog.defects_eq_nil_iff (c : Catalog) : c.defects = [] ↔
    (c.describe c.root).isSome ∧
      (∀ expanding path t, c.Meets expanding path t → t.Proper c expanding) ∧
      ∀ expanding path d, c.Enters expanding path d → (d.fields.map (·.name)).Nodup := by
  have hfresh : ∀ d : TypeDescription, (d.fields.map (·.name)).Nodup ↔
      ∀ e ∈ declared [] d.fields, e.2.name ∉ e.1 := by
    intro d
    rw [declared_fresh_iff]
    simp
  unfold Catalog.defects
  cases hd : c.describe c.root with
  | none => simp
  | some d =>
    simp only [Option.isNone_some, Bool.false_eq_true, if_false, Option.isSome_some, true_and,
      List.filterMap_eq_nil_iff, Catalog.mem_visits_iff, hfresh]
    constructor
    · intro h
      refine ⟨fun expanding path t ht => ?_, fun expanding path d hd e he hmem => ?_⟩
      · exact TypeRef.defect?_eq_none_iff.1 (h (.reference expanding path t) ht)
      · have hnone := h (.field d.name e.1 e.2.name) ⟨expanding, path, d, e.2, hd, he, rfl, rfl⟩
        rw [Visit.defect?, if_pos hmem] at hnone
        cases hnone
    · rintro ⟨hproper, hnames⟩ v hv
      match v with
      | .reference expanding path t =>
        exact TypeRef.defect?_eq_none_iff.2 (hproper expanding path t hv)
      | .field _ earlier _ =>
        obtain ⟨expanding, path, d, f, hd, he, rfl, rfl⟩ := hv
        exact if_neg (hnames expanding path d hd (earlier, f) he)

/-- Compiling succeeds if the row type is described, every reference met is proper and no struct
    type met has two fields of the same name.  The result is then the tree that the catalog unfolds
    to, otherwise the first of the defects met depth first and in the order of declaration. -/
theorem compile_unfolds (c : Catalog) :
    ((∃ root, compile c = .ok root) ↔ (c.describe c.root).isSome ∧
      (∀ expanding path t, c.Meets expanding path t → t.Proper c expanding) ∧
      ∀ expanding path d, c.Enters expanding path d → (d.fields.map (·.name)).Nodup) ∧
    (∀ root, compile c = .ok root → ∀ tree, c.UnfoldsRoot tree ↔ tree = root) ∧
    (∀ e, compile c = .error e ↔ c.defects.head? = some e) ∧
    ∀ v, v ∈ c.visits ↔ c.Met v := by
  have hsettled := compile_settled c
  refine ⟨?_, ?_, fun e => hsettled.error_iff, fun v => Catalog.mem_visits_iff⟩
  · rw [← c.defects_eq_nil_iff]
    constructor
    · rintro ⟨root, hroot⟩
      exact (hsettled.ok_iff.1 hroot).1
    · intro hnone
      cases hc : compile c with
      | ok root => exact ⟨root, rfl⟩
      | error e =>
        have hfirst := hsettled.error_iff.1 hc
        rw [hnone] at hfirst
        cases hfirst
  · intro root hroot tree
    rw [hroot] at hsettled
    exact hsettled.2 tree

end Columnar
