import Columnar.Schema.Compile

/-! # Unfolding catalogs

    Following the struct references of a catalog from its row type one meets
    type references, each at a path and while certain types are being expanded
    (`Catalog.Meets`), and enters struct types (`Catalog.Enters`).  `TypeRef.Proper`
    says what is asked of a reference that is met.

    The same can be listed: `Catalog.visits` goes through everything met, depth
    first and in the order of declaration (`Catalog.mem_visits_iff`), and
    `Catalog.defects` keeps what is wrong there. -/

namespace Columnar

/-! ### References -/

theorem Catalog.name_of_describe {c : Catalog} {typeName : String} {d : TypeDescription}
    (h : c.describe typeName = some d) : d.name = typeName := by
  simpa using List.find?_some h

namespace TypeRef

/-- The kind that is asked for, if there is such a kind. -/
def tag? (t : TypeRef) : Option KindTag := KindTag.parse? t.kind

/-- The references spelled out in a collection type, with the names of their columns. -/
def parts (t : TypeRef) : List (String × TypeRef) :=
  match t.tag? with
  | some .list => t.element.toList.map fun element => ("element", element)
  | some .map =>
    (t.key.toList.map fun key => ("key", key)) ++ t.value.toList.map fun value => ("value", value)
  | _ => []

theorem sizeOf_lt_of_part {t : TypeRef} {part : String × TypeRef} (h : part ∈ t.parts) :
    sizeOf part.2 < sizeOf t := by
  unfold parts at h
  split at h
  · obtain ⟨element, helement, rfl⟩ := List.mem_map.1 h
    exact sizeOf_lt_of_element (Option.mem_toList.1 helement)
  · rcases List.mem_append.1 h with h | h
    · obtain ⟨key, hkey, rfl⟩ := List.mem_map.1 h
      exact sizeOf_lt_of_key (Option.mem_toList.1 hkey)
    · obtain ⟨value, hvalue, rfl⟩ := List.mem_map.1 h
      exact sizeOf_lt_of_value (Option.mem_toList.1 hvalue)
  · cases h

/-- The struct type that is named. -/
def structName? (t : TypeRef) : Option String :=
  if t.tag? = some .struct then t.typeName else none

theorem structName?_eq_some_iff {t : TypeRef} {typeName : String} :
    t.structName? = some typeName ↔ t.tag? = some .struct ∧ t.typeName = some typeName := by
  unfold structName?
  split
  · next htag => exact ⟨fun h => ⟨htag, h⟩, fun h => h.2⟩
  · next htag => exact ⟨nofun, fun h => absurd h.1 htag⟩

/-- The struct type that the reference leads into: it is described and not being expanded. -/
def entered? (c : Catalog) (expanding : List String) (t : TypeRef) : Option TypeDescription :=
  t.structName?.bind fun typeName =>
    if typeName ∈ expanding then none else c.describe typeName

theorem entered?_eq_some_iff {c : Catalog} {expanding : List String} {t : TypeRef}
    {d : TypeDescription} : t.entered? c expanding = some d ↔
      t.structName? = some d.name ∧ d.name ∉ expanding ∧ c.describe d.name = some d := by
  unfold entered?
  rw [Option.bind_eq_some_iff]
  constructor
  · rintro ⟨typeName, hname, hd⟩
    split at hd
    · cases hd
    · next hn =>
      rw [c.name_of_describe hd]
      exact ⟨hname, hn, hd⟩
  · rintro ⟨hname, hn, hd⟩
    exact ⟨d.name, hname, by rw [if_neg hn, hd]⟩

/-- What a reference has to be like if these types are being expanded. -/
structure Proper (c : Catalog) (expanding : List String) (t : TypeRef) : Prop where
  known : t.tag?.isSome
  averageSize : ∀ n, t.averageSize = some n → t.tag? = some .list ∧ n ≠ 0
  list : t.tag? = some .list → t.element.isSome
  map : t.tag? = some .map → t.key.isSome ∧ t.value.isSome
  struct : t.tag? = some .struct →
    ∃ typeName, t.typeName = some typeName ∧ typeName ∉ expanding ∧ (c.describe typeName).isSome
  decimal : t.tag? = some .decimal →
    1 ≤ (t.precision.getD 38).toNat ∧ (t.precision.getD 38).toNat ≤ 38 ∧
      0 ≤ (t.scale.getD 10).toInt ∧ (t.scale.getD 10).toInt ≤ (t.precision.getD 38).toNat

end TypeRef

/-! ### What is met -/

/-- The reference is met at the path, the types being those expanded on the way. -/
inductive Catalog.Meets (c : Catalog) : List String → Path → TypeRef → Prop
  | root {d : TypeDescription} {f : FieldDescriptor} : c.describe c.root = some d → f ∈ d.fields →
    c.Meets [c.root] ⟨c.root, [f.name]⟩ f.type
  | field {expanding : List String} {path : Path} {t : TypeRef} {d : TypeDescription}
      {f : FieldDescriptor} : c.Meets expanding path t → t.entered? c expanding = some d →
    f ∈ d.fields → c.Meets (expanding ++ [d.name]) (path.child f.name) f.type
  | part {expanding : List String} {path : Path} {t : TypeRef} {part : String × TypeRef} :
    c.Meets expanding path t → part ∈ t.parts → c.Meets expanding (path.child part.1) part.2

/-- The struct type is unfolded at the path; it is the last of those being expanded. -/
inductive Catalog.Enters (c : Catalog) : List String → Path → TypeDescription → Prop
  | root {d : TypeDescription} : c.describe c.root = some d → c.Enters [c.root] ⟨c.root, []⟩ d
  | struct {expanding : List String} {path : Path} {t : TypeRef} {d : TypeDescription} :
    c.Meets expanding path t → t.entered? c expanding = some d →
    c.Enters (expanding ++ [d.name]) path d

/-- The fields of what is entered are met. -/
theorem Catalog.Enters.meets {c : Catalog} {expanding : List String} {path : Path}
    {d : TypeDescription} {f : FieldDescriptor} (h : c.Enters expanding path d)
    (hf : f ∈ d.fields) : c.Meets expanding (path.child f.name) f.type := by
  cases h with
  | root hd => exact .root hd hf
  | struct ht hd => exact .field ht hd hf

/-! ### Visits -/

/-- The fields, each with the names of those declared before it, the nearest one first. -/
def declared (seen : List String) : List FieldDescriptor → List (List String × FieldDescriptor)
  | [] => []
  | f :: rest => (seen, f) :: declared (f.name :: seen) rest

theorem mem_fields_of_declared {seen : List String} {fields : List FieldDescriptor}
    {e : List String × FieldDescriptor} (h : e ∈ declared seen fields) : e.2 ∈ fields := by
  induction fields generalizing seen with
  | nil => cases h
  | cons f rest ih =>
    rcases List.mem_cons.1 h with rfl | h
    · exact List.mem_cons_self
    · exact List.mem_cons_of_mem _ (ih h)

theorem exists_declared (seen : List String) {fields : List FieldDescriptor} {f : FieldDescriptor}
    (h : f ∈ fields) : ∃ earlier, (earlier, f) ∈ declared seen fields := by
  induction fields generalizing seen with
  | nil => cases h
  | cons g rest ih =>
    rcases List.mem_cons.1 h with rfl | h
    · exact ⟨seen, List.mem_cons_self⟩
    · obtain ⟨earlier, hearlier⟩ := ih (g.name :: seen) h
      exact ⟨earlier, List.mem_cons_of_mem _ hearlier⟩

/-- No field has the name of one before it if all names are different. -/
theorem declared_fresh_iff {seen : List String} {fields : List FieldDescriptor} :
    (∀ e ∈ declared seen fields, e.2.name ∉ e.1) ↔
      (fields.map (·.name)).Nodup ∧ ∀ f ∈ fields, f.name ∉ seen := by
  induction fields generalizing seen with
  | nil => simp [declared]
  | cons f rest ih =>
    rw [declared, List.forall_mem_cons, ih, List.map_cons, List.nodup_cons, List.forall_mem_cons]
    simp only [List.mem_cons, List.mem_map, not_or, not_exists, not_and]
    constructor
    · rintro ⟨hf, hnodup, hrest⟩
      exact ⟨⟨fun g hg => (hrest g hg).1, hnodup⟩, hf, fun g hg => (hrest g hg).2⟩
    · rintro ⟨⟨hnew, hnodup⟩, hf, hrest⟩
      exact ⟨hf, hnodup, fun g hg => ⟨hnew g hg, hrest g hg⟩⟩

/-- Something that is met. -/
inductive Visit where
  /-- A field of a struct type that has these fields before it. -/
  | field (typeName : String) (earlier : List String) (name : String)
  | reference (expanding : List String) (path : Path) (type : TypeRef)

/-- The fields of a struct type at the path, and what is visited below each of them. -/
def fieldVisits (below : Path → TypeRef → List Visit) (path : Path) (typeName : String)
    (fields : List (List String × FieldDescriptor)) : List Visit :=
  fields.flatMap fun e =>
    .field typeName e.1 e.2.name :: below (path.child e.2.name) e.2.type

/-- A reference and all that is met below it. -/
def Catalog.visitsFrom (c : Catalog) (expanding : List String) (path : Path) (t : TypeRef) :
    List Visit :=
  .reference expanding path t ::
    (((t.entered? c expanding).attach.elim [] fun d =>
        fieldVisits (fun path t => c.visitsFrom (expanding ++ [d.1.name]) path t) path d.1.name
          (declared [] d.1.fields)) ++
      t.parts.attach.flatMap fun part => c.visitsFrom expanding (path.child part.1.1) part.1.2)
termination_by (c.remaining expanding, sizeOf t)
decreasing_by
  · obtain ⟨-, hn, hd⟩ := TypeRef.entered?_eq_some_iff.1 d.2
    exact Prod.Lex.left _ _ (Catalog.remaining_lt hd hn)
  · exact Prod.Lex.right _ (TypeRef.sizeOf_lt_of_part part.2)

/-- Everything met, depth first and in the order of declaration. -/
def Catalog.visits (c : Catalog) : List Visit :=
  match c.describe c.root with
  | none => []
  | some d => fieldVisits (c.visitsFrom [c.root]) ⟨c.root, []⟩ d.name (declared [] d.fields)

/-- Is this met? -/
def Catalog.Met (c : Catalog) : Visit → Prop
  | .field typeName earlier name => ∃ expanding path d f, c.Enters expanding path d ∧
      (earlier, f) ∈ declared [] d.fields ∧ d.name = typeName ∧ f.name = name
  | .reference expanding path t => c.Meets expanding path t

namespace Catalog

variable {c : Catalog} {expanding : List String} {path : Path} {t : TypeRef}

theorem visitsFrom_eq : c.visitsFrom expanding path t = .reference expanding path t ::
    (((t.entered? c expanding).elim [] fun d =>
        fieldVisits (c.visitsFrom (expanding ++ [d.name])) path d.name (declared [] d.fields)) ++
      t.parts.flatMap fun part => c.visitsFrom expanding (path.child part.1) part.2) := by
  rw [visitsFrom]
  congr 2
  · cases t.entered? c expanding <;> rfl
  · have hmap := List.flatMap_map (Subtype.val : {part // part ∈ t.parts} → String × TypeRef)
      (fun part => c.visitsFrom expanding (path.child part.1) part.2) t.parts.attach
    rw [List.attach_map_subtype_val] at hmap
    exact hmap.symm

/-- What is below a reference: what is below its fields or its parts. -/
theorem mem_visitsFrom {v : Visit} : v ∈ c.visitsFrom expanding path t ↔
    v = .reference expanding path t ∨
    (∃ d, t.entered? c expanding = some d ∧
      v ∈ fieldVisits (c.visitsFrom (expanding ++ [d.name])) path d.name (declared [] d.fields)) ∨
    ∃ part ∈ t.parts, v ∈ c.visitsFrom expanding (path.child part.1) part.2 := by
  rw [visitsFrom_eq, List.mem_cons, List.mem_append, List.mem_flatMap]
  cases t.entered? c expanding <;> simp

theorem mem_fieldVisits {below : Path → TypeRef → List Visit} {typeName : String}
    {fields : List (List String × FieldDescriptor)} {v : Visit} :
    v ∈ fieldVisits below path typeName fields ↔ ∃ e ∈ fields,
      v = .field typeName e.1 e.2.name ∨ v ∈ below (path.child e.2.name) e.2.type := by
  unfold fieldVisits
  simp only [List.mem_flatMap, List.mem_cons]

theorem mem_visits {v : Visit} : v ∈ c.visits ↔ ∃ d, c.describe c.root = some d ∧
    v ∈ fieldVisits (c.visitsFrom [c.root]) ⟨c.root, []⟩ d.name (declared [] d.fields) := by
  unfold visits
  cases c.describe c.root <;> simp

/-- What is visited below a reference that is met is met. -/
theorem met_of_mem_visitsFrom {expanding : List String} {path : Path} {t : TypeRef}
    (ht : c.Meets expanding path t) {v : Visit} (hv : v ∈ c.visitsFrom expanding path t) : c.Met v := by
  rcases mem_visitsFrom.1 hv with rfl | ⟨d, hd, hv⟩ | ⟨part, hpart, hv⟩
  · exact ht
  · obtain ⟨⟨earlier, f⟩, he, hv⟩ := mem_fieldVisits.1 hv
    have henters : c.Enters (expanding ++ [d.name]) path d := .struct ht hd
    rcases hv with rfl | hv
    · exact ⟨_, _, d, f, henters, he, rfl, rfl⟩
    · exact met_of_mem_visitsFrom (henters.meets (mem_fields_of_declared he)) hv
  · exact met_of_mem_visitsFrom (.part ht hpart) hv
termination_by (c.remaining expanding, sizeOf t)
decreasing_by
  · obtain ⟨-, hn, hd⟩ := TypeRef.entered?_eq_some_iff.1 hd
    exact Prod.Lex.left _ _ (Catalog.remaining_lt hd hn)
  · exact Prod.Lex.right _ (TypeRef.sizeOf_lt_of_part hpart)

/-- Below a reference everything below each of the references there is visited. -/
theorem visitsFrom_subset {expanding below : List String} {path deeper : Path} {t u : TypeRef}
    (h : .reference below deeper u ∈ c.visitsFrom expanding path t) :
    c.visitsFrom below deeper u ⊆ c.visitsFrom expanding path t := by
  intro v hv
  rcases mem_visitsFrom.1 h with heq | ⟨d, hd, h⟩ | ⟨part, hpart, h⟩
  · cases heq
    exact hv
  · obtain ⟨e, he, h⟩ := mem_fieldVisits.1 h
    rcases h with h | h
    · cases h
    · have hbelow := visitsFrom_subset h hv
      exact mem_visitsFrom.2 (.inr (.inl ⟨d, hd, mem_fieldVisits.2 ⟨e, he, .inr hbelow⟩⟩))
  · have hbelow := visitsFrom_subset h hv
    exact mem_visitsFrom.2 (.inr (.inr ⟨part, hpart, hbelow⟩))
termination_by (c.remaining expanding, sizeOf t)
decreasing_by
  · obtain ⟨-, hn, hd⟩ := TypeRef.entered?_eq_some_iff.1 hd
    exact Prod.Lex.left _ _ (Catalog.remaining_lt hd hn)
  · exact Prod.Lex.right _ (TypeRef.sizeOf_lt_of_part hpart)

theorem visitsFrom_subset_visits (h : .reference expanding path t ∈ c.visits) :
    c.visitsFrom expanding path t ⊆ c.visits := by
  obtain ⟨d, hd, h⟩ := mem_visits.1 h
  obtain ⟨e, he, h⟩ := mem_fieldVisits.1 h
  rcases h with h | h
  · cases h
  · intro v hv
    exact mem_visits.2 ⟨d, hd, mem_fieldVisits.2 ⟨e, he, .inr (visitsFrom_subset h hv)⟩⟩

theorem mem_visits_of_meets (h : c.Meets expanding path t) :
    .reference expanding path t ∈ c.visits := by
  induction h with
  | root hd hf =>
    obtain ⟨earlier, hearlier⟩ := exists_declared [] hf
    exact mem_visits.2 ⟨_, hd, mem_fieldVisits.2 ⟨_, hearlier, .inr (mem_visitsFrom.2 (.inl rfl))⟩⟩
  | field _ hd hf ih =>
    obtain ⟨earlier, hearlier⟩ := exists_declared [] hf
    refine visitsFrom_subset_visits ih (mem_visitsFrom.2 (.inr (.inl ⟨_, hd, ?_⟩)))
    exact mem_fieldVisits.2 ⟨_, hearlier, .inr (mem_visitsFrom.2 (.inl rfl))⟩
  | part _ hpart ih =>
    refine visitsFrom_subset_visits ih (mem_visitsFrom.2 (.inr (.inr ⟨_, hpart, ?_⟩)))
    exact mem_visitsFrom.2 (.inl rfl)

/-- The visits are what is met. -/
theorem mem_visits_iff {v : Visit} : v ∈ c.visits ↔ c.Met v := by
  constructor
  · intro hv
    obtain ⟨d, hd, hv⟩ := mem_visits.1 hv
    obtain ⟨⟨earlier, f⟩, he, hv⟩ := mem_fieldVisits.1 hv
    rcases hv with rfl | hv
    · exact ⟨_, _, d, f, .root hd, he, rfl, rfl⟩
    · exact met_of_mem_visitsFrom (.root hd (mem_fields_of_declared he)) hv
  · intro hv
    match v with
    | .reference expanding path t => exact mem_visits_of_meets hv
    | .field _ earlier _ =>
      obtain ⟨expanding, path, d, f, henters, he, rfl, rfl⟩ := hv
      cases henters with
      | root hd => exact mem_visits.2 ⟨d, hd, mem_fieldVisits.2 ⟨_, he, .inl rfl⟩⟩
      | struct ht hd =>
        refine visitsFrom_subset_visits (mem_visits_of_meets ht) (mem_visitsFrom.2 ?_)
        exact .inr (.inl ⟨d, hd, mem_fieldVisits.2 ⟨_, he, .inl rfl⟩⟩)

end Catalog

/-! ### Defects -/

/-- What is wrong with a reference at the path while these types are being expanded. -/
def TypeRef.defect? (c : Catalog) (expanding : List String) (path : Path) (t : TypeRef) :
    Option SchemaError :=
  match t.tag? with
  | none => some (.unknownKind path t.kind)
  | some tag =>
    if t.averageSize.isSome && tag != .list then some (.unexpectedAverageSize path tag.label)
    else match tag with
      | .scalar _ => none
      | .decimal =>
        let precision := t.precision.getD defaultPrecision
        let scale := t.scale.getD defaultScale
        if validDecimal precision scale then none else some (.invalidDecimal path precision scale)
      | .struct =>
        match t.typeName with
        | none => some (.missingTypeName path)
        | some typeName =>
          if typeName ∈ expanding then some (.cycle path (cycleThrough expanding typeName))
          else if (c.describe typeName).isNone then some (.undefinedType path typeName)
          else none
      | .list =>
        if t.element.isNone then some (.missingChildType path "list" "element")
        else if t.averageSize = some 0 then some (.invalidAverageSize path)
        else none
      | .map =>
        if t.key.isNone then some (.missingChildType path "map" "key")
        else if t.value.isNone then some (.missingChildType path "map" "value")
        else none

/-- What is wrong with something that is met. -/
def Visit.defect? (c : Catalog) : Visit → Option SchemaError
  | .field typeName earlier name =>
    if name ∈ earlier then some (.duplicateField typeName name) else none
  | .reference expanding path t => t.defect? c expanding path

/-- What is wrong with a catalog, in the order in which it is met. -/
def Catalog.defects (c : Catalog) : List SchemaError :=
  if (c.describe c.root).isNone then [.unknownRootType c.root]
  else c.visits.filterMap (Visit.defect? c)

theorem validDecimal_iff {precision : UInt8} {scale : Int8} : validDecimal precision scale = true ↔
    1 ≤ precision.toNat ∧ precision.toNat ≤ 38 ∧ 0 ≤ scale.toInt ∧
      scale.toInt ≤ precision.toNat := by
  unfold validDecimal maxPrecision
  simp [UInt8.le_iff_toNat_le, Int8.le_iff_toInt_le, and_assoc]

/-- Only a struct reference to a type being expanded is a cycle. -/
theorem TypeRef.cycle_of_defect? {c : Catalog} {expanding : List String} {path at' : Path}
    {t : TypeRef} {names : List String}
    (h : t.defect? c expanding path = some (.cycle at' names)) :
    at' = path ∧ ∃ typeName ∈ expanding, t.structName? = some typeName ∧
      names = cycleThrough expanding typeName := by
  unfold defect? at h
  cases htag : t.tag? with
  | none =>
    rw [htag] at h
    cases h
  | some tag =>
    rw [htag] at h
    simp only at h
    split at h
    · cases h
    · cases tag with
      | struct =>
        simp only at h
        split at h
        · cases h
        · next typeName hname =>
          split at h
          · next hmem =>
            cases h
            exact ⟨rfl, typeName, hmem, structName?_eq_some_iff.2 ⟨htag, hname⟩, rfl⟩
          · split at h <;> cases h
      | scalar kind => cases h
      | decimal =>
        simp only at h
        split at h <;> cases h
      | list =>
        simp only at h
        split at h
        · cases h
        · split at h <;> cases h
      | map =>
        simp only at h
        split at h
        · cases h
        · split at h <;> cases h

section Proper

variable {c : Catalog} {expanding : List String} {path : Path} {t : TypeRef}

/-- Only a list has an average size, so any other kind has to be looked at for its own needs. -/
theorem TypeRef.proper_iff {tag : KindTag} (htag : t.tag? = some tag) (hlist : tag ≠ .list) :
    t.Proper c expanding ↔ t.averageSize = none ∧
      (tag = .map → t.key.isSome ∧ t.value.isSome) ∧
      (tag = .struct →
        ∃ typeName, t.typeName = some typeName ∧ typeName ∉ expanding ∧
          (c.describe typeName).isSome) ∧
      (tag = .decimal →
        validDecimal (t.precision.getD defaultPrecision) (t.scale.getD defaultScale)) := by
  constructor
  · intro h
    refine ⟨?_, fun hmap => h.map (hmap ▸ htag), fun hstruct => h.struct (hstruct ▸ htag),
      fun hdecimal => validDecimal_iff.2 (h.decimal (hdecimal ▸ htag))⟩
    cases hsize : t.averageSize with
    | none => rfl
    | some n =>
      have htag' := (h.averageSize n hsize).1
      rw [htag] at htag'
      exact absurd (Option.some.inj htag') hlist
  · rintro ⟨hsize, hmap, hstruct, hdecimal⟩
    refine ⟨by rw [htag]; rfl, fun n hn => ?_, fun h => ?_, fun h => ?_, fun h => ?_, fun h => ?_⟩
    · rw [hsize] at hn
      cases hn
    all_goals
      rw [htag] at h
      cases h
    · exact absurd rfl hlist
    · exact hmap rfl
    · exact hstruct rfl
    · exact validDecimal_iff.1 (hdecimal rfl)

theorem TypeRef.proper_list_iff (htag : t.tag? = some .list) :
    t.Proper c expanding ↔ t.element.isSome ∧ t.averageSize ≠ some 0 := by
  constructor
  · exact fun h => ⟨h.list htag, fun hzero => (h.averageSize 0 hzero).2 rfl⟩
  · rintro ⟨helement, hsize⟩
    refine ⟨by rw [htag]; rfl, fun n hn => ⟨htag, ?_⟩, fun _ => helement, ?_, ?_, ?_⟩
    · rintro rfl
      exact hsize hn
    all_goals
      intro h
      rw [htag] at h
      cases h

/-- A reference has no defect if it is what it has to be. -/
theorem TypeRef.defect?_eq_none_iff :
    t.defect? c expanding path = none ↔ t.Proper c expanding := by
  unfold defect?
  cases htag : t.tag? with
  | none =>
    refine ⟨nofun, fun h => ?_⟩
    have hknown := h.known
    rw [htag] at hknown
    cases hknown
  | some tag =>
    by_cases hlist : tag = .list
    · subst hlist
      rw [proper_list_iff htag]
      cases t.element <;> simp
    · rw [proper_iff htag hlist]
      cases t.averageSize with
      | some n => simp [hlist]
      | none =>
        cases tag with
        | scalar kind => simp
        | decimal => simp
        | struct =>
          cases t.typeName with
          | none => simp
          | some typeName =>
            by_cases hn : typeName ∈ expanding <;>
              cases hd : c.describe typeName <;> simp [hn, hd]
        | list => exact absurd rfl hlist
        | map => cases t.key <;> cases t.value <;> simp

end Proper

end Columnar
