import Columnar.Catalog.Document
import Columnar.Proofs.Json.Reading

/-! # Type references in tables

    The members that a type reference is written as are read as that
    reference, whatever other members stand in the same table
    (`ofDocument_toMembers`).  A document that holds a reference nests at
    least as deep as the table that the reference is written as
    (`depth_toMembers_le`).

    Both are inductions on the reference, through the references nested in
    it. -/

namespace Columnar

namespace Document

/-! ### Looking up members -/

section Members

variable {α β : Type}

theorem member?_cons (name key : String) (d : Document) (rest : List (String × Document)) :
    member? name ((key, d) :: rest) = if key = name then some d else member? name rest := by
  by_cases h : key = name <;> simp [member?, h]

theorem member?_append (name : String) (xs ys : List (String × Document)) :
    member? name (xs ++ ys) = (member? name xs).or (member? name ys) := by
  simp [member?, List.find?_append, Option.map_or]

/-- A member that is left out where its value is not given. -/
theorem member?_toList (name key : String) (f : α → Document) (o : Option α) :
    member? name (o.map fun x => (key, f x)).toList = if key = name then o.map f else none := by
  cases o with
  | none => simp [member?]
  | some x =>
    by_cases h : key = name <;> simp [member?, h]

theorem member?_eq_none {name : String} {members : List (String × Document)}
    (h : ∀ member ∈ members, member.1 ≠ name) : member? name members = none := by
  simpa [member?] using h

section Apart

variable {names : List String} {xs ys : List (String × Document)}
  (hys : ∀ name ∈ names, ∀ member ∈ ys, member.1 ≠ name)
include hys

/-- Members of other names are not found in front of those that are looked for, nor behind them. -/
theorem member?_of_apart {name : String} (hname : name ∈ names) :
    member? name (xs ++ ys) = member? name xs ∧ member? name (ys ++ xs) = member? name xs := by
  have hnone := member?_eq_none (hys name hname)
  exact ⟨by rw [member?_append, hnone, Option.or_none],
    by rw [member?_append, hnone, Option.none_or]⟩

/-- Members of other names repeat none of the names. -/
theorem all_countP_of_apart (hxs : ∀ name ∈ names, xs.countP (·.1 == name) ≤ 1) :
    (names.all fun n => (xs ++ ys).countP (·.1 == n) ≤ 1) = true ∧
      (names.all fun n => (ys ++ xs).countP (·.1 == n) ≤ 1) = true := by
  have hnone : ∀ name ∈ names, ys.countP (·.1 == name) = 0 := by
    intro name hname
    simpa [List.countP_eq_zero] using hys name hname
  refine ⟨List.all_eq_true.2 fun n hn => ?_, List.all_eq_true.2 fun n hn => ?_⟩
  · rw [List.countP_append, hnone n hn, Nat.add_zero]
    exact decide_eq_true (hxs n hn)
  · rw [List.countP_append, hnone n hn, Nat.zero_add]
    exact decide_eq_true (hxs n hn)

end Apart

theorem exists_of_member? {name : String} {members : List (String × Document)} {d : Document}
    (h : member? name members = some d) : ∃ key, (key, d) ∈ members := by
  obtain ⟨⟨key, _⟩, hfind, rfl⟩ := Option.map_eq_some_iff.1 h
  exact ⟨key, List.mem_of_find?_eq_some hfind⟩

/-- A member that is left out or not `null` is read as what it is written from. -/
theorem optional_of_member? {read : Document → Option β} {name : String}
    {members : List (String × Document)} {o : Option α} {f : α → Document} {g : α → β}
    (h : member? name members = o.map f) (hnull : ∀ x, f x ≠ .null)
    (hread : ∀ x, o = some x → read (f x) = some (g x)) :
    optional read name members = some (o.map g) := by
  unfold optional
  rw [h]
  cases o with
  | none => rfl
  | some x =>
    rw [Option.map_some]
    split
    · next heq => cases heq
    · next heq => exact absurd (Option.some.inj heq) (hnull x)
    · next heq =>
      rw [← Option.some.inj heq, hread x rfl]
      rfl

theorem optional_eq_some {read : Document → Option α} {name : String}
    {members : List (String × Document)} {o : Option α} {f : α → Document}
    (h : member? name members = o.map f) (hnull : ∀ x, f x ≠ .null)
    (hread : ∀ x, o = some x → read (f x) = some x) : optional read name members = some o := by
  have hself := optional_of_member? h hnull hread
  rwa [Option.map_id'] at hself

/-- What is read from a member that may be left out comes from a member. -/
theorem exists_of_optional {read : Document → Option β} {name : String}
    {members : List (String × Document)} {b : β}
    (h : optional read name members = some (some b)) :
    ∃ key d, (key, d) ∈ members ∧ read d = some b := by
  unfold optional at h
  split at h
  · cases h
  · cases h
  · next d _ hd =>
    obtain ⟨key, hmem⟩ := exists_of_member? hd
    obtain ⟨b', hb, heq⟩ := Option.map_eq_some_iff.1 h
    cases heq
    exact ⟨key, d, hmem, hb⟩

end Members

/-! ### Parts of documents -/

theorem depth_of_mem_table {members : List (String × Document)} {member : String × Document}
    (h : member ∈ members) : member.2.depth + 1 ≤ (Document.table members).depth := by
  rw [depth, Nat.add_le_add_iff_right]
  exact Json.depthMembers_le_iff.1 (Nat.le_refl _) member h

theorem depth_of_mem_list {items : List Document} {d : Document} (h : d ∈ items) :
    d.depth + 1 ≤ (Document.list items).depth := by
  rw [depth, Nat.add_le_add_iff_right]
  exact Json.depthItems_le_iff.1 (Nat.le_refl _) d h

end Document

namespace TypeRef

/-! ### What a reference is read from -/

theorem readMembers_eq_map (members : List (String × Document)) :
    readMembers members = members.map fun member => (member.1, ⟨member.2, ofDocument member.2⟩) := by
  induction members with
  | nil => rfl
  | cons member rest ih =>
    obtain ⟨key, d⟩ := member
    rw [readMembers, ih, List.map_cons]

theorem readItems_eq_map (items : List Document) :
    readItems items = items.map fun d => ⟨d, ofDocument d⟩ := by
  induction items with
  | nil => rfl
  | cons d rest ih => rw [readItems, ih, List.map_cons]

/-- The items of a list are read like members with the known names in order. -/
theorem zip_readItems (names : List String) (items : List Document) :
    names.zip (readItems items) = readMembers (names.zip items) := by
  rw [readItems_eq_map, readMembers_eq_map, List.zip_map_right]
  rfl

/-- Nested references are members that may be left out. -/
theorem nested_readMembers (name : String) (members : List (String × Document)) :
    nested name (readMembers members) = Document.optional ofDocument name members := by
  rw [readMembers_eq_map, nested, List.find?_map, Document.optional, Document.member?]
  have hname : ((fun reading : String × Reading => reading.1 == name) ∘
      fun member : String × Document => (member.1, ⟨member.2, ofDocument member.2⟩)) =
        fun member => member.1 == name := rfl
  rw [hname]
  cases members.find? (·.1 == name) with
  | none => rfl
  | some member =>
    obtain ⟨key, d⟩ := member
    cases d <;> rfl

/-- A reference is read from a table, or from a list with the known members in order. -/
theorem ofDocument_eq_some {d : Document} {t : TypeRef} (h : ofDocument d = some t) :
    ∃ members, ofReadings (readMembers members) = some t ∧
      ∀ member ∈ members, sizeOf member.2 < sizeOf d ∧ member.2.depth + 1 ≤ d.depth := by
  cases d with
  | table members =>
    rw [ofDocument] at h
    split at h
    · refine ⟨members, h, fun member hmember => ⟨?_, Document.depth_of_mem_table hmember⟩⟩
      have hlt := List.sizeOf_lt_of_mem hmember
      obtain ⟨key, d⟩ := member
      simp only [Document.table.sizeOf_spec, Prod.mk.sizeOf_spec] at hlt ⊢
      omega
    · cases h
  | list items =>
    rw [ofDocument] at h
    split at h
    · rw [zip_readItems] at h
      refine ⟨_, h, fun member hmember => ?_⟩
      have hitem : member.2 ∈ items := (List.of_mem_zip hmember).2
      refine ⟨?_, Document.depth_of_mem_list hitem⟩
      have hlt := List.sizeOf_lt_of_mem hitem
      rw [Document.list.sizeOf_spec]
      omega
    · cases h
  | _ => cases h

/-! ### Nested references -/

/-- The references nested in a reference, whether its kind uses them or not. -/
def inner (t : TypeRef) : List TypeRef :=
  t.element.toList ++ t.key.toList ++ t.value.toList

theorem sizeOf_of_mem_inner {t ref : TypeRef} (h : ref ∈ t.inner) : sizeOf ref < sizeOf t := by
  obtain ⟨kind, typeName, element, key, value, averageSize, precision, scale⟩ := t
  simp only [inner, List.mem_append, Option.mem_toList] at h
  rw [mk.sizeOf_spec]
  rcases h with (h | h) | h <;> cases h <;> rw [Option.some.sizeOf_spec] <;> omega

/-- Every nested reference was read from one of the members. -/
theorem exists_of_mem_inner {members : List (String × Document)} {t ref : TypeRef}
    (h : ofReadings (readMembers members) = some t) (href : ref ∈ t.inner) :
    ∃ key d, (key, d) ∈ members ∧ ofDocument d = some ref := by
  unfold ofReadings at h
  simp only [nested_readMembers, Option.bind_eq_bind, Option.bind_eq_some_iff] at h
  obtain ⟨_, -, _, -, _, -, _, -, _, -, element, helement, key, hkey, value, hvalue, h⟩ := h
  cases h
  simp only [inner, List.mem_append, Option.mem_toList] at href
  rcases href with (rfl | rfl) | rfl
  · exact Document.exists_of_optional helement
  · exact Document.exists_of_optional hkey
  · exact Document.exists_of_optional hvalue

/-! ### What a reference is written as -/

theorem toMember_eq (name : String) (o : Option TypeRef) :
    toMember name o = (o.map fun t => (name, Document.table t.toMembers)).toList := by
  cases o <;> rw [toMember] <;> rfl

theorem toMembers_eq (t : TypeRef) :
    t.toMembers = ("kind", .text t.kind)
      :: (t.typeName.map fun s => ("type_name", Document.text s)).toList
      ++ (t.element.map fun t => ("element", Document.table t.toMembers)).toList
      ++ (t.key.map fun t => ("key", Document.table t.toMembers)).toList
      ++ (t.value.map fun t => ("value", Document.table t.toMembers)).toList
      ++ (t.averageSize.map fun n => ("average_size", Document.integer n.toNat)).toList
      ++ (t.precision.map fun n => ("precision", Document.integer n.toNat)).toList
      ++ (t.scale.map fun n => ("scale", Document.integer n.toInt)).toList := by
  cases t
  simp only [toMembers, toMember_eq]

theorem member?_toMembers (t : TypeRef) (name : String) :
    Document.member? name t.toMembers =
      if "kind" = name then some (.text t.kind) else
        (if "type_name" = name then t.typeName.map .text else none).or
        ((if "element" = name then t.element.map fun t => .table t.toMembers else none).or
        ((if "key" = name then t.key.map fun t => .table t.toMembers else none).or
        ((if "value" = name then t.value.map fun t => .table t.toMembers else none).or
        ((if "average_size" = name then t.averageSize.map fun n => .integer n.toNat else none).or
        ((if "precision" = name then t.precision.map fun n => .integer n.toNat else none).or
        (if "scale" = name then t.scale.map fun n => .integer n.toInt else none)))))) := by
  rw [toMembers_eq]
  simp only [List.cons_append, List.append_assoc, Document.member?_cons, Document.member?_append,
    Document.member?_toList]

/-- A member is a text, a number, or the table of a nested reference. -/
theorem mem_toMembers {t : TypeRef} {member : String × Document} (h : member ∈ t.toMembers) :
    (∃ s, member.2 = .text s) ∨ (∃ n : Int, -128 ≤ n ∧ n < 4294967296 ∧ member.2 = .integer n) ∨
      ∃ ref ∈ t.inner, member.2 = .table ref.toMembers := by
  rw [toMembers_eq] at h
  simp only [List.cons_append, List.mem_cons, List.mem_append, Option.mem_toList,
    Option.map_eq_some_iff, or_assoc] at h
  rcases h with rfl | ⟨s, -, rfl⟩ | ⟨ref, href, rfl⟩ | ⟨ref, href, rfl⟩ | ⟨ref, href, rfl⟩ |
    ⟨n, -, rfl⟩ | ⟨n, -, rfl⟩ | ⟨n, -, rfl⟩
  · exact .inl ⟨_, rfl⟩
  · exact .inl ⟨_, rfl⟩
  · exact .inr (.inr ⟨ref, by simp [inner, href], rfl⟩)
  · exact .inr (.inr ⟨ref, by simp [inner, href], rfl⟩)
  · exact .inr (.inr ⟨ref, by simp [inner, href], rfl⟩)
  · have hn := n.toNat_lt
    exact .inr (.inl ⟨n.toNat, by omega, by omega, rfl⟩)
  · have hn := n.toNat_lt
    exact .inr (.inl ⟨n.toNat, by omega, by omega, rfl⟩)
  · have hlow := n.le_toInt
    have hhigh := n.toInt_lt
    exact .inr (.inl ⟨n.toInt, by omega, by omega, rfl⟩)

theorem sublist_names_toMembers (t : TypeRef) :
    (t.toMembers.map (·.1)).Sublist memberNames := by
  have hleft : ∀ {α : Type} (name : String) (f : α → Document) (o : Option α),
      ((o.map fun x => (name, f x)).toList.map (·.1)).Sublist [name] := by
    intro α name f o
    cases o <;> simp
  rw [toMembers_eq]
  simp only [List.map_append, List.map_cons]
  exact (((((((((List.Sublist.refl ["kind"]).append (hleft _ _ _)).append (hleft _ _ _)).append
    (hleft _ _ _)).append (hleft _ _ _)).append (hleft _ _ _)).append (hleft _ _ _)).append
    (hleft _ _ _)))

theorem name_mem_of_mem_toMembers {t : TypeRef} {member : String × Document}
    (h : member ∈ t.toMembers) : member.1 ∈ memberNames :=
  (sublist_names_toMembers t).subset (List.mem_map_of_mem h)

/-! ### Reading what was written -/

theorem ofReadings_readMembers {members : List (String × Document)} {t : TypeRef}
    (hkind : Document.required Document.text? "kind" members = some t.kind)
    (htypeName : Document.optional Document.text? "type_name" members = some t.typeName)
    (helement : Document.optional ofDocument "element" members = some t.element)
    (hkey : Document.optional ofDocument "key" members = some t.key)
    (hvalue : Document.optional ofDocument "value" members = some t.value)
    (haverageSize : Document.optional (Document.integerWithin? 0 4294967295) "average_size" members =
      some (t.averageSize.map fun n => (n.toNat : Int)))
    (hprecision : Document.optional (Document.integerWithin? 0 255) "precision" members =
      some (t.precision.map fun n => (n.toNat : Int)))
    (hscale : Document.optional (Document.integerWithin? (-128) 127) "scale" members =
      some (t.scale.map Int8.toInt)) :
    ofReadings (readMembers members) = some t := by
  have hmembers : ∀ document : String × Reading → String × Document,
      (∀ name reading, document (name, reading) = (name, reading.document)) →
      (readMembers members).map document = members := by
    intro document hdocument
    rw [readMembers_eq_map, List.map_map]
    exact (List.map_congr_left fun member _ => hdocument _ _).trans (List.map_id members)
  unfold ofReadings
  simp only [nested_readMembers]
  rw [hmembers _ fun _ _ => rfl, haverageSize, hprecision, hscale, hkind, htypeName, helement, hkey, hvalue]
  cases t
  simp [Function.comp_def]

/-- No known member is given twice. -/
theorem countP_toMembers_le (t : TypeRef) {n : String} (hn : n ∈ memberNames) :
    t.toMembers.countP (·.1 == n) ≤ 1 := by
  have hnames : ∀ n ∈ memberNames, memberNames.count n ≤ 1 := by decide
  calc t.toMembers.countP (·.1 == n)
      = (t.toMembers.map (·.1)).count n := by
        rw [List.count, List.countP_map]
        rfl
    _ ≤ memberNames.count n := (sublist_names_toMembers t).count_le n
    _ ≤ 1 := hnames n hn

/-- A reference is read from any table in which its members are found, if those nested in it are read
    from theirs. -/
theorem ofDocument_of_member? {members : List (String × Document)} {t : TypeRef}
    (hcount : (memberNames.all fun n => members.countP (·.1 == n) ≤ 1) = true)
    (hlookup : ∀ name ∈ memberNames,
      Document.member? name members = Document.member? name t.toMembers)
    (hinner : ∀ ref ∈ t.inner, ofDocument (.table ref.toMembers) = some ref) :
    ofDocument (.table members) = some t := by
  simp only [memberNames, List.forall_mem_cons, member?_toMembers, String.reduceEq, if_true,
    if_false, Option.none_or, Option.or_none] at hlookup
  obtain ⟨hkind, htypeName, helement, hkey, hvalue, haverageSize, hprecision, hscale, -⟩ := hlookup
  have hnested : ∀ {name : String} {o : Option TypeRef}, (∀ ref, o = some ref → ref ∈ t.inner) →
      Document.member? name members = o.map (fun t => .table t.toMembers) →
      Document.optional ofDocument name members = some o := by
    intro name o ho hmember
    exact Document.optional_eq_some hmember (by simp) fun ref h => hinner ref (ho ref h)
  rw [ofDocument, if_pos hcount]
  refine ofReadings_readMembers ?_ ?_ (hnested ?_ helement) (hnested ?_ hkey) (hnested ?_ hvalue)
    ?_ ?_ ?_
  · rw [Document.required, hkind]
    rfl
  · exact Document.optional_eq_some htypeName (by simp) fun s _ => rfl
  · simp +contextual [inner]
  · simp +contextual [inner]
  · simp +contextual [inner]
  -- numbers lie between the bounds of their types
  · refine Document.optional_of_member? haverageSize (by simp) fun n _ => if_pos ?_
    have hn := n.toNat_lt
    omega
  · refine Document.optional_of_member? hprecision (by simp) fun n _ => if_pos ?_
    have hn := n.toNat_lt
    omega
  · refine Document.optional_of_member? hscale (by simp) fun n _ => if_pos ?_
    have hlow := n.le_toInt
    have hhigh := n.toInt_lt
    omega

/-- A reference is read back from a table with its members and other members before them. -/
theorem ofDocument_toMembers {extra : List (String × Document)}
    (hextra : ∀ name ∈ memberNames, ∀ member ∈ extra, member.1 ≠ name) (t : TypeRef) :
    ofDocument (.table (extra ++ t.toMembers)) = some t := by
  have hcount := (Document.all_countP_of_apart hextra fun name => t.countP_toMembers_le).2
  refine ofDocument_of_member? hcount
    (fun name hname => (Document.member?_of_apart hextra hname).2) fun ref href => ?_
  have hlt := sizeOf_of_mem_inner href
  have hnil : ∀ name ∈ memberNames, ∀ member ∈ ([] : List (String × Document)),
      member.1 ≠ name := by simp
  exact ofDocument_toMembers hnil ref
termination_by sizeOf t

/-! ### Nesting -/

/-- The members of a reference nest no deeper than the tables of those nested in it. -/
theorem depthMembers_toMembers_le {t : TypeRef} {n : Nat}
    (h : ∀ ref ∈ t.inner, (Document.table ref.toMembers).depth ≤ n) :
    Document.depthMembers t.toMembers ≤ n := by
  rw [Json.depthMembers_le_iff]
  intro member hmember
  rcases mem_toMembers hmember with ⟨s, hd⟩ | ⟨k, -, -, hd⟩ | ⟨ref, href, hd⟩
  · rw [hd]
    exact Nat.zero_le n
  · rw [hd]
    exact Nat.zero_le n
  · rw [hd]
    exact h ref href

/-- A document nests at least as deep as the reference that it holds is written. -/
theorem depth_toMembers_le {d : Document} {t : TypeRef} (h : ofDocument d = some t) :
    (Document.table t.toMembers).depth ≤ d.depth := by
  obtain ⟨members, hread, hmembers⟩ := ofDocument_eq_some h
  have href : ∀ ref ∈ t.inner, (Document.table ref.toMembers).depth ≤ d.depth - 1 := by
    intro ref href
    obtain ⟨key, e, hmem, he⟩ := exists_of_mem_inner hread href
    obtain ⟨hlt, hle⟩ := hmembers (key, e) hmem
    have hdepth := depth_toMembers_le he
    dsimp only at hle
    omega
  have hself : 1 ≤ d.depth := by
    cases d with
    | table members => exact Nat.le_add_left ..
    | list items => exact Nat.le_add_left ..
    | _ => cases h
  have hdepth := depthMembers_toMembers_le href
  rw [Document.depth]
  omega
termination_by sizeOf d

/-- JSON has a text for every member of a reference. -/
theorem writable_toMembers (t : TypeRef) : Json.writableMembers t.toMembers = true := by
  rw [Json.writableMembers_iff]
  intro member hmember
  rcases mem_toMembers hmember with ⟨s, hd⟩ | ⟨n, hlow, hhigh, hd⟩ | ⟨ref, href, hd⟩
  · rw [hd]
    rfl
  · rw [hd]
    refine decide_eq_true ?_
    have hmax : (4294967296 : Nat) ≤ Json.maxCoefficient := by decide
    omega
  · have hlt := sizeOf_of_mem_inner href
    rw [hd]
    exact writable_toMembers ref
termination_by sizeOf t

end TypeRef

end Columnar
