import Columnar.Proofs.Catalog.Reference
import Mathlib.Data.Option.Basic

/-! # Fields and types as documents, there and back

    What a field or a type is written as is read as the same again, if it does
    not nest too deep for the reader; if it does, it is not read at all
    (`ofDocument_within`).  What is read from a document nests no deeper than
    the document when written, apart from the levels that writing always has
    (`depth_toDocument_le`). -/

namespace Columnar

/-! ### Lists of parts -/

section Lists

variable {α : Type}

/-- Items that stand inside so many lists and tables are read as what they were written from, unless
    one of them nests too deep. -/
theorem mapM_withinItems {read : Document → Option α} {write : α → Document} {enclosing : Nat}
    (h : enclosing ≤ Json.maxDepth) (xs : List α)
    (hread : ∀ x ∈ xs, read (Json.within enclosing (write x)) =
      if enclosing + (write x).depth ≤ Json.maxDepth then some x else none) :
    (Json.withinItems enclosing (xs.map write)).mapM read =
      if enclosing + Document.depthItems (xs.map write) ≤ Json.maxDepth then some xs else none := by
  induction xs with
  | nil => exact (if_pos h).symm
  | cons x rest ih =>
    have hrest := ih fun y hy => hread y (List.mem_cons_of_mem x hy)
    rw [List.map_cons, Json.withinItems, List.mapM_cons, hread x List.mem_cons_self, hrest,
      Document.depthItems]
    by_cases hx : enclosing + (write x).depth ≤ Json.maxDepth
    · rw [if_pos hx]
      by_cases hall : enclosing + Document.depthItems (rest.map write) ≤ Json.maxDepth
      · rw [if_pos hall, if_pos (by omega)]
        rfl
      · rw [if_neg hall, if_neg (by omega)]
        rfl
    · have hmax : ¬enclosing + max (write x).depth (Document.depthItems (rest.map write)) ≤
          Json.maxDepth := by omega
      rw [if_neg hx, if_neg hmax]
      rfl

namespace Document

theorem withDefault_list {read : Document → Option α} {name : String}
    {members : List (String × Document)} {items : List Document}
    (h : member? name members = some (.list items)) :
    withDefault [] (fun d => d.list?.bind fun items => items.mapM read) name members =
      items.mapM read := by
  rw [withDefault, h]
  rfl

/-- What stands in a list that may be left out was read from an item of a member. -/
theorem exists_of_withDefault_list {read : Document → Option α} {name : String}
    {members : List (String × Document)} {xs : List α}
    (h : withDefault [] (fun d => d.list?.bind fun items => items.mapM read) name members = some xs)
    {x : α} (hx : x ∈ xs) :
    ∃ key items d, (key, .list items) ∈ members ∧ d ∈ items ∧ read d = some x := by
  unfold withDefault at h
  split at h
  · cases h
    cases hx
  · next d hd =>
    obtain ⟨key, hmem⟩ := exists_of_member? hd
    obtain ⟨items, hitems, h⟩ := Option.bind_eq_some_iff.1 h
    cases d with
    | list items' =>
      cases hitems
      obtain ⟨item, hitem, hread⟩ := exists_of_mapM_eq_some h hx
      exact ⟨key, items, item, hmem, hitem, hread⟩
    | _ => cases hitems

/-- The members of a structure nest less deep than its document. -/
theorem depth_of_members? {surplus : Surplus} {names : List String} {d : Document}
    {members : List (String × Document)} (h : members? surplus names d = some members)
    {member : String × Document} (hmember : member ∈ members) : member.2.depth + 1 ≤ d.depth := by
  cases d with
  | table members' =>
    rw [members?] at h
    split at h
    · cases h
      exact depth_of_mem_table hmember
    · cases h
  | list items =>
    rw [members?] at h
    split at h
    · cases h
      exact depth_of_mem_list (List.of_mem_zip hmember).2
    · cases h
  | _ => cases h

/-- A part that was read from an item of a list nests two levels below the structure. -/
theorem depth_of_withDefault_list {surplus : Surplus} {names : List String} {d : Document}
    {members : List (String × Document)} (hd : members? surplus names d = some members)
    {read : Document → Option α} {name : String} {xs : List α}
    (h : withDefault [] (fun d => d.list?.bind fun items => items.mapM read) name members = some xs)
    {x : α} (hx : x ∈ xs) : ∃ part, read part = some x ∧ part.depth + 2 ≤ d.depth := by
  obtain ⟨key, items, part, hmem, hitem, hread⟩ := exists_of_withDefault_list h hx
  have hlist := depth_of_members? hd hmem
  have hpart := depth_of_mem_list hitem
  dsimp only at hlist
  exact ⟨part, hread, by omega⟩

end Document

end Lists

/-! ### Fields -/

namespace FieldDescriptor

/-- The members of a field that are not those of its type. -/
def ownMembers (f : FieldDescriptor) : List (String × Document) :=
  ("name", .text f.name) :: (f.accessor.map fun s => ("accessor", Document.text s)).toList

theorem toDocument_eq (f : FieldDescriptor) :
    f.toDocument = .table (f.ownMembers ++ f.type.toMembers) := rfl

theorem mem_ownMembers {f : FieldDescriptor} {member : String × Document}
    (h : member ∈ f.ownMembers) :
    (member.1 = "name" ∨ member.1 = "accessor") ∧ ∃ s, member.2 = .text s := by
  simp only [ownMembers, List.mem_cons, Option.mem_toList, Option.map_eq_some_iff] at h
  rcases h with rfl | ⟨s, -, rfl⟩
  · exact ⟨.inl rfl, _, rfl⟩
  · exact ⟨.inr rfl, _, rfl⟩

theorem depth_toDocument (f : FieldDescriptor) :
    f.toDocument.depth = (Document.table f.type.toMembers).depth := by
  have hown : Document.depthMembers f.ownMembers = 0 := by
    rw [← Nat.le_zero, Json.depthMembers_le_iff]
    intro member hmember
    obtain ⟨-, s, hd⟩ := mem_ownMembers hmember
    rw [hd]
    exact Nat.le_refl 0
  rw [toDocument_eq, Document.depth, Document.depth, Json.depthMembers_append, hown, Nat.zero_max]

theorem writable_toDocument (f : FieldDescriptor) : Json.writable f.toDocument = true := by
  rw [toDocument_eq, Json.writable, Json.writableMembers_iff]
  intro member hmember
  rcases List.mem_append.1 hmember with hmember | hmember
  · obtain ⟨-, s, hd⟩ := mem_ownMembers hmember
    rw [hd]
    rfl
  · exact Json.writableMembers_iff.1 f.type.writable_toMembers member hmember

theorem readable_of_ofDocument {d : Document} {f : FieldDescriptor} (h : ofDocument d = some f) :
    d.readable = true := by
  unfold ofDocument at h
  split at h
  · simp only [Option.bind_eq_bind, Option.bind_eq_some_iff] at h
    obtain ⟨_, hread, -⟩ := h
    exact (Option.guard_eq_some' _).1 hread
  · cases h

/-- A field is read back. -/
theorem ofDocument_toDocument (f : FieldDescriptor) : ofDocument f.toDocument = some f := by
  have hread : (Document.table (f.ownMembers ++ f.type.toMembers)).readable = true :=
    Json.readable_of_writable f.writable_toDocument
  have hapart : ∀ name ∈ TypeRef.memberNames, name ≠ "name" ∧ name ≠ "accessor" := by decide
  have hextra : ∀ name ∈ TypeRef.memberNames, ∀ member ∈ f.ownMembers, member.1 ≠ name := by
    rintro name hname member hmember rfl
    have hne := hapart _ hname
    exact (mem_ownMembers hmember).1.elim hne.1 hne.2
  have htype : TypeRef.ofDocument (.table (f.ownMembers ++ f.type.toMembers)) = some f.type :=
    TypeRef.ofDocument_toMembers hextra f.type
  -- the members of the type are none of the field
  have hother : ∀ name ∈ ["name", "accessor"], ∀ member ∈ f.type.toMembers, member.1 ≠ name := by
    rintro name hname member hmember rfl
    have hne := hapart _ (TypeRef.name_mem_of_mem_toMembers hmember)
    simp [hne] at hname
  have hone : ∀ name ∈ ["name", "accessor"], f.ownMembers.countP (·.1 == name) ≤ 1 := by
    cases haccessor : f.accessor <;> simp [ownMembers, haccessor]
  have hcount := (Document.all_countP_of_apart hother hone).1
  have hname : Document.required Document.text? "name" (f.ownMembers ++ f.type.toMembers) =
      some f.name := by
    rw [Document.required, (Document.member?_of_apart hother (by decide)).1]
    rfl
  have haccessor : Document.optional Document.text? "accessor"
      (f.ownMembers ++ f.type.toMembers) = some f.accessor := by
    refine Document.optional_eq_some ?_ (f := .text) (by simp) fun s _ => rfl
    rw [(Document.member?_of_apart hother (by decide)).1, ownMembers, Document.member?_cons,
      Document.member?_toList]
    simp
  rw [toDocument_eq, ofDocument]
  simp only [guard, if_pos hread, if_pos hcount, hname, haccessor, htype]
  rfl

/-- A field inside so many lists and tables is read, unless it nests too deep with them. -/
theorem ofDocument_within (f : FieldDescriptor) {enclosing : Nat} (h : enclosing ≤ Json.maxDepth) :
    ofDocument (Json.within enclosing f.toDocument) =
      if enclosing + f.toDocument.depth ≤ Json.maxDepth then some f else none := by
  split
  · next hdepth => rw [Json.within_eq_self hdepth, ofDocument_toDocument]
  · next hdepth =>
    rw [Option.eq_none_iff_forall_ne_some]
    intro g hg
    exact hdepth (Json.depth_of_readable h (readable_of_ofDocument hg))

theorem depth_toDocument_le {d : Document} {f : FieldDescriptor} (h : ofDocument d = some f) :
    f.toDocument.depth ≤ d.depth := by
  rw [depth_toDocument]
  unfold ofDocument at h
  split at h
  · simp only [Option.bind_eq_bind, Option.bind_eq_some_iff] at h
    obtain ⟨_, -, _, -, _, -, _, -, type, htype, h⟩ := h
    cases h
    exact TypeRef.depth_toMembers_le htype
  · cases h

end FieldDescriptor

/-! ### Types -/

namespace TypeDescription

/-- The members of a type before its fields. -/
def ownMembers (t : TypeDescription) : List (String × Document) :=
  ("name", .text t.name)
    :: (t.accessors.map fun names => ("accessors", Document.list (names.map .text))).toList

theorem toDocument_eq (t : TypeDescription) :
    t.toDocument = .table (t.ownMembers ++
      [("fields", .list (t.fields.map FieldDescriptor.toDocument))]) := rfl

theorem mem_ownMembers {t : TypeDescription} {member : String × Document}
    (h : member ∈ t.ownMembers) :
    (∃ s, member.2 = .text s) ∨ ∃ names : List String, member.2 = .list (names.map .text) := by
  simp only [ownMembers, List.mem_cons, Option.mem_toList, Option.map_eq_some_iff] at h
  rcases h with rfl | ⟨names, -, rfl⟩
  · exact .inl ⟨_, rfl⟩
  · exact .inr ⟨names, rfl⟩

theorem depthItems_texts (names : List String) : Document.depthItems (names.map .text) = 0 := by
  rw [← Nat.le_zero, Json.depthItems_le_iff]
  intro d hd
  obtain ⟨s, -, rfl⟩ := List.mem_map.1 hd
  exact Nat.le_refl 0

theorem depthMembers_ownMembers_le (t : TypeDescription) :
    Document.depthMembers t.ownMembers ≤ 1 := by
  rw [Json.depthMembers_le_iff]
  intro member hmember
  rcases mem_ownMembers hmember with ⟨s, hd⟩ | ⟨names, hd⟩
  · rw [hd]
    exact Nat.zero_le 1
  · rw [hd, Document.depth, depthItems_texts]

/-- The fields of a type nest two levels deeper than the type. -/
theorem depth_toDocument (t : TypeDescription) :
    t.toDocument.depth = Document.depthItems (t.fields.map FieldDescriptor.toDocument) + 2 := by
  have hown := t.depthMembers_ownMembers_le
  rw [toDocument_eq, Document.depth, Json.depthMembers_append, Document.depthMembers,
    Document.depthMembers, Document.depth]
  omega

theorem writable_toDocument (t : TypeDescription) : Json.writable t.toDocument = true := by
  rw [toDocument_eq, Json.writable, Json.writableMembers_iff]
  intro member hmember
  rcases List.mem_append.1 hmember with hmember | hmember
  · rcases mem_ownMembers hmember with ⟨s, hd⟩ | ⟨names, hd⟩
    · rw [hd]
      rfl
    · rw [hd, Json.writable, Json.writableItems_iff, List.forall_mem_map]
      exact fun s _ => rfl
  · rw [List.mem_singleton.1 hmember, Json.writable, Json.writableItems_iff, List.forall_mem_map]
    exact fun f _ => f.writable_toDocument

/-- A type is read from its members, whatever stands in the list of its fields. -/
theorem ofDocument_table (surplus : Document.Surplus) (t : TypeDescription)
    (items : List Document) :
    ofDocument surplus (.table (t.ownMembers ++ [("fields", .list items)])) =
      (items.mapM FieldDescriptor.ofDocument).map fun fields => { t with fields } := by
  have hmembers : Document.members? surplus ["name", "accessors", "fields"]
      (.table (t.ownMembers ++ [("fields", .list items)])) =
        some (t.ownMembers ++ [("fields", .list items)]) := by
    refine if_pos ?_
    cases haccessors : t.accessors <;> simp [ownMembers, haccessors]
  have hname : Document.required Document.text? "name"
      (t.ownMembers ++ [("fields", .list items)]) = some t.name := rfl
  have htexts : ∀ names : List String,
      (names.map Document.text).mapM Document.text? = some names := by
    intro names
    rw [List.mapM_map]
    show names.mapM pure = some names
    rw [List.mapM_pure, List.map_id']
    rfl
  have haccessors : Document.optional
      (fun d => d.list?.bind fun items => items.mapM Document.text?) "accessors"
      (t.ownMembers ++ [("fields", .list items)]) = some t.accessors := by
    refine Document.optional_eq_some (f := fun names => .list (names.map .text)) ?_ (by simp)
      fun names _ => htexts names
    rw [Document.member?_append, ownMembers, Document.member?_cons, Document.member?_toList]
    simp [Document.member?]
  have hfields : Document.withDefault []
      (fun d => d.list?.bind fun items => items.mapM FieldDescriptor.ofDocument) "fields"
      (t.ownMembers ++ [("fields", .list items)]) = items.mapM FieldDescriptor.ofDocument := by
    refine Document.withDefault_list ?_
    rw [Document.member?_append, ownMembers, Document.member?_cons, Document.member?_toList]
    simp [Document.member?]
  rw [ofDocument]
  simp only [hmembers, hname, haccessors, hfields, Option.bind_eq_bind, Option.bind_some]
  cases items.mapM FieldDescriptor.ofDocument <;> rfl

theorem within_toDocument (t : TypeDescription) {enclosing : Nat}
    (h : enclosing + 2 ≤ Json.maxDepth) :
    Json.within enclosing t.toDocument = .table (t.ownMembers ++
      [("fields", .list (Json.withinItems (enclosing + 2)
        (t.fields.map FieldDescriptor.toDocument)))]) := by
  have hown := t.depthMembers_ownMembers_le
  rw [toDocument_eq, Json.within, if_pos (by omega), Json.withinMembers_append,
    Json.withinMembers_eq_self (by omega), Json.withinMembers, Json.withinMembers, Json.within,
    if_pos (by omega)]

/-- A type inside so many lists and tables is read, unless it nests too deep with them. -/
theorem ofDocument_within (surplus : Document.Surplus) (t : TypeDescription) {enclosing : Nat}
    (h : enclosing + 2 ≤ Json.maxDepth) :
    ofDocument surplus (Json.within enclosing t.toDocument) =
      if enclosing + t.toDocument.depth ≤ Json.maxDepth then some t else none := by
  have hdepth : enclosing + t.toDocument.depth =
      enclosing + 2 + Document.depthItems (t.fields.map FieldDescriptor.toDocument) := by
    rw [depth_toDocument]
    omega
  rw [within_toDocument t h, ofDocument_table, mapM_withinItems h t.fields
    fun f _ => f.ofDocument_within h, hdepth]
  split <;> rfl

theorem depth_toDocument_le {surplus : Document.Surplus} {d : Document} {t : TypeDescription}
    (h : ofDocument surplus d = some t) : t.toDocument.depth ≤ max 2 d.depth := by
  unfold ofDocument at h
  simp only [Option.bind_eq_bind, Option.bind_eq_some_iff] at h
  obtain ⟨members, hmembers, name, -, accessors, -, fields, hfields, h⟩ := h
  cases h
  have hitems : Document.depthItems (fields.map FieldDescriptor.toDocument) ≤ d.depth - 2 := by
    rw [Json.depthItems_le_iff, List.forall_mem_map]
    intro f hf
    obtain ⟨part, hpart, hdepth⟩ := Document.depth_of_withDefault_list hmembers hfields hf
    have hle := FieldDescriptor.depth_toDocument_le hpart
    omega
  rw [depth_toDocument]
  dsimp only
  omega

end TypeDescription

end Columnar
