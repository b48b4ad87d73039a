import Columnar.Proofs.Plan.Shape
import Columnar.Proofs.Schema.Cycles

/-! # What a writer depends on

    Compiling and synthesizing look up struct types, and only those that can be
    reached from the row type along the references between them.  So two
    catalogs that describe these types alike give the same writer, or the same
    error (`build_determined_by_reachable`).

    For an error this is read off the list of all visits, which is the same in
    both catalogs (`Catalog.Agrees.visits_congr`); for a tree it is read off the tree,
    to which both catalogs unfold (`Catalog.Agrees.unfolds`). -/

namespace Columnar

namespace Catalog

/-! ### References of reachable types -/

/-- The reference is spelled out in a type that can be reached from the row type. -/
def Spells (c : Catalog) (t : TypeRef) : Prop :=
  ∃ typeName d f, c.Reachable typeName ∧ c.describe typeName = some d ∧ f ∈ d.fields ∧
    f.type.SpellsOut t

namespace Spells

variable {c : Catalog} {t : TypeRef}

theorem of_field {typeName : String} {d : TypeDescription} {f : FieldDescriptor}
    (hreach : c.Reachable typeName) (hd : c.describe typeName = some d) (hf : f ∈ d.fields) :
    c.Spells f.type :=
  ⟨typeName, d, f, hreach, hd, hf, .self⟩

theorem part (h : c.Spells t) {part : String × TypeRef} (hpart : part ∈ t.parts) :
    c.Spells part.2 := by
  obtain ⟨typeName, d, f, hreach, hd, hf, hspells⟩ := h
  exact ⟨typeName, d, f, hreach, hd, hf, .part hspells hpart⟩

theorem reachable (h : c.Spells t) {typeName : String} (hname : t.structName? = some typeName) :
    c.Reachable typeName := by
  obtain ⟨from', d, f, hreach, hd, hf, hspells⟩ := h
  exact hreach.tail ⟨d, f, t, hd, hf, hspells, hname⟩

/-- The fields of the type that a reference leads into. -/
theorem field (h : c.Spells t) {expanding : List String} {d : TypeDescription}
    (hd : t.entered? c expanding = some d) {f : FieldDescriptor} (hf : f ∈ d.fields) :
    c.Spells f.type := by
  obtain ⟨hname, -, hdescribe⟩ := TypeRef.entered?_eq_some_iff.1 hd
  exact of_field (h.reachable hname) hdescribe hf

end Spells

theorem Meets.spells {c : Catalog} {expanding : List String} {path : Path} {t : TypeRef}
    (h : c.Meets expanding path t) : c.Spells t := by
  induction h with
  | root hd hf => exact .of_field .refl hd hf
  | field _ hd hf ih => exact ih.field hd hf
  | part _ hpart ih => exact ih.part hpart

/-! ### Catalogs that agree -/

/-- The catalogs have the same row type and describe alike what can be reached from it. -/
structure Agrees (c c' : Catalog) : Prop where
  root : c.root = c'.root
  describe : ∀ typeName, c.Reachable typeName → c.describe typeName = c'.describe typeName

end Catalog

theorem fieldVisits_congr {below below' : Path → TypeRef → List Visit} {path : Path}
    {typeName : String} {fields : List (List String × FieldDescriptor)}
    (h : ∀ e ∈ fields, ∀ path, below path e.2.type = below' path e.2.type) :
    fieldVisits below path typeName fields = fieldVisits below' path typeName fields := by
  apply List.flatMap_congr
  intro e he
  rw [h e he]

namespace Catalog.Agrees

variable {c c' : Catalog} (h : c.Agrees c')

include h

theorem entered?_congr {t : TypeRef} (ht : c.Spells t) (expanding : List String) :
    t.entered? c' expanding = t.entered? c expanding := by
  unfold TypeRef.entered?
  cases hname : t.structName? with
  | none => rfl
  | some typeName => rw [Option.bind_some, Option.bind_some, h.describe _ (ht.reachable hname)]

theorem defect?_congr {t : TypeRef} (ht : c.Spells t) (expanding : List String) (path : Path) :
    t.defect? c' expanding path = t.defect? c expanding path := by
  unfold TypeRef.defect?
  cases htag : t.tag? with
  | none => rfl
  | some tag =>
    -- only a reference to a struct is looked up
    cases tag with
    | struct =>
      cases hname : t.typeName with
      | none => rfl
      | some typeName =>
        have hreach := ht.reachable (TypeRef.structName?_eq_some_iff.2 ⟨htag, hname⟩)
        simp only [h.describe _ hreach]
    | scalar | decimal | list | map => rfl

/-- What is below a reference is the same. -/
theorem visitsFrom_congr {expanding : List String} {path : Path} {t : TypeRef} (ht : c.Spells t) :
    c'.visitsFrom expanding path t = c.visitsFrom expanding path t := by
  rw [visitsFrom_eq, visitsFrom_eq, h.entered?_congr ht]
  congr 2
  · cases hd : t.entered? c expanding with
    | none => rfl
    | some d =>
      apply fieldVisits_congr
      intro e he path
      exact visitsFrom_congr (ht.field hd (mem_fields_of_declared he))
  · apply List.flatMap_congr
    intro part hpart
    exact visitsFrom_congr (ht.part hpart)
termination_by (c.remaining expanding, sizeOf t)
decreasing_by
  · obtain ⟨-, hn, hd⟩ := TypeRef.entered?_eq_some_iff.1 hd
    exact Prod.Lex.left _ _ (Catalog.remaining_lt hd hn)
  · exact Prod.Lex.right _ (TypeRef.sizeOf_lt_of_part hpart)

theorem visits_congr : c'.visits = c.visits := by
  unfold Catalog.visits
  rw [← h.root, ← h.describe _ .refl]
  cases hd : c.describe c.root with
  | none => rfl
  | some d =>
    apply fieldVisits_congr
    intro e he path
    exact h.visitsFrom_congr (.of_field .refl hd (mem_fields_of_declared he))

/-- The same is wrong with both catalogs. -/
theorem defects_congr : c'.defects = c.defects := by
  unfold Catalog.defects
  rw [← h.root, ← h.describe _ .refl, h.visits_congr]
  congr 1
  apply List.filterMap_congr
  intro v hv
  match v with
  | .field typeName earlier name => rfl
  | .reference expanding path t =>
    have hmeets : c.Meets expanding path t := mem_visits_iff.1 hv
    exact h.defect?_congr hmeets.spells expanding path

end Catalog.Agrees

/-- If the column is a struct, its type can be reached from the row type. -/
def Column.OfReachable (c : Catalog) : Column → Prop
  | .struct _ typeName _ => c.Reachable typeName
  | _ => True

mutual

/-- What a reference unfolds to in the one catalog it unfolds to in the other, and the struct types
    that it takes can be reached. -/
theorem Catalog.Agrees.unfolds {c c' : Catalog} (h : c.Agrees c') {head : ColumnHead}
    {t : TypeRef} {column : Column} (ht : c.Spells t) (hu : c.Unfolds head t column) :
    c'.Unfolds head t column ∧ ∀ below ∈ column.preorder, below.OfReachable c := by
  match column with
  | .primitive head kind =>
    rw [Column.preorder, List.forall_mem_singleton]
    cases hu with
    | scalar htag => exact ⟨.scalar htag, trivial⟩
    | decimal htag => exact ⟨.decimal htag, trivial⟩
  | .struct head typeName children =>
    rw [Column.preorder, List.forall_mem_cons]
    cases hu with
    | struct htag hname hd hchildren =>
      have hreach := ht.reachable (TypeRef.structName?_eq_some_iff.2 ⟨htag, hname⟩)
      obtain ⟨hchildren', hbelow⟩ :=
        h.unfoldsFields (fun f hf => .of_field hreach hd hf) hchildren
      exact ⟨.struct htag hname ((h.describe _ hreach).symm.trans hd) hchildren', hreach, hbelow⟩
  | .list head averageSize element =>
    rw [Column.preorder, List.forall_mem_cons]
    cases hu with
    | @list _ _ item _ htag helement hcolumn =>
      have hpart : ("element", item) ∈ t.parts := by simp [TypeRef.parts, htag, helement]
      obtain ⟨hcolumn', hbelow⟩ := h.unfolds (ht.part hpart) hcolumn
      exact ⟨.list htag helement hcolumn', trivial, hbelow⟩
  | .map head key value =>
    rw [Column.preorder, List.forall_mem_cons, List.forall_mem_append]
    cases hu with
    | @map _ _ keyType valueType _ _ htag hkey hvalue hkeys hvalues =>
      have hpart : ("key", keyType) ∈ t.parts := by simp [TypeRef.parts, htag, hkey]
      have hpart' : ("value", valueType) ∈ t.parts := by simp [TypeRef.parts, htag, hvalue]
      obtain ⟨hkeys', hbelow⟩ := h.unfolds (ht.part hpart) hkeys
      obtain ⟨hvalues', hbelow'⟩ := h.unfolds (ht.part hpart') hvalues
      exact ⟨.map htag hkey hvalue hkeys' hvalues', trivial, hbelow, hbelow'⟩

theorem Catalog.Agrees.unfoldsFields {c c' : Catalog} (h : c.Agrees c') {next : ColumnId}
    {fields : List FieldDescriptor} {columns : List Column}
    (hfields : ∀ f ∈ fields, c.Spells f.type) (hu : c.UnfoldsFields next fields columns) :
    c'.UnfoldsFields next fields columns ∧
      ∀ below ∈ Column.preorderChildren columns, below.OfReachable c := by
  match columns with
  | [] =>
    cases hu
    exact ⟨.nil, by simp [Column.preorderChildren]⟩
  | column :: columns =>
    rw [Column.preorderChildren, List.forall_mem_append]
    cases hu with
    | cons hcolumn hrest =>
      rw [List.forall_mem_cons] at hfields
      obtain ⟨hcolumn', hbelow⟩ := h.unfolds hfields.1 hcolumn
      obtain ⟨hrest', hbelow'⟩ := h.unfoldsFields hfields.2 hrest
      exact ⟨.cons hcolumn' hrest', hbelow, hbelow'⟩

end

theorem Catalog.Agrees.unfoldsRoot {c c' : Catalog} (h : c.Agrees c') {root : Column}
    (hu : c.UnfoldsRoot root) :
    c'.UnfoldsRoot root ∧ ∀ below ∈ root.preorder, below.OfReachable c := by
  cases hu with
  | @mk d children hd hchildren =>
    obtain ⟨hchildren', hbelow⟩ :=
      h.unfoldsFields (fun f hf => .of_field .refl hd hf) hchildren
    have hreach : (Column.struct ⟨0, c.root, none⟩ c.root children).OfReachable c := .refl
    rw [h.describe _ .refl] at hd
    rw [Column.preorder, List.forall_mem_cons]
    refine ⟨?_, hreach, hbelow⟩
    rw [h.root] at hd ⊢
    exact .mk hd hchildren'

theorem Catalog.Agrees.compile_congr {c c' : Catalog} (h : c.Agrees c') : compile c = compile c' := by
  cases hc : compile c with
  | error e =>
    have hfirst := (compile_settled c).error_iff.1 hc
    rw [← h.defects_congr] at hfirst
    exact ((compile_settled c').error_iff.2 hfirst).symm
  | ok root =>
    obtain ⟨hnone, htree⟩ := (compile_settled c).ok_iff.1 hc
    rw [← h.defects_congr] at hnone
    exact ((compile_settled c').ok_iff.2 ⟨hnone, (h.unfoldsRoot htree).1⟩).symm

/-! ### Owners that agree -/

/-- If the column is a struct, both owners say the same about its type. -/
def Column.Agreed (owner owner' : Owner) : Column → Prop
  | .struct _ typeName _ => owner typeName = owner' typeName
  | _ => True

section Owners

variable {owner owner' : Owner}

theorem describeOwner_congr {typeName : String} (h : owner typeName = owner' typeName)
    (path : Path) : describeOwner owner path typeName = describeOwner owner' path typeName := by
  unfold describeOwner
  rw [h]

mutual

theorem operation_congr (path : Path) {c : Column}
    (h : ∀ below ∈ c.preorder, below.Agreed owner owner') :
    operation owner path c = operation owner' path c := by
  match c with
  | .primitive head kind => rfl
  | .struct head typeName children =>
    rw [Column.preorder, List.forall_mem_cons] at h
    obtain ⟨hd, hbelow⟩ := h
    rw [operation, operation, describeOwner_congr hd]
    simp only [fieldOperations_congr _ path hbelow]
  | .list head averageSize element =>
    rw [Column.preorder, List.forall_mem_cons] at h
    rw [operation, operation, operation_congr _ h.2]
  | .map head key value =>
    rw [Column.preorder, List.forall_mem_cons, List.forall_mem_append] at h
    obtain ⟨-, hkey, hvalue⟩ := h
    rw [operation, operation, operation_congr _ hkey, operation_congr _ hvalue]

theorem fieldOperations_congr (d : TypeDescription) (path : Path) {columns : List Column}
    (h : ∀ below ∈ Column.preorderChildren columns, below.Agreed owner owner') :
    fieldOperations owner d path columns = fieldOperations owner' d path columns := by
  match columns with
  | [] => rfl
  | c :: rest =>
    rw [Column.preorderChildren, List.forall_mem_append] at h
    rw [fieldOperations, fieldOperations, operation_congr _ h.1, fieldOperations_congr d path h.2]

end

/-- Owners are asked about the struct types in the tree only. -/
theorem synthesize_congr {root : Column} (h : ∀ below ∈ root.preorder, below.Agreed owner owner')
    (writerId : WriterId) : synthesize root owner writerId = synthesize root owner' writerId := by
  cases root with
  | struct head typeName children =>
    rw [Column.preorder, List.forall_mem_cons] at h
    obtain ⟨hd, hbelow⟩ := h
    unfold synthesize
    simp only [describeOwner_congr hd, fieldOperations_congr _ _ hbelow]
  | primitive => rfl
  | list => rfl
  | map => rfl

end Owners

/-! ### Writers -/

theorem Catalog.Agrees.build_congr {c c' : Catalog} (h : c.Agrees c') (writerId : WriterId) :
    Specification.build c writerId = Specification.build c' writerId := by
  unfold Specification.build
  rw [← h.compile_congr]
  cases hc : compile c with
  | error e => rfl
  | ok root =>
    -- the owners are asked about types in the tree, and these can be reached
    have htree := ((compile_settled c).ok_iff.1 hc).2
    have hagreed : ∀ below ∈ root.preorder, below.Agreed c.describe c'.describe := by
      intro below hbelow
      have hreach := (h.unfoldsRoot htree).2 below hbelow
      cases below with
      | struct head typeName children => exact h.describe typeName hreach
      | primitive | list | map => trivial
    simp only [synthesize_congr hagreed]

/-- Two catalogs that describe alike what can be reached from the row type give the same tree and
    the same writer, or the same error.  So nothing changes if any other type is added or
    redefined, or was not there before. -/
theorem build_determined_by_reachable (c : Catalog) :
    (∀ c' : Catalog, c.root = c'.root →
      (∀ typeName, c.Reachable typeName → c.describe typeName = c'.describe typeName) →
      compile c = compile c' ∧
        ∀ writerId, Specification.build c writerId = Specification.build c' writerId) ∧
    ∀ d : TypeDescription, ¬c.Reachable d.name →
      compile c = compile (c.insert d) ∧
        ∀ writerId, Specification.build c writerId = Specification.build (c.insert d) writerId := by
  have hagree : ∀ c' : Catalog, c.Agrees c' → compile c = compile c' ∧
      ∀ writerId, Specification.build c writerId = Specification.build c' writerId :=
    fun c' h => ⟨h.compile_congr, h.build_congr⟩
  refine ⟨fun c' hroot hdescribe => hagree c' ⟨hroot, hdescribe⟩, fun d hd => ?_⟩
  apply hagree
  refine ⟨rfl, fun typeName hreach => (c.describe_insert_of_ne ?_).symm⟩
  rintro rfl
  exact hd hreach

/-! ### An example -/

/-- Orders only lead to buyers. -/
theorem orders_reachable {typeName : String} (h : orders.Reachable typeName) :
    typeName = "Order" ∨ typeName = "Buyer" := by
  have hlong : (TypeRef.primitive "long").tag? = some (.scalar .long) := by decide +kernel
  have hstring : (TypeRef.primitive "string").tag? = some (.scalar .string) := by decide +kernel
  have hstruct : (TypeRef.structOf "Buyer").tag? = some .struct := by decide +kernel
  have hlist : (TypeRef.list (.primitive "string")).tag? = some .list := by decide +kernel
  have hparts : (TypeRef.list (.primitive "string")).parts =
      [("element", .primitive "string")] := by
    rw [TypeRef.parts, hlist]
    rfl
  induction h with
  | refl => exact .inl (by decide +kernel)
  | tail _ hrefers ih =>
    obtain ⟨d, f, t, hd, hf, hspells, hname⟩ := hrefers
    rcases ih with rfl | rfl
    · cases describe_order.symm.trans hd
      simp only [List.mem_cons, List.not_mem_nil, or_false] at hf
      rcases hf with rfl | rfl | rfl
      · simp [hspells.structName?_of_scalar hlong] at hname
      · rcases hspells.eq_or_part with rfl | ⟨part, hpart, -⟩
        · exact .inr (Option.some.inj ((TypeRef.structName?_eq_some_iff.1 hname).2.symm))
        · simp [TypeRef.parts, hstruct] at hpart
      · rcases hspells.eq_or_part with rfl | ⟨part, hpart, hbelow⟩
        · simp [TypeRef.structName?, hlist] at hname
        · rw [hparts, List.mem_singleton] at hpart
          rw [hpart] at hbelow
          simp [hbelow.structName?_of_scalar hstring] at hname
    · cases describe_buyer.symm.trans hd
      simp only [List.mem_singleton] at hf
      rw [hf] at hspells
      simp [hspells.structName?_of_scalar hstring] at hname

/-- Invoices that refer to themselves. -/
def invoice : TypeDescription :=
  { name := "Invoice", fields := [{ name := "corrected", type := .structOf "Invoice" }] }

/-- Orders are written as before if there are invoices, which orders do not lead to. -/
theorem orders_build_with_invoices :
    (∀ typeName, orders.Reachable typeName →
      orders.describe typeName = (orders.insert invoice).describe typeName) ∧
    ¬orders.Reachable invoice.name ∧ (orders.insert invoice).describe "Invoice" = some invoice ∧
    compile (orders.insert invoice) = .ok ordersSpecification.root ∧
    Specification.build (orders.insert invoice) 0 = .ok ordersSpecification := by
  have hdescribe : ∀ typeName, orders.Reachable typeName →
      orders.describe typeName = (orders.insert invoice).describe typeName := by
    intro typeName h
    rcases orders_reachable h with rfl | rfl
    · decide +kernel
    · decide +kernel
  have hunreachable : ¬orders.Reachable invoice.name := by
    intro h
    rcases orders_reachable h with h | h
    · exact absurd h (by decide)
    · exact absurd h (by decide)
  obtain ⟨hagreeing, hunreached⟩ := build_determined_by_reachable orders
  refine ⟨hdescribe, hunreachable, by decide +kernel, ?_, ?_⟩
  · exact (hagreeing (orders.insert invoice) rfl hdescribe).1.symm.trans compile_orders
  · exact ((hunreached invoice hunreachable).2 0).symm.trans build_orders

end Columnar
