import Columnar.Proofs.Schema.Compilation
import Columnar.Proofs.Schema.Stack
import Mathlib.Data.List.Chain

/-! # Cycles

    A struct type refers to the struct types that its fields name, directly or
    in the element, key and value types spelled out there (`Catalog.Refers`).

    The stack of the types being expanded is a way along such references, from
    the row type on.  So a cycle that is reported is one, with the path on which
    it was gone through; and a cycle that can be reached from the row type is
    met while unfolding, unless something else is wrong before. -/

namespace Columnar

/-! ### References between struct types -/

/-- The reference is spelled out in `t`, or is `t` itself. -/
inductive TypeRef.SpellsOut (t : TypeRef) : TypeRef → Prop
  | self : t.SpellsOut t
  | part {u : TypeRef} {part : String × TypeRef} : t.SpellsOut u → part ∈ u.parts →
    t.SpellsOut part.2

theorem TypeRef.SpellsOut.eq_or_part {t u : TypeRef} (h : t.SpellsOut u) :
    u = t ∨ ∃ part ∈ t.parts, part.2.SpellsOut u := by
  induction h with
  | self => exact .inl rfl
  | part _ hpart ih =>
    rcases ih with rfl | ⟨first, hfirst, hspells⟩
    · exact .inr ⟨_, hpart, .self⟩
    · exact .inr ⟨first, hfirst, .part hspells hpart⟩

/-- A leaf names no struct type. -/
theorem TypeRef.SpellsOut.structName?_of_scalar {t u : TypeRef} {kind : PrimitiveKind}
    (htag : t.tag? = some (.scalar kind)) (h : t.SpellsOut u) : u.structName? = none := by
  rcases h.eq_or_part with rfl | ⟨part, hpart, -⟩
  · simp [structName?, htag]
  · simp [parts, htag] at hpart

/-- The description of the one type has a field whose type leads to the other. -/
def Catalog.Refers (c : Catalog) (typeName other : String) : Prop :=
  ∃ d f t, c.describe typeName = some d ∧ f ∈ d.fields ∧ f.type.SpellsOut t ∧
    t.structName? = some other

/-- The type can be reached from the row type. -/
def Catalog.Reachable (c : Catalog) (typeName : String) : Prop :=
  Relation.ReflTransGen c.Refers c.root typeName

/-- Types that can be reached from the row type refer to each other in a cycle. -/
def Catalog.Cyclic (c : Catalog) : Prop :=
  ∃ typeName, c.Reachable typeName ∧ Relation.TransGen c.Refers typeName typeName

namespace Catalog

variable {c : Catalog} {expanding : List String} {path : Path} {t : TypeRef}

/-! ### The way to a reference -/

/-- How the types being expanded lead to a reference: from the row type, each referring to the
    next, to a type with a field that spells out the reference. -/
structure Leads (c : Catalog) (expanding : List String) (t : TypeRef) : Prop where
  root : expanding.head? = some c.root
  chain : expanding.IsChain c.Refers
  last : ∃ typeName ∈ expanding.getLast?, ∃ d f, c.describe typeName = some d ∧ f ∈ d.fields ∧
    f.type.SpellsOut t

/-- The last of the types refers to those that the reference names. -/
theorem Leads.refers (h : c.Leads expanding t) {typeName : String}
    (hname : t.structName? = some typeName) :
    (expanding ++ [typeName]).IsChain c.Refers := by
  obtain ⟨lastName, hlast, d, f, hd, hf, hspells⟩ := h.last
  refine h.chain.append (.singleton _) fun a ha b hb => ?_
  rw [Option.mem_unique ha hlast]
  cases hb
  exact ⟨d, f, t, hd, hf, hspells, hname⟩

theorem Meets.leads (h : c.Meets expanding path t) : c.Leads expanding t := by
  induction h with
  | root hd hf => exact ⟨rfl, .singleton _, c.root, rfl, _, _, hd, hf, .self⟩
  | field _ hd hf ih =>
    obtain ⟨hname, -, hdescribe⟩ := TypeRef.entered?_eq_some_iff.1 hd
    refine ⟨?_, ih.refers hname, _, ?_, _, _, hdescribe, hf, .self⟩
    · rw [List.head?_append, ih.root]
      rfl
    · simp
  | part _ hpart ih =>
    obtain ⟨typeName, hlast, d, f, hd, hf, hspells⟩ := ih.last
    exact ⟨ih.root, ih.chain, typeName, hlast, d, f, hd, hf, .part hspells hpart⟩

theorem Meets.stack (h : c.Meets expanding path t) : c.Stack expanding := by
  induction h with
  | root hd _ => exact (Stack.empty c).push hd (by simp)
  | field _ hd _ ih =>
    obtain ⟨-, hn, hdescribe⟩ := TypeRef.entered?_eq_some_iff.1 hd
    exact ih.push hdescribe hn
  | part _ _ ih => exact ih

/-- Every path begins at the row type. -/
theorem Meets.path_root (h : c.Meets expanding path t) : path.root = c.root := by
  induction h with
  | root => rfl
  | field _ _ _ ih => exact ih
  | part _ _ ih => exact ih

theorem Meets.spelledOut {u : TypeRef} (h : c.Meets expanding path t) (hu : t.SpellsOut u) :
    ∃ deeper, c.Meets expanding deeper u := by
  induction hu with
  | self => exact ⟨path, h⟩
  | part _ hpart ih =>
    obtain ⟨deeper, hdeeper⟩ := ih
    exact ⟨_, .part hdeeper hpart⟩

theorem Enters.describe {d : TypeDescription} (h : c.Enters expanding path d) :
    c.describe d.name = some d := by
  cases h with
  | root hd =>
    rw [c.name_of_describe hd]
    exact hd
  | struct _ hd => exact (TypeRef.entered?_eq_some_iff.1 hd).2.2

theorem Enters.mem {d : TypeDescription} (h : c.Enters expanding path d) :
    d.name ∈ expanding := by
  cases h with
  | root hd =>
    rw [c.name_of_describe hd]
    exact List.mem_singleton_self _
  | struct => simp

/-! ### Reported cycles -/

/-- The way back to a type that is met again goes through the types above it on the stack. -/
theorem cycleThrough_of_mem {typeName : String} (h : typeName ∈ expanding) :
    ∃ before between, expanding = before ++ typeName :: between ∧
      cycleThrough expanding typeName = typeName :: between ++ [typeName] := by
  obtain ⟨before, between, hsplit, hbefore⟩ := List.eq_append_cons_of_mem h
  refine ⟨before, between, hsplit, ?_⟩
  have hskip : ∀ a ∈ before, (a != typeName) = true := fun a ha =>
    bne_iff_ne.2 fun heq => hbefore (heq ▸ ha)
  rw [cycleThrough, hsplit, List.dropWhile_append_of_pos hskip, List.dropWhile_cons_of_neg (by simp)]

/-- What is reported as a cycle is a reference back to a type on the stack. -/
theorem cycle_of_compile {names : List String} (h : compile c = .error (.cycle path names)) :
    ∃ before typeName between t, c.Meets (before ++ typeName :: between) path t ∧
      t.structName? = some typeName ∧ names = typeName :: between ++ [typeName] := by
  have hfirst := List.mem_of_head? ((compile_settled c).error_iff.1 h)
  unfold defects at hfirst
  split at hfirst
  · simp at hfirst
  · obtain ⟨v, hv, hdefect⟩ := List.mem_filterMap.1 hfirst
    match v with
    | .field typeName earlier name =>
      rw [Visit.defect?] at hdefect
      split at hdefect <;> cases hdefect
    | .reference expanding at' t =>
      obtain ⟨rfl, typeName, hmem, hname, rfl⟩ := TypeRef.cycle_of_defect? hdefect
      obtain ⟨before, between, rfl, hcycle⟩ := cycleThrough_of_mem hmem
      exact ⟨before, typeName, between, t, mem_visits_iff.1 hv, hname, hcycle⟩

theorem transGen_of_chain {R : String → String → Prop} {a b : String} {between : List String}
    (h : (a :: between ++ [b]).IsChain R) : Relation.TransGen R a b := by
  induction between generalizing a with
  | nil => exact .single (List.isChain_pair.1 h)
  | cons x rest ih =>
    obtain ⟨hx, hrest⟩ := List.isChain_cons_cons.1 h
    exact .head hx (ih hrest)

/-- If a cycle is reported there is one that can be reached. -/
theorem cyclic_of_cycle {names : List String} (h : compile c = .error (.cycle path names)) :
    c.Cyclic := by
  obtain ⟨before, typeName, between, t, hmeets, hname, rfl⟩ := cycle_of_compile h
  have hleads := hmeets.leads
  refine ⟨typeName, ?_, ?_⟩
  · cases before with
    | nil =>
      cases hleads.root
      exact .refl
    | cons root rest =>
      cases hleads.root
      have hchain := hleads.chain
      rw [List.append_cons] at hchain
      exact (transGen_of_chain hchain.left_of_append).to_reflTransGen
  · have hchain := hleads.refers hname
    rw [List.append_assoc] at hchain
    exact transGen_of_chain hchain.right_of_append

/-! ### Cycles that are reached -/

section Proper

variable (hproper : ∀ expanding path t, c.Meets expanding path t → t.Proper c expanding)

include hproper

/-- If nothing is wrong, the types that an entered type refers to are entered from there. -/
theorem Enters.next {d : TypeDescription} {other : String} (h : c.Enters expanding path d)
    (hother : c.Refers d.name other) : other ∉ expanding ∧
      ∃ deeper e, c.Enters (expanding ++ [other]) deeper e ∧ e.name = other := by
  obtain ⟨d', f, t, hd', hf, hspells, hname⟩ := hother
  cases h.describe.symm.trans hd'
  obtain ⟨deeper, hmeets⟩ := (h.meets hf).spelledOut hspells
  obtain ⟨htag, htypeName⟩ := TypeRef.structName?_eq_some_iff.1 hname
  obtain ⟨other', hother', hn, hsome⟩ := (hproper _ _ _ hmeets).struct htag
  cases htypeName.symm.trans hother'
  obtain ⟨e, he⟩ := Option.isSome_iff_exists.1 hsome
  obtain rfl := c.name_of_describe he
  exact ⟨hn, deeper, e, .struct hmeets (TypeRef.entered?_eq_some_iff.2 ⟨hname, hn, he⟩), rfl⟩

/-- And so along any way: the types on it are none of those being expanded already. -/
theorem Enters.along {d : TypeDescription} {other : String} (h : c.Enters expanding path d)
    (hother : Relation.TransGen c.Refers d.name other) : other ∉ expanding ∧
      ∃ more deeper e, c.Enters (expanding ++ more) deeper e ∧ e.name = other := by
  induction hother with
  | single hnext =>
    obtain ⟨hn, deeper, e, he, hname⟩ := h.next hproper hnext
    exact ⟨hn, _, deeper, e, he, hname⟩
  | tail _ hnext ih =>
    obtain ⟨-, more, deeper, e, he, rfl⟩ := ih
    obtain ⟨hn, deepest, e', he', hname⟩ := he.next hproper hnext
    rw [List.append_assoc] at he'
    exact ⟨fun hmem => hn (List.mem_append_left _ hmem), _, deepest, e', he', hname⟩

/-- No way leads from an entered type back to it. -/
theorem Enters.acyclic {d : TypeDescription} (h : c.Enters expanding path d) :
    ¬Relation.TransGen c.Refers d.name d.name :=
  fun hcycle => (h.along hproper hcycle).1 h.mem

end Proper

/-- A cycle that can be reached does not compile. -/
theorem compile_of_cyclic (h : c.Cyclic) : ∃ e, compile c = .error e := by
  cases hcompile : compile c with
  | error e => exact ⟨e, rfl⟩
  | ok root =>
    have hnone := ((compile_settled c).ok_iff.1 hcompile).1
    obtain ⟨hsome, hproper, -⟩ := c.defects_eq_nil_iff.1 hnone
    obtain ⟨d, hd⟩ := Option.isSome_iff_exists.1 hsome
    obtain ⟨typeName, hreach, hcycle⟩ := h
    have hroot : c.Enters [c.root] ⟨c.root, []⟩ d := .root hd
    have hname := c.name_of_describe hd
    rcases Relation.reflTransGen_iff_eq_or_transGen.1 hreach with rfl | hway
    · rw [← hname] at hcycle
      exact absurd hcycle (hroot.acyclic hproper)
    · rw [← hname] at hway
      obtain ⟨-, more, deeper, e, he, rfl⟩ := hroot.along hproper hway
      exact absurd hcycle (he.acyclic hproper)

end Catalog

/-- Compiling ends for every catalog: its stack never holds a type twice, and never more types than
    are described.  It fails if the types that can be reached refer to each other in a cycle, and
    reports a cycle only if they do; the cycle reported is then one of references that lie on the
    path to the place where it closes. -/
theorem compile_cycles (c : Catalog) :
    (∀ watch : List String → Bool,
      (∀ stack : List String, stack.Nodup → (∀ typeName ∈ stack, (c.describe typeName).isSome) →
        stack.length ≤ c.types.length → watch stack = true) →
      watchCompile watch c = ExceptT.mk (some (compile c))) ∧
    (c.Cyclic → ∃ e, compile c = .error e) ∧
    (¬c.Cyclic → ∀ path names, compile c ≠ .error (.cycle path names)) ∧
    ∀ path names, compile c = .error (.cycle path names) → path.root = c.root ∧
      ∃ before typeName between t, c.Meets (before ++ typeName :: between) path t ∧
        t.structName? = some typeName ∧ names = typeName :: between ++ [typeName] ∧
        (typeName :: between).Nodup ∧ names.IsChain c.Refers := by
  refine ⟨fun watch hwatch => ?_, Catalog.compile_of_cyclic, ?_, ?_⟩
  · exact watchCompile_eq fun stack h => hwatch stack h.nodup h.described h.length_le
  · intro hacyclic path names h
    exact hacyclic (Catalog.cyclic_of_cycle h)
  · intro path names h
    obtain ⟨before, typeName, between, t, hmeets, hname, rfl⟩ := Catalog.cycle_of_compile h
    refine ⟨hmeets.path_root, before, typeName, between, t, hmeets, hname, rfl, ?_, ?_⟩
    · exact (List.nodup_append.1 hmeets.stack.nodup).2.1
    · have hchain := hmeets.leads.refers hname
      rw [List.append_assoc] at hchain
      exact hchain.right_of_append

/-- Trees are lists of trees. -/
def trees : Catalog :=
  .ofList "Tree" [
    { name := "Tree", fields := [{ name := "children", type := .list (.structOf "Tree") }] }]

theorem compile_trees :
    compile trees = .error (.cycle ⟨"Tree", ["children", "element"]⟩ ["Tree", "Tree"]) := by
  have htree : trees.describe "Tree" = some
      { name := "Tree", fields := [{ name := "children", type := .list (.structOf "Tree") }] } := by
    decide +kernel
  have hroot : trees.root = "Tree" := by decide +kernel
  have hlist : KindTag.parse? "list" = some .list := by decide +kernel
  have hstruct : KindTag.parse? "struct" = some .struct := by decide +kernel
  have hlistTag : (TypeRef.list (.structOf "Tree")).tag ⟨"Tree", ["children"]⟩ = .ok .list :=
    TypeRef.tag_of_parse? hlist rfl
  have hstructTag : (TypeRef.structOf "Tree").tag? = some .struct := hstruct
  -- nothing is wrong with the list, but its element leads back
  have hdefect : (TypeRef.structOf "Tree").defect? trees ["Tree"]
      ⟨"Tree", ["children", "element"]⟩ =
        some (.cycle ⟨"Tree", ["children", "element"]⟩ ["Tree", "Tree"]) := by
    rw [TypeRef.defect?, hstructTag]
    simp [TypeRef.structOf, cycleThrough]
  have hchildren : expandType trees ["Tree"] ⟨1, "children", "children"⟩ ⟨"Tree", ["children"]⟩
      (.list (.structOf "Tree")) =
        .error (.cycle ⟨"Tree", ["children", "element"]⟩ ["Tree", "Tree"]) := by
    rw [expandType_list_eq hlistTag rfl (by simp [TypeRef.list]), Path.child]
    exact congrArg (· >>= _) (expandType_of_defect hdefect)
  have hfields : expandFields trees ["Tree"] 1 ⟨"Tree", []⟩ "Tree" []
      [{ name := "children", type := .list (.structOf "Tree") }] =
        .error (.cycle ⟨"Tree", ["children", "element"]⟩ ["Tree", "Tree"]) :=
    (expandFields_cons_eq (by simp)).trans (congrArg (· >>= _) hchildren)
  unfold compile
  rw [hroot, htree]
  exact (expandStruct_eq (by simp) htree).trans (congrArg (· >>= _) hfields)

/-- The cycle of trees is one of references on the path to the element that closes it. -/
theorem trees_cycle : trees.Cyclic ∧ ∃ before typeName between t,
    trees.Meets (before ++ typeName :: between) ⟨"Tree", ["children", "element"]⟩ t ∧
      t.structName? = some typeName ∧ ["Tree", "Tree"] = typeName :: between ++ [typeName] := by
  obtain ⟨-, -, hacyclic, hgenuine⟩ := compile_cycles trees
  obtain ⟨-, before, typeName, between, t, hmeets, hname, hnames, -⟩ :=
    hgenuine _ _ compile_trees
  refine ⟨?_, before, typeName, between, t, hmeets, hname, hnames⟩
  apply Classical.byContradiction
  exact fun h => hacyclic h _ _ compile_trees

end Columnar
