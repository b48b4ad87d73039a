import Mathlib.Algebra.Group.Nat.Defs
import Columnar.Proofs.Handle.Invariant
import Columnar.Proofs.Plan.Agreement
import Columnar.Proofs.Schema.Positions

/-! # Reserved slots

    Slots are reserved from the root of a tree downwards: every column passes
    on to its children what is reserved for itself, and a list column the
    product with its average size.  Each product saturates and is cut off at
    the greatest number of slots that a hint can ask for.

    Nothing is lost by that.  What is reserved for a column has a closed form
    in the average sizes of the lists around it, with one product that is cut
    off once (`reserved_closed_form`).

    Average sizes can also be looked up among the capacity hints, by the number
    of the column, while a stack of columns is worked off
    (`pendingReserved`).  Numbers are all different, so that every list finds
    its own size and no other column finds one. -/

namespace Columnar

/-! ### Columns around a column -/

namespace Column

def averageSize? : Column → Option UInt32
  | .list _ averageSize _ => some averageSize
  | _ => none

/-- The columns around the one at a position, outermost first. -/
def ancestors (c : Column) : List Nat → List Column
  | [] => []
  | i :: rest => c :: (c.children[i]?).elim [] fun d => d.ancestors rest

/-- The average sizes of the lists around the column at a position, outermost first. -/
def sizesAround (c : Column) (p : List Nat) : List UInt32 :=
  (c.ancestors p).filterMap averageSize?

theorem sizesAround_cons {c d : Column} {i : Nat} (hd : c.children[i]? = some d) (p : List Nat) :
    c.sizesAround (i :: p) = c.averageSize?.toList ++ d.sizesAround p := by
  unfold sizesAround
  rw [ancestors, hd, List.filterMap_cons]
  cases c.averageSize? <;> rfl

end Column

/-! ### The closed form -/

/-- The slots for a column within lists of those average sizes. -/
def WriterOptions.slotsWithin (o : WriterOptions) (sizes : List UInt32) : Nat :=
  if o.capacityHints = true ∧ sizes ≠ [] then
    min (o.batchSize * (sizes.map UInt32.toNat).prod) (2 ^ 22)
  else o.batchSize

/-- A factor that is cut off does as well if the product is cut off too. -/
theorem min_mul_min (a n limit : Nat) : min (min a limit * n) limit = min (a * n) limit := by
  by_cases hle : a ≤ limit
  · rw [Nat.min_eq_left hle]
  · have hlt : limit ≤ a := Nat.le_of_not_le hle
    rw [Nat.min_eq_right hlt]
    -- beyond the limit only a factor of zero makes a difference
    by_cases hn : n = 0
    · rw [hn, Nat.mul_zero, Nat.mul_zero]
    · have hpos : 0 < n := Nat.pos_of_ne_zero hn
      have hlimit : limit ≤ limit * n := Nat.le_mul_of_pos_right _ hpos
      have hproduct : limit ≤ a * n := Nat.le_trans hlt (Nat.le_mul_of_pos_right _ hpos)
      rw [Nat.min_eq_right hlimit, Nat.min_eq_right hproduct]

/-- Saturating makes no difference, since the limit for slots is smaller. -/
theorem min_saturatingMul (a n : Nat) :
    min (saturatingMul a n) maxReserved = min (a * n) maxReserved := by
  have hlargest : maxReserved ≤ UInt64.size - 1 := by decide
  unfold saturatingMul
  rw [Nat.min_assoc, Nat.min_eq_right hlargest]

namespace WriterOptions

variable (o : WriterOptions) (sizes : List UInt32)

theorem slotsWithin_nil : o.slotsWithin [] = o.batchSize := by
  unfold slotsWithin
  rw [if_neg (by simp)]

theorem slotsWithin_of_hints (hhints : o.capacityHints = true) (hsizes : sizes ≠ []) :
    o.slotsWithin sizes = min (o.batchSize * (sizes.map UInt32.toNat).prod) maxReserved := by
  unfold slotsWithin
  rw [if_pos ⟨hhints, hsizes⟩]
  rfl

theorem slotsWithin_of_not_hints (hhints : ¬ o.capacityHints = true) :
    o.slotsWithin sizes = o.batchSize := by
  unfold slotsWithin
  rw [if_neg fun h => hhints h.1]

/-- One more list around multiplies the slots by its average size, up to the limit. -/
theorem slotsWithin_concat (n : UInt32) :
    o.slotsWithin (sizes ++ [n]) =
      if o.capacityHints then min (saturatingMul (o.slotsWithin sizes) n.toNat) maxReserved
      else o.slotsWithin sizes := by
  by_cases hhints : o.capacityHints = true
  · have hproduct : ((sizes ++ [n]).map UInt32.toNat).prod =
        (sizes.map UInt32.toNat).prod * n.toNat := by simp
    rw [if_pos hhints, min_saturatingMul, o.slotsWithin_of_hints _ hhints (by simp), hproduct,
      ← Nat.mul_assoc]
    by_cases hsizes : sizes = []
    · rw [hsizes, slotsWithin_nil, List.map_nil, List.prod_nil, Nat.mul_one]
    · rw [o.slotsWithin_of_hints _ hhints hsizes, min_mul_min]
  · rw [if_neg hhints, o.slotsWithin_of_not_hints _ hhints, o.slotsWithin_of_not_hints _ hhints]

theorem slotsWithin_le : o.slotsWithin sizes ≤ max o.batchSize maxReserved := by
  unfold slotsWithin
  split
  · exact Nat.le_trans (Nat.min_le_right _ _) (Nat.le_max_right _ _)
  · exact Nat.le_max_left _ _

end WriterOptions

namespace Column

/-- What is reserved for the children of a column. -/
def reservedBelow (capacityHints : Bool) (capacity : Nat) (c : Column) : Nat :=
  match c.averageSize? with
  | some n => if capacityHints then min (saturatingMul capacity n.toNat) maxReserved else capacity
  | none => capacity

theorem reservedAll_eq_flatMap (capacityHints : Bool) (capacity : Nat) (columns : List Column) :
    reservedAll capacityHints capacity columns =
      columns.flatMap (reserved capacityHints capacity) := by
  induction columns with
  | nil => rfl
  | cons c rest ih => rw [reservedAll, List.flatMap_cons, ih]

theorem reserved_eq_cons (capacityHints : Bool) (capacity : Nat) (c : Column) :
    c.reserved capacityHints capacity =
      capacity :: c.children.flatMap (reserved capacityHints (c.reservedBelow capacityHints capacity)) := by
  cases c with
  | primitive head kind => rfl
  | struct head typeName children => rw [reserved, reservedAll_eq_flatMap]; rfl
  | list head averageSize element => simp [reserved, children, reservedBelow, averageSize?]
  | map head key value => simp [reserved, children, reservedBelow, averageSize?]

theorem reservedBelow_slotsWithin (o : WriterOptions) (sizes : List UInt32) (c : Column) :
    c.reservedBelow o.capacityHints (o.slotsWithin sizes) =
      o.slotsWithin (sizes ++ c.averageSize?.toList) := by
  unfold reservedBelow
  cases c.averageSize? with
  | none => rw [Option.toList_none, List.append_nil]
  | some n => rw [Option.toList_some, o.slotsWithin_concat]

/-- The slots reserved for the columns of a tree that stands within lists of those sizes. -/
theorem reserved_slotsWithin (o : WriterOptions) (sizes : List UInt32) (c : Column) :
    c.reserved o.capacityHints (o.slotsWithin sizes) =
      c.positions.map fun p => o.slotsWithin (sizes ++ c.sizesAround p) := by
  have hbelow : ∀ (j : Nat) (d : Column), c.children[j]? = some d →
      d.positions.map (fun p => o.slotsWithin (sizes ++ c.sizesAround (j :: p))) =
        d.reserved o.capacityHints (o.slotsWithin (sizes ++ c.averageSize?.toList)) := by
    intro j d hd
    rw [reserved_slotsWithin o _ d]
    apply List.map_congr_left
    intro p _
    rw [sizesAround_cons hd, List.append_assoc]
  have hroot : c.sizesAround [] = [] := rfl
  rw [reserved_eq_cons, reservedBelow_slotsWithin,
    map_positions (f := fun p => o.slotsWithin (sizes ++ c.sizesAround p)) hbelow, hroot,
    List.append_nil]
termination_by sizeOf c
decreasing_by
  exact Nat.lt_trans (List.sizeOf_lt_of_mem (List.mem_of_getElem? hd)) (sizeOf_children_lt c)

end Column

/-! ### Looking sizes up -/

/-- The slots reserved for the columns of the trees on a stack, each with those for its root.  A
    column is taken from the stack, a size is looked up by its number, and its children are left
    on the stack with what the size makes of its slots. -/
def pendingReserved (sizes : List (ColumnId × UInt32)) : List (Column × Nat) → List Nat
  | [] => []
  | (c, capacity) :: pending =>
    let below := match sizes.find? (·.1 == c.id) with
      | some (_, n) => min (saturatingMul capacity n.toNat) maxReserved
      | none => capacity
    capacity :: pendingReserved sizes (c.children.map (fun d => (d, below)) ++ pending)
termination_by pending => Column.countChildren (pending.map (·.1))
decreasing_by
  have hcolumns : ∀ below : Nat, (c.children.map fun d => (d, below)).map (·.1) = c.children := by
    intro below
    simp [Function.comp_def]
  rw [List.map_append, hcolumns, Column.countChildren_append, List.map_cons, Column.countChildren,
    c.count_eq_succ]
  omega

/-- The sizes are those of the lists of a tree, if hints count. -/
def FindsSizes (sizes : List (ColumnId × UInt32)) (capacityHints : Bool) (c : Column) : Prop :=
  ∀ d ∈ c.preorder, (sizes.find? (·.1 == d.id)).map Prod.snd =
    if capacityHints then d.averageSize? else none

theorem pendingReserved_eq {sizes : List (ColumnId × UInt32)} {capacityHints : Bool}
    {pending : List (Column × Nat)} (h : ∀ e ∈ pending, FindsSizes sizes capacityHints e.1) :
    pendingReserved sizes pending = pending.flatMap fun e => e.1.reserved capacityHints e.2 := by
  induction pending using pendingReserved.induct sizes with
  | case1 =>
    rw [pendingReserved]
    rfl
  | case2 c capacity pending below ih =>
    have hc : FindsSizes sizes capacityHints c := h (c, capacity) (by simp)
    have hfind := hc c (by rw [Column.preorder_eq_cons]; exact List.mem_cons_self)
    have hbelow : below = c.reservedBelow capacityHints capacity := by
      show (match sizes.find? (·.1 == c.id) with
        | some (_, n) => min (saturatingMul capacity n.toNat) maxReserved
        | none => capacity) = _
      unfold Column.reservedBelow
      revert hfind
      cases capacityHints <;> cases sizes.find? (·.1 == c.id) <;> cases c.averageSize? <;> simp
      rintro rfl
      rfl
    have hpending : ∀ e ∈ c.children.map (fun d => (d, below)) ++ pending,
        FindsSizes sizes capacityHints e.1 := by
      intro e he
      rcases List.mem_append.1 he with he | he
      · obtain ⟨d, hd, rfl⟩ := List.mem_map.1 he
        intro f hf
        apply hc f
        rw [Column.preorder_eq_cons, Column.preorderChildren_eq_flatMap]
        exact List.mem_cons_of_mem _ (List.mem_flatMap.2 ⟨d, hd, hf⟩)
      · exact h e (List.mem_cons_of_mem _ he)
    rw [pendingReserved, ih hpending, List.flatMap_cons, c.reserved_eq_cons, List.flatMap_append,
      List.flatMap_map, hbelow]
    rfl

theorem Column.map_averageSize_hint? (path : Path) (c : Column) :
    (c.hint? path).map CapacityHint.averageSize = c.averageSize? := by
  cases c <;> rfl

/-- Every list finds its average size by its number, and no other column finds one. -/
theorem findsSizes_capacityHints {root : Column} (h : root.Regular) (path : Path) :
    FindsSizes ((capacityHints path root).map fun hint => (hint.list, hint.averageSize)) true
      root := by
  intro d hd
  have hcolumns := root.map_column_nodes .part path
  rw [capacityHints_eq .part, List.find?_map, if_pos rfl]
  cases hfind : ((root.nodes .part path).filterMap Node.hint?).find?
      ((fun e : ColumnId × UInt32 => e.1 == d.id) ∘ fun hint => (hint.list, hint.averageSize)) with
  | some hint =>
    -- the hint is for a column of the same number
    obtain ⟨n, hn, hhint⟩ := List.mem_filterMap.1 (List.mem_of_find?_eq_some hfind)
    have hlist : hint.list = d.id := by simpa using List.find?_some hfind
    have hmem : n.column ∈ root.preorder := hcolumns ▸ List.mem_map_of_mem hn
    have heq : n.column = d := by
      apply h.eq_of_id hmem hd
      rw [← Node.id_of_hint? hhint, hlist]
    rw [← heq, ← n.column.map_averageSize_hint? n.path]
    show some hint.averageSize = n.hint?.map _
    rw [hhint]
    rfl
  | none =>
    obtain ⟨n, hn, rfl⟩ : ∃ n ∈ root.nodes .part path, n.column = d := by
      rw [← hcolumns] at hd
      exact List.mem_map.1 hd
    cases hsize : n.column.averageSize? with
    | none => rfl
    | some k =>
      -- the hint for the list would have been found
      rw [← n.column.map_averageSize_hint? n.path] at hsize
      obtain ⟨hint, hhint, -⟩ := Option.map_eq_some_iff.1 hsize
      have hnone := List.find?_eq_none.1 hfind hint (List.mem_filterMap.2 ⟨n, hn, hhint⟩)
      exact absurd (by simp [Node.id_of_hint? hhint]) hnone

/-! ### Handles -/

/-- The numbers of list columns with the average sizes that are reserved for, if any. -/
def Specification.reservedSizes (s : Specification) (o : WriterOptions) :
    List (ColumnId × UInt32) :=
  if o.capacityHints then s.hints.map fun hint => (hint.list, hint.averageSize) else []

/-- The slots that a new handle reserves for a column are those for its rows, times the exact
    product of the average sizes of all lists around the column, up to a limit. -/
theorem reserved_closed_form {c : Catalog} {tree root : Column} (hcompile : compile c = .ok tree)
    (hroot : root ∈ tree.preorder) {owner : Owner} {writerId : WriterId} {s : Specification}
    (hs : synthesize root owner writerId = .ok s) (o : WriterOptions) :
    ∃ h : WriterHandle, WriterHandle.create s o = .ok h ∧
      h.reserved = pendingReserved (s.reservedSizes o) [(root, o.batchSize)] ∧
      h.reserved.length = root.count ∧
      (∀ (k : Nat) (column : Column), root.preorder[k]? = some column →
        ∃ p, root.positions[k]? = some p ∧ root.descend? p = some column ∧
          h.reserved[k]? = some (o.slotsWithin (root.sizesAround p))) ∧
      ∀ n ∈ h.reserved, n ≤ max o.batchSize (2 ^ 22) := by
  obtain ⟨-, -, hregular⟩ := compile_regular hcompile
  have hr := hregular.of_mem_preorder hroot
  have hhints := hints_of_synthesize hs
  obtain rfl := (synthesize_eq_ok hs).1
  have hsupported : s.root.preorder.forM Column.supported = .ok () :=
    forM_eq_ok fun d hd => (hr.of_mem_preorder hd).supported
  have hcreate : ∃ h, WriterHandle.create s o = .ok h ∧
      h.reserved = s.root.reserved o.capacityHints o.batchSize := by
    unfold WriterHandle.create
    rw [hsupported]
    exact ⟨_, rfl, rfl⟩
  have hclosed : s.root.reserved o.capacityHints o.batchSize =
      s.root.positions.map fun p => o.slotsWithin (s.root.sizesAround p) := by
    have hslots := s.root.reserved_slotsWithin o []
    rwa [o.slotsWithin_nil] at hslots
  obtain ⟨h, hh, hreserved⟩ := hcreate
  refine ⟨h, hh, ?_, ?_, ?_, ?_⟩
  · have hfinds : FindsSizes (s.reservedSizes o) o.capacityHints s.root := by
      unfold Specification.reservedSizes
      by_cases hasked : o.capacityHints = true
      · rw [if_pos hasked, hasked, hhints]
        exact findsSizes_capacityHints hr _
      · rw [if_neg hasked, Bool.eq_false_iff.2 hasked]
        exact fun _ _ => rfl
    have hpending : ∀ e ∈ [(s.root, o.batchSize)],
        FindsSizes (s.reservedSizes o) o.capacityHints e.1 := by
      intro e he
      rw [List.mem_singleton.1 he]
      exact hfinds
    rw [hreserved, pendingReserved_eq hpending]
    simp
  · rw [hreserved, hclosed, List.length_map, Column.length_positions]
  · intro k column hcolumn
    rw [← Column.getElem?_positions] at hcolumn
    obtain ⟨p, hp, hcolumn⟩ := Option.bind_eq_some_iff.1 hcolumn
    refine ⟨p, hp, hcolumn, ?_⟩
    rw [hreserved, hclosed, List.getElem?_map, hp]
    rfl
  · intro n hn
    rw [hreserved, hclosed] at hn
    obtain ⟨p, -, rfl⟩ := List.mem_map.1 hn
    exact o.slotsWithin_le _

/-! ### An example -/

/-- Archives of boxes of letters. -/
def archives : Catalog :=
  .ofList "Archive" [
    { name := "Archive", fields := [
      { name := "boxes", type := (TypeRef.list (.structOf "Box")).withAverageSize 3000 }] },
    { name := "Box", fields := [
      { name := "letters", type := (TypeRef.list (.primitive "string")).withAverageSize 2000 }] }]

/-- What is built for archives. -/
def archivesSpecification : Specification where
  writerId := 0
  rootType := "Archive"
  root := .struct ⟨0, "Archive", none⟩ "Archive" [
    .list ⟨1, "boxes", "boxes"⟩ 3000
      (.struct ⟨2, "element", none⟩ "Box" [
        .list ⟨3, "letters", "letters"⟩ 2000 (.primitive ⟨4, "element", none⟩ .string)])]
  fields := [⟨"boxes", .listOf (.struct [⟨"letters", .listOf (.leaf .utf8), true⟩]), true⟩]
  hints := [⟨1, 2, 3000, ⟨"Archive", ["boxes"]⟩⟩,
    ⟨3, 4, 2000, ⟨"Archive", ["boxes", "element", "letters"]⟩⟩]
  plan := [
    (⟨0, "boxes"⟩, .list ⟨1, ⟨"Archive", ["boxes"]⟩⟩
      (.struct ⟨2, ⟨"Archive", ["boxes", "element"]⟩⟩
        [(⟨0, "letters"⟩, .list ⟨3, ⟨"Archive", ["boxes", "element", "letters"]⟩⟩
          (.primitive ⟨4, ⟨"Archive", ["boxes", "element", "letters", "element"]⟩⟩ .string))]))]

theorem compile_archives : compile archives = .ok archivesSpecification.root := by
  have harchive : archives.describe "Archive" = some { name := "Archive", fields := [
      { name := "boxes", type := (TypeRef.list (.structOf "Box")).withAverageSize 3000 }] } := by
    decide +kernel
  have hbox : archives.describe "Box" = some { name := "Box", fields := [
      { name := "letters", type := (TypeRef.list (.primitive "string")).withAverageSize 2000 }] } := by
    decide +kernel
  have hstring : KindTag.parse? "string" = some (.scalar .string) := by decide +kernel
  have hstruct : KindTag.parse? "struct" = some .struct := by decide +kernel
  have hlist : KindTag.parse? "list" = some .list := by decide +kernel
  have hroot : archives.root = "Archive" := by decide +kernel
  unfold compile
  rw [hroot, harchive]
  refine expandStruct_eq_ok (by simp) harchive ?_
  apply expandFields_cons_eq_ok (by simp)
  · refine expandType_list_eq_ok (TypeRef.tag_list hlist) rfl (by decide) ?_
    refine expandType_struct_eq_ok (TypeRef.tag_of_parse? hstruct rfl) rfl ?_
    refine expandStruct_eq_ok (by simp) hbox ?_
    apply expandFields_cons_eq_ok (by simp)
    · refine expandType_list_eq_ok (TypeRef.tag_list hlist) rfl (by decide) ?_
      exact expandType_scalar_eq_ok (TypeRef.tag_of_parse? hstring rfl)
    · exact expandFields_nil_eq_ok
  · exact expandFields_nil_eq_ok

/-- For two archives there is room for 6000 boxes, but not for 12 million letters. -/
theorem archives_reserved :
    ∃ h, WriterHandle.create archivesSpecification ⟨2, true⟩ = .ok h ∧
      h.reserved = [2, 2, 6000, 6000, 4194304] ∧
      h.reserved[4]? = some ((WriterOptions.mk 2 true).slotsWithin [3000, 2000]) := by
  have hmem : archivesSpecification.root ∈ archivesSpecification.root.preorder := by
    rw [Column.preorder_eq_cons]
    exact List.mem_cons_self
  have hsynthesize : synthesize archivesSpecification.root archives.describe 0 =
      .ok archivesSpecification := rfl
  obtain ⟨h, hh, -, -, hslots, -⟩ := reserved_closed_form compile_archives hmem hsynthesize ⟨2, true⟩
  obtain ⟨p, hp, -, hletters⟩ := hslots 4 (.primitive ⟨4, "element", none⟩ .string) rfl
  obtain rfl : [0, 0, 0, 0] = p := Option.some.inj hp
  refine ⟨h, hh, ?_, hletters⟩
  cases hh
  rfl

end Columnar
