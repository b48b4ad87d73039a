import Columnar.Catalog.Text
import Columnar.Proofs.Catalog.Description

/-! # Catalogs as texts, there and back

    Reading the text of a catalog gives the catalog, unless its document nests
    too deep for the reader; then it is an error.  No catalog that was read
    nests too deep (`json_round_trip`).

    The descriptions of a catalog are put in by name; in the order in which
    they are written, each one comes behind all before it. -/

namespace Columnar

namespace Catalog

/-! ### Descriptions by name -/

/-- A description whose name comes after all others is put at the end. -/
theorem insertByName_of_lt {d : TypeDescription} {types : List TypeDescription}
    (h : ∀ e ∈ types, e.name < d.name) : insertByName d types = types ++ [d] := by
  induction types with
  | nil => rfl
  | cons e rest ih =>
    have hlt : e.name < d.name := h e List.mem_cons_self
    have hne : d.name ≠ e.name := fun heq => String.lt_irrefl _ (heq ▸ hlt)
    rw [insertByName, if_neg (String.lt_asymm hlt), if_neg hne,
      ih fun e he => h e (List.mem_cons_of_mem _ he), List.cons_append]

theorem types_foldl_insert {c : Catalog} {types : List TypeDescription}
    (h : (c.types ++ types).Pairwise (·.name < ·.name)) :
    (types.foldl insert c).types = c.types ++ types := by
  induction types generalizing c with
  | nil => exact (List.append_nil _).symm
  | cons d rest ih =>
    have hd : ∀ e ∈ c.types, e.name < d.name := fun e he =>
      (List.pairwise_append.1 h).2.2 e he d List.mem_cons_self
    have hinsert : (c.insert d).types = c.types ++ [d] := insertByName_of_lt hd
    have happend : (c.insert d).types ++ rest = c.types ++ d :: rest := by
      rw [hinsert, List.append_assoc, List.singleton_append]
    rw [List.foldl_cons, ih (happend ▸ h), happend]

theorem root_foldl_insert (c : Catalog) (types : List TypeDescription) :
    (types.foldl insert c).root = c.root := by
  induction types generalizing c with
  | nil => rfl
  | cons d rest ih => exact ih (c.insert d)

/-- A catalog is put together again from its row type and its descriptions. -/
theorem ofList_types (c : Catalog) : ofList c.root c.types = c := by
  have htypes : (ofList c.root c.types).types = c.types := types_foldl_insert c.ordered
  have hroot : (ofList c.root c.types).root = c.root := root_foldl_insert _ _
  cases hlist : ofList c.root c.types
  rw [hlist] at htypes hroot
  cases c
  cases htypes
  cases hroot
  rfl

/-- There are no other descriptions than those put in. -/
theorem mem_types_foldl_insert {c : Catalog} {types : List TypeDescription} {e : TypeDescription}
    (h : e ∈ (types.foldl insert c).types) : e ∈ c.types ∨ e ∈ types := by
  induction types generalizing c with
  | nil => exact .inl h
  | cons d rest ih =>
    rcases ih h with h | h
    · rcases mem_insertByName h with rfl | h
      · exact .inr List.mem_cons_self
      · exact .inl h
    · exact .inr (List.mem_cons_of_mem d h)

theorem mem_of_mem_ofList {root : String} {types : List TypeDescription} {e : TypeDescription}
    (h : e ∈ (ofList root types).types) : e ∈ types := by
  rcases mem_types_foldl_insert h with h | h
  · cases h
  · exact h

/-! ### Documents -/

/-- The types of a catalog nest two levels deeper than the catalog. -/
theorem depth_toDocument (c : Catalog) :
    c.toDocument.depth = Document.depthItems (c.types.map TypeDescription.toDocument) + 2 := by
  rw [toDocument]
  simp [Document.depth, Document.depthMembers]

theorem writable_toDocument (c : Catalog) : Json.writable c.toDocument = true := by
  have htypes : Json.writableItems (c.types.map TypeDescription.toDocument) = true := by
    rw [Json.writableItems_iff, List.forall_mem_map]
    exact fun t _ => t.writable_toDocument
  simp [toDocument, Json.writable, Json.writableMembers, htypes]

/-- A catalog is read from the name of its row type, whatever stands in the list of its types. -/
theorem ofDocument_table (surplus : Document.Surplus) (root : String) (items : List Document) :
    ofDocument surplus (.table [("root", .text root), ("types", .list items)]) =
      (items.mapM (TypeDescription.ofDocument surplus)).map (ofList root) := by
  have hmembers : Document.members? surplus ["root", "types"]
      (.table [("root", .text root), ("types", .list items)]) =
        some [("root", .text root), ("types", .list items)] := rfl
  have hroot : Document.required Document.text? "root"
      [("root", .text root), ("types", .list items)] = some root := rfl
  have htypes : Document.withDefault []
      (fun d => d.list?.bind fun items => items.mapM (TypeDescription.ofDocument surplus)) "types"
      [("root", .text root), ("types", .list items)] =
        items.mapM (TypeDescription.ofDocument surplus) := rfl
  rw [ofDocument]
  simp only [hmembers, hroot, htypes, Option.bind_eq_bind, Option.bind_some]
  cases items.mapM (TypeDescription.ofDocument surplus) <;> rfl

/-- A catalog is read, unless it nests too deep. -/
theorem ofDocument_within (surplus : Document.Surplus) (c : Catalog) :
    ofDocument surplus (Json.within 0 c.toDocument) =
      if c.toDocument.depth ≤ Json.maxDepth then some c else none := by
  have hwithin : Json.within 0 c.toDocument = .table [("root", .text c.root),
      ("types", .list (Json.withinItems 2 (c.types.map TypeDescription.toDocument)))] := rfl
  have hlevels : 2 + 2 ≤ Json.maxDepth := by decide
  have hdepth : c.toDocument.depth =
      2 + Document.depthItems (c.types.map TypeDescription.toDocument) := by
    rw [depth_toDocument, Nat.add_comm]
  rw [hwithin, ofDocument_table, mapM_withinItems (by decide) c.types
    fun t _ => t.ofDocument_within surplus hlevels, hdepth]
  split
  · rw [Option.map_some, ofList_types]
  · rfl

theorem depth_toDocument_le {surplus : Document.Surplus} {d : Document} {c : Catalog}
    (h : ofDocument surplus d = some c) : c.toDocument.depth ≤ max 4 d.depth := by
  unfold ofDocument at h
  simp only [Option.bind_eq_bind, Option.bind_eq_some_iff] at h
  obtain ⟨members, hmembers, root, -, types, htypes, h⟩ := h
  cases h
  have hitems : Document.depthItems
      ((ofList root types).types.map TypeDescription.toDocument) ≤ max 2 (d.depth - 2) := by
    rw [Json.depthItems_le_iff, List.forall_mem_map]
    intro t ht
    obtain ⟨part, hpart, hdepth⟩ :=
      Document.depth_of_withDefault_list hmembers htypes (mem_of_mem_ofList ht)
    have hle := TypeDescription.depth_toDocument_le hpart
    omega
  rw [depth_toDocument]
  omega

/-! ### Texts -/

theorem ofJson_toJson (c : Catalog) :
    ofJson c.toJson =
      if c.toDocument.depth ≤ Json.maxDepth then .ok c else .error .json := by
  rw [ofJson, toJson, Json.parse?_pretty c.writable_toDocument, Option.bind_some,
    ofDocument_within]
  by_cases hdepth : c.toDocument.depth ≤ Json.maxDepth
  · rw [if_pos hdepth, if_pos hdepth]
  · rw [if_neg hdepth, if_neg hdepth]

/-- No catalog that is read from a text nests too deep to be read again. -/
theorem depth_of_ofJson {text : String} {c : Catalog} (h : ofJson text = .ok c) :
    c.toDocument.depth ≤ Json.maxDepth := by
  unfold ofJson at h
  split at h
  · next hread =>
    cases h
    obtain ⟨d, hparse, hd⟩ := Option.bind_eq_some_iff.1 hread
    have hmost := Json.depth_of_parse? hparse
    have hle := depth_toDocument_le hd
    -- a list may stand for a table, but no reader holds less than what writing always has
    have hlevels : 4 ≤ Json.maxDepth := by decide
    omega
  · cases h

/-- A catalog whose document nests at most 127 lists and tables is read back from its text, the
    text of any other one is refused, and no text is read as one of the others.  Every catalog is
    made by adding its descriptions one after the other (`ofList_types`). -/
theorem json_round_trip :
    (∀ c : Catalog, c.toDocument.depth ≤ 127 → ofJson c.toJson = .ok c) ∧
    (∀ c : Catalog, 127 < c.toDocument.depth → ofJson c.toJson = .error .json) ∧
    (∀ (text : String) (c : Catalog), ofJson text = .ok c → c.toDocument.depth ≤ 127) := by
  refine ⟨fun c hdepth => ?_, fun c hdepth => ?_, fun text c h => depth_of_ofJson h⟩
  · have hheld : c.toDocument.depth ≤ Json.maxDepth := hdepth
    rw [ofJson_toJson, if_pos hheld]
  · have hdeep : ¬c.toDocument.depth ≤ Json.maxDepth := Nat.not_le.2 hdepth
    rw [ofJson_toJson, if_neg hdeep]

/-- Lists of lists of texts. -/
def nestedLists : Nat → TypeRef
  | 0 => .primitive "utf8"
  | n + 1 => .list (nestedLists n)

/-- A type with one field, of lists nested so deep.  Its names have to be escaped. -/
def nesting (n : Nat) : Catalog :=
  ofList "a \"b\"\n" [⟨"a \"b\"\n", some ["\\"], [⟨"\\", none, nestedLists n⟩]⟩]

/-- The deepest lists that are read back, those that are one level deeper, and a text of lists
    instead of tables. -/
theorem nesting_round_trip :
    (nesting 122).toDocument.depth = 127 ∧
    ofJson (nesting 122).toJson = .ok (nesting 122) ∧
    ofJson (nesting 123).toJson = .error .json ∧
    ofJson "[\"Order\", [[\"Order\"]]]" = .ok (ofList "Order" [⟨"Order", none, []⟩]) ∧
    (ofList "Order" [⟨"Order", none, []⟩]).toDocument.depth ≤ 127 := by
  have hread : ofJson "[\"Order\", [[\"Order\"]]]" =
      .ok (ofList "Order" [⟨"Order", none, []⟩]) := by decide +kernel
  exact ⟨by decide +kernel, json_round_trip.1 (nesting 122) (by decide +kernel),
    json_round_trip.2.1 (nesting 123) (by decide +kernel), hread, json_round_trip.2.2 _ _ hread⟩

end Catalog

end Columnar
