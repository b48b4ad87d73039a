import Columnar.Proofs.Catalog.RoundTrip
import Columnar.Proofs.Schema.Unfolding
import Columnar.Proofs.Text.Bytes
import Mathlib.Data.List.Count
import Mathlib.Data.List.Induction
import Mathlib.Data.List.Nodup
import Mathlib.Data.List.Perm.Basic

/-! # What a catalog keeps of the descriptions put into it

    Of all descriptions of one name a catalog keeps the last one, and it lists
    those that it keeps in the order of the bytes of their names
    (`Catalog.KeepsLast`).  Inserting a description carries this from a
    sequence of descriptions to the sequence with one more
    (`KeepsLast.insert`), and it leaves only one catalog (`KeepsLast.eq`). -/

namespace Columnar

/-- The last of the descriptions of that name. -/
def lastNamed? (name : String) (types : List TypeDescription) : Option TypeDescription :=
  (types.filter (·.name == name)).getLast?

theorem lastNamed?_concat (name : String) (types : List TypeDescription) (d : TypeDescription) :
    lastNamed? name (types ++ [d]) = if d.name = name then some d else lastNamed? name types := by
  unfold lastNamed?
  rw [List.filter_append]
  by_cases h : d.name = name
  · rw [if_pos h, List.filter_cons_of_pos (by simpa using h)]
    exact List.getLast?_concat
  · rw [if_neg h, List.filter_cons_of_neg (by simpa using h)]
    rw [List.filter_nil, List.append_nil]

theorem isSome_lastNamed? (name : String) (types : List TypeDescription) :
    (lastNamed? name types).isSome ↔ name ∈ types.map (·.name) := by
  unfold lastNamed?
  rw [List.getLast?_isSome, List.mem_map]
  simp [List.filter_eq_nil_iff]

/-! ### Lists -/

/-- What comes out of a list is made of its items one by one. -/
theorem forall₂_of_mapM_eq_some {α β : Type} {read : α → Option β} {items : List α} {xs : List β}
    (h : items.mapM read = some xs) : List.Forall₂ (fun item x => read item = some x) items xs := by
  induction items generalizing xs with
  | nil =>
    cases h
    exact .nil
  | cons item rest ih =>
    rw [List.mapM_cons] at h
    obtain ⟨y, hy, h⟩ := Option.bind_eq_some_iff.1 h
    obtain ⟨ys, hys, h⟩ := Option.bind_eq_some_iff.1 h
    cases h
    exact .cons hy (ih hys)

/-! ### Lists in the order of the names -/

/-- What is found after an insertion is what was put in, or what was found before. -/
theorem find?_insertByName (d : TypeDescription) (name : String) (types : List TypeDescription) :
    (insertByName d types).find? (·.name == name) =
      if d.name = name then some d else types.find? (·.name == name) := by
  by_cases hname : d.name = name
  · rw [if_pos hname]
    have hfound : ∀ rest : List TypeDescription,
        (d :: rest).find? (·.name == name) = some d :=
      fun rest => List.find?_cons_of_pos (by simpa using hname)
    induction types with
    | nil => exact hfound []
    | cons e rest ih =>
      rw [insertByName]
      by_cases hlt : d.name < e.name
      · rw [if_pos hlt, hfound]
      · by_cases heq : d.name = e.name
        · rw [if_neg hlt, if_pos heq, hfound]
        · have hskip : e.name ≠ name := fun h => heq (hname.trans h.symm)
          rw [if_neg hlt, if_neg heq, List.find?_cons_of_neg (by simpa using hskip), ih]
  · rw [if_neg hname]
    exact find?_insertByName_of_ne hname types

section Ordered

variable {types others : List TypeDescription}

/-- A description that is listed is the one found under its name. -/
theorem find?_of_mem (hordered : types.Pairwise (·.name < ·.name)) {d : TypeDescription}
    (hd : d ∈ types) : types.find? (·.name == d.name) = some d := by
  induction types with
  | nil => cases hd
  | cons e rest ih =>
    obtain ⟨hfirst, hrest⟩ := List.pairwise_cons.1 hordered
    rcases List.mem_cons.1 hd with rfl | hd
    · exact List.find?_cons_of_pos (by simp)
    · have hne : e.name ≠ d.name := fun h => String.lt_irrefl _ (h ▸ hfirst d hd)
      rw [List.find?_cons_of_neg (by simpa using hne)]
      exact ih hrest hd

theorem mem_iff_find?_eq_some (hordered : types.Pairwise (·.name < ·.name)) (d : TypeDescription) :
    d ∈ types ↔ types.find? (·.name == d.name) = some d := by
  constructor
  · intro h
    exact find?_of_mem hordered h
  · intro h
    exact List.mem_of_find?_eq_some h

theorem nodup_names_of_ordered (hordered : types.Pairwise (·.name < ·.name)) :
    (types.map (·.name)).Nodup := by
  rw [List.Nodup, List.pairwise_map]
  apply hordered.imp
  intro d e hlt heq
  exact String.lt_irrefl _ (heq ▸ hlt)

/-- Two lists in the order of the names in which the same is found are equal. -/
theorem eq_of_find?_eq (htypes : types.Pairwise (·.name < ·.name))
    (hothers : others.Pairwise (·.name < ·.name))
    (hfind : ∀ name, types.find? (·.name == name) = others.find? (·.name == name)) :
    types = others := by
  have hperm : types.Perm others := by
    rw [List.perm_ext_iff_of_nodup (List.Nodup.of_map _ (nodup_names_of_ordered htypes))
      (List.Nodup.of_map _ (nodup_names_of_ordered hothers))]
    intro d
    rw [mem_iff_find?_eq_some htypes, mem_iff_find?_eq_some hothers, hfind]
  apply hperm.eq_of_pairwise _ htypes hothers
  intro d e _ _ hlt hgt
  exact absurd hgt (String.lt_asymm hlt)

end Ordered

namespace Catalog

/-! ### Insertions -/

theorem describe_insert (c : Catalog) (d : TypeDescription) (name : String) :
    (c.insert d).describe name = if d.name = name then some d else c.describe name :=
  find?_insertByName d name c.types

theorem mem_types_iff (c : Catalog) (d : TypeDescription) :
    d ∈ c.types ↔ c.describe d.name = some d :=
  mem_iff_find?_eq_some c.ordered d

theorem mem_names_iff (c : Catalog) (name : String) :
    name ∈ c.types.map (·.name) ↔ (c.describe name).isSome := by
  rw [List.mem_map, Option.isSome_iff_exists]
  constructor
  · rintro ⟨d, hd, rfl⟩
    exact ⟨d, (c.mem_types_iff d).1 hd⟩
  · rintro ⟨d, hd⟩
    exact ⟨d, List.mem_of_find?_eq_some hd, name_of_describe hd⟩

/-- The names stand in the order of their bytes, which is that of their characters. -/
theorem ascending_bytes (c : Catalog) :
    (c.types.map fun d => Text.bytes d.name).Pairwise (· < ·) := by
  rw [List.pairwise_map]
  apply c.ordered.imp
  intro d e hlt
  exact Text.bytes_lt_iff.2 hlt

/-- A catalog is its row type and what it says of each name. -/
theorem eq_of_describe_eq {c c' : Catalog} (hroot : c.root = c'.root)
    (hdescribe : ∀ name, c.describe name = c'.describe name) : c = c' := by
  have htypes : c.types = c'.types := eq_of_find?_eq c.ordered c'.ordered hdescribe
  cases c
  cases c'
  cases hroot
  cases htypes
  rfl

/-! ### Sequences of descriptions -/

/-- The catalog has that row type and keeps the last description of each name of a sequence, and
    nothing else. -/
structure KeepsLast (c : Catalog) (root : String) (types : List TypeDescription) : Prop where
  root_eq : c.root = root
  describe_eq : ∀ name, c.describe name = lastNamed? name types
  /-- What is said of a name is stored under that name. -/
  stored : ∀ name d, c.describe name = some d → d.name = name
  /-- What is listed is what is said of the names. -/
  listed : ∀ d, d ∈ c.types ↔ c.describe d.name = some d
  /-- The names of the sequence are listed once each, and no others. -/
  once : ∀ name, (c.types.map (·.name)).count name =
    if name ∈ types.map (·.name) then 1 else 0
  ascending : (c.types.map fun d => Text.bytes d.name).Pairwise (· < ·)

/-- All the rest follows from what the catalog says of each name, since it is in order. -/
theorem keepsLast_of_describe {c : Catalog} {types : List TypeDescription}
    (h : ∀ name, c.describe name = lastNamed? name types) : c.KeepsLast c.root types where
  root_eq := rfl
  describe_eq := h
  stored := fun _ _ => name_of_describe
  listed := c.mem_types_iff
  once := by
    intro name
    have hmem : name ∈ c.types.map (·.name) ↔ name ∈ types.map (·.name) := by
      rw [mem_names_iff, h, isSome_lastNamed?]
    rw [(nodup_names_of_ordered c.ordered).count]
    simp only [hmem]
  ascending := c.ascending_bytes

namespace KeepsLast

variable {c c' : Catalog} {root : String} {types others : List TypeDescription}

theorem of_empty (root : String) : (empty root).KeepsLast root [] :=
  keepsLast_of_describe (c := empty root) fun _ => rfl

/-- One more description is the last one of its name and changes nothing else. -/
theorem insert (h : c.KeepsLast root types) (d : TypeDescription) :
    (c.insert d).KeepsLast root (types ++ [d]) := by
  obtain rfl : (c.insert d).root = root := h.root_eq
  apply keepsLast_of_describe
  intro name
  rw [describe_insert, lastNamed?_concat, h.describe_eq]

theorem foldl_insert (h : c.KeepsLast root types) (more : List TypeDescription) :
    (more.foldl Catalog.insert c).KeepsLast root (types ++ more) := by
  induction more using List.reverseRecOn with
  | nil =>
    rw [List.append_nil]
    exact h
  | append_singleton more d ih =>
    rw [List.foldl_append, ← List.append_assoc]
    exact ih.insert d

theorem of_list (root : String) (types : List TypeDescription) :
    (ofList root types).KeepsLast root types :=
  (of_empty root).foldl_insert types

/-- The row type and the last descriptions determine the catalog. -/
theorem eq_iff (h : c.KeepsLast root types) {root' : String} (h' : c'.KeepsLast root' others) :
    c = c' ↔ root = root' ∧ ∀ name, lastNamed? name types = lastNamed? name others := by
  constructor
  · rintro rfl
    constructor
    · exact h.root_eq.symm.trans h'.root_eq
    · intro name
      rw [← h.describe_eq, ← h'.describe_eq]
  · rintro ⟨rfl, hlast⟩
    apply eq_of_describe_eq (h.root_eq.trans h'.root_eq.symm)
    intro name
    rw [h.describe_eq, h'.describe_eq, hlast]

end KeepsLast

/-! ### Documents -/

/-- The document names the row type and gives these descriptions, in this order; it may leave them
    out. -/
def Given (surplus : Document.Surplus) (d : Document) (root : String)
    (types : List TypeDescription) : Prop :=
  ∃ members, d.members? surplus ["root", "types"] = some members ∧
    Document.member? "root" members = some (.text root) ∧
    match Document.member? "types" members with
    | none => types = []
    | some given => ∃ items, given = .list items ∧
        List.Forall₂ (fun item t => TypeDescription.ofDocument surplus item = some t) items types

/-- A catalog that is read from a document is made of the descriptions given there. -/
theorem given_of_ofDocument {surplus : Document.Surplus} {d : Document} {c : Catalog}
    (h : ofDocument surplus d = some c) :
    ∃ root types, Given surplus d root types ∧ c.KeepsLast root types := by
  unfold ofDocument at h
  simp only [Option.bind_eq_bind, Option.bind_eq_some_iff] at h
  obtain ⟨members, hmembers, root, hroot, types, htypes, h⟩ := h
  cases h
  refine ⟨root, types, ⟨members, hmembers, ?_, ?_⟩, .of_list root types⟩
  · obtain ⟨value, hvalue, hroot⟩ := Option.bind_eq_some_iff.1 hroot
    cases value with
    | text s =>
      cases hroot
      exact hvalue
    | _ => cases hroot
  · unfold Document.withDefault at htypes
    cases hgiven : Document.member? "types" members with
    | none =>
      rw [hgiven] at htypes
      cases htypes
      rfl
    | some given =>
      rw [hgiven] at htypes
      obtain ⟨items, hitems, htypes⟩ := Option.bind_eq_some_iff.1 htypes
      cases given with
      | list items' =>
        cases hitems
        exact ⟨items, rfl, forall₂_of_mapM_eq_some htypes⟩
      | _ => cases hitems

theorem given_of_read {parsed : Option Document} {surplus : Document.Surplus} {c : Catalog}
    (h : parsed.bind (ofDocument surplus) = some c) :
    ∃ d root types, parsed = some d ∧ Given surplus d root types ∧ c.KeepsLast root types := by
  obtain ⟨d, hparsed, hd⟩ := Option.bind_eq_some_iff.1 h
  obtain ⟨root, types, hgiven, hkeeps⟩ := given_of_ofDocument hd
  exact ⟨d, root, types, hparsed, hgiven, hkeeps⟩

theorem given_of_ofJson {text : String} {c : Catalog} (h : ofJson text = .ok c) :
    ∃ d root types, Json.parse? text = some d ∧ Given .refused d root types ∧
      c.KeepsLast root types := by
  unfold ofJson at h
  split at h
  · next hread =>
    cases h
    exact given_of_read hread
  · cases h

theorem given_of_ofToml {text : String} {c : Catalog} (h : ofToml text = .ok c) :
    ∃ d root types, Toml.parse? text = some d ∧ Given .ignored d root types ∧
      c.KeepsLast root types := by
  unfold ofToml at h
  split at h
  · next hread =>
    cases h
    exact given_of_read hread
  · cases h

/-- A catalog keeps the last description of each name: of those inserted into a new one, of those
    in a document that it is read from, and of these and what is inserted after them.  So two
    sequences give the same catalog exactly if they name the same row type and agree on the last
    description of every name, and then there is also one text and one result of compiling. -/
theorem last_description_kept :
    (∀ (root : String) (types : List TypeDescription),
      (types.foldl insert (empty root)).KeepsLast root types) ∧
    (∀ (text : String) (c : Catalog), ofJson text = .ok c →
      ∃ d root types, Json.parse? text = some d ∧ Given .refused d root types ∧
        c.KeepsLast root types) ∧
    (∀ (text : String) (c : Catalog), ofToml text = .ok c →
      ∃ d root types, Toml.parse? text = some d ∧ Given .ignored d root types ∧
        c.KeepsLast root types) ∧
    (∀ (c : Catalog) (root : String) (types more : List TypeDescription), c.KeepsLast root types →
      (more.foldl insert c).KeepsLast root (types ++ more)) ∧
    (∀ (c c' : Catalog) (root root' : String) (types others : List TypeDescription),
      c.KeepsLast root types → c'.KeepsLast root' others →
        (c = c' ↔ root = root' ∧ ∀ name, lastNamed? name types = lastNamed? name others)) ∧
    (∀ (c c' : Catalog) (root : String) (types others : List TypeDescription),
      c.KeepsLast root types → c'.KeepsLast root others →
        (∀ name, lastNamed? name types = lastNamed? name others) →
        c = c' ∧ c.toJson = c'.toJson ∧ compile c = compile c') := by
  refine ⟨KeepsLast.of_list, fun _ _ => given_of_ofJson, fun _ _ => given_of_ofToml, ?_, ?_, ?_⟩
  · intro c root types more h
    exact h.foldl_insert more
  · intro c c' root root' types others h h'
    exact h.eq_iff h'
  · intro c c' root types others h h' hlast
    obtain rfl : c = c' := (h.eq_iff h').2 ⟨rfl, hlast⟩
    exact ⟨rfl, rfl, rfl⟩

/-- Orders, described too early and then again. -/
def repeatedly : List TypeDescription :=
  [⟨"Order", none, []⟩, ⟨"Line", some ["sku"], []⟩,
    ⟨"Order", none, [⟨"id", none, .primitive "long"⟩]⟩]

/-- The same in the end, with another description of lines before it. -/
def overwritten : List TypeDescription :=
  [⟨"Line", none, []⟩, ⟨"Order", none, [⟨"id", none, .primitive "long"⟩]⟩,
    ⟨"Line", some ["sku"], []⟩]

theorem lastNamed?_repeatedly (name : String) :
    lastNamed? name repeatedly = lastNamed? name overwritten := by
  by_cases hline : name = "Line"
  · subst hline
    rfl
  · by_cases horder : name = "Order"
    · subst horder
      rfl
    · simp [lastNamed?, repeatedly, overwritten, Ne.symm hline, Ne.symm horder]

/-- A JSON document that gives the one sequence. -/
def repeatedlyJson : String :=
  "[\"Order\", [[\"Order\"], [\"Line\", [\"sku\"]],
    [\"Order\", null, [\x7b\"name\": \"id\", \"kind\": \"long\"\x7d]]]]"

/-- A TOML document that gives the other. -/
def overwrittenToml : String :=
  "root = \"Order\"
[[types]]
name = \"Line\"
[[types]]
name = \"Order\"
fields = [\x7bname = \"id\", kind = \"long\"\x7d]
[[types]]
name = \"Line\"
accessors = [\"sku\"]
"

/-- The catalogs of the two sequences and of the two documents are one, also after one more
    description of lines. -/
theorem repeatedly_kept :
    ofJson repeatedlyJson = .ok (ofList "Order" repeatedly) ∧
    ofToml overwrittenToml = .ok (ofList "Order" repeatedly) ∧
    (∃ d root types, Json.parse? repeatedlyJson = some d ∧ Given .refused d root types ∧
      (ofList "Order" repeatedly).KeepsLast root types) ∧
    (∃ d root types, Toml.parse? overwrittenToml = some d ∧ Given .ignored d root types ∧
      (ofList "Order" repeatedly).KeepsLast root types) ∧
    ((ofList "Order" repeatedly).insert ⟨"Line", none, []⟩).KeepsLast "Order"
      (repeatedly ++ [⟨"Line", none, []⟩]) ∧
    ofList "Order" repeatedly = ofList "Order" overwritten ∧
    (ofList "Order" repeatedly).toJson = (ofList "Order" overwritten).toJson ∧
    compile (ofList "Order" repeatedly) = compile (ofList "Order" overwritten) := by
  obtain ⟨hinserted, hjson, htoml, hmore, hsame, hresults⟩ := last_description_kept
  have hread : ofJson repeatedlyJson = .ok (ofList "Order" repeatedly) := by decide +kernel
  have hread' : ofToml overwrittenToml = .ok (ofList "Order" repeatedly) := by decide +kernel
  have hkeeps := hinserted "Order" repeatedly
  have hkeeps' := hinserted "Order" overwritten
  refine ⟨hread, hread', hjson _ _ hread, htoml _ _ hread', ?_, ?_, ?_⟩
  · exact hmore _ "Order" repeatedly [⟨"Line", none, []⟩] hkeeps
  · exact (hsame _ _ "Order" "Order" _ _ hkeeps hkeeps').2 ⟨rfl, lastNamed?_repeatedly⟩
  · exact (hresults _ _ "Order" _ _ hkeeps hkeeps' lastNamed?_repeatedly).2

end Catalog

end Columnar
