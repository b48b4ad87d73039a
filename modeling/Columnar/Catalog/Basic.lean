/-! # Type catalogs

    A catalog describes struct types by name and says which of them is the
    type of the rows.  Element, key and value types of collections are spelled
    out; struct types are referred to by name, so a catalog may hold cycles.

    The descriptions are kept in strictly increasing order of their names, so
    equal catalogs are equal lists of descriptions.
-/

namespace Columnar

/-- The type of a field, list element, map key or map value: a kind tag and what that kind needs.
    Entries that the kind does not use are kept but have no meaning. -/
structure TypeRef where
  kind : String
  typeName : Option String := none
  element : Option TypeRef := none
  key : Option TypeRef := none
  value : Option TypeRef := none
  averageSize : Option UInt32 := none
  precision : Option UInt8 := none
  scale : Option Int8 := none
  deriving Repr

namespace TypeRef

mutual

def decEq : (a b : TypeRef) → Decidable (a = b)
  | ⟨k, t, e, y, v, n, p, s⟩, ⟨k', t', e', y', v', n', p', s'⟩ =>
    match decEqOption e e', decEqOption y y', decEqOption v v' with
    | .isTrue he, .isTrue hy, .isTrue hv =>
      if h : k = k' ∧ t = t' ∧ n = n' ∧ p = p' ∧ s = s' then .isTrue (by simp [he, hy, hv, h])
      else .isFalse (by simp; grind)
    | .isFalse h, _, _ => .isFalse (by simp [h])
    | _, .isFalse h, _ => .isFalse (by simp [h])
    | _, _, .isFalse h => .isFalse (by simp [h])

def decEqOption : (a b : Option TypeRef) → Decidable (a = b)
  | none, none => .isTrue rfl
  | some a, some b =>
    match decEq a b with
    | .isTrue h => .isTrue (by rw [h])
    | .isFalse h => .isFalse (by simp [h])
  | none, some _ => .isFalse (by simp)
  | some _, none => .isFalse (by simp)

end

instance : DecidableEq TypeRef := decEq

/-! ### Building references -/

def primitive (kind : String) : TypeRef :=
  { kind }

def decimal (precision : UInt8) (scale : Int8) : TypeRef :=
  { kind := "decimal", precision := some precision, scale := some scale }

def structOf (typeName : String) : TypeRef :=
  { kind := "struct", typeName := some typeName }

def list (element : TypeRef) : TypeRef :=
  { kind := "list", element := some element }

def map (key value : TypeRef) : TypeRef :=
  { kind := "map", key := some key, value := some value }

def withAverageSize (t : TypeRef) (averageSize : UInt32) : TypeRef :=
  { t with averageSize := some averageSize }

end TypeRef

/-- One declared field of a struct type. -/
structure FieldDescriptor where
  name : String
  /-- The accessor that reads the field, if it is not named like the field. -/
  accessor : Option String := none
  type : TypeRef
  deriving Repr, DecidableEq

/-- The name of the accessor that reads the field. -/
def FieldDescriptor.accessorName (f : FieldDescriptor) : String :=
  f.accessor.getD f.name

/-- A struct type: its fields in order, and the accessors that its values offer. -/
structure TypeDescription where
  name : String
  /-- The accessors offered; `none` means one for each field, named like it. -/
  accessors : Option (List String) := none
  fields : List FieldDescriptor := []
  deriving Repr, DecidableEq

/-- The position of an accessor among those that the type offers. -/
def TypeDescription.resolveAccessor (d : TypeDescription) (accessor : String) : Option Nat :=
  match d.accessors with
  | some names => names.findIdx? (· == accessor)
  | none => d.fields.findIdx? (·.name == accessor)

/-! ### Catalogs -/

/-- Put a description in its place by name, instead of the one of the same name if there is one. -/
def insertByName (d : TypeDescription) : List TypeDescription → List TypeDescription
  | [] => [d]
  | e :: rest =>
    if d.name < e.name then d :: e :: rest
    else if d.name = e.name then d :: rest
    else e :: insertByName d rest

theorem mem_insertByName {d e : TypeDescription} {types : List TypeDescription}
    (h : e ∈ insertByName d types) : e = d ∨ e ∈ types := by
  induction types with
  | nil => simpa [insertByName] using h
  | cons a rest ih =>
    simp only [insertByName] at h
    split at h
    · simpa using h
    · split at h
      · rcases List.mem_cons.1 h with h | h <;> simp [h]
      · rcases List.mem_cons.1 h with h | h
        · simp [h]
        · rcases ih h with h | h <;> simp [h]

/-- Inserting keeps the names in strictly increasing order. -/
theorem pairwise_insertByName (d : TypeDescription) {types : List TypeDescription}
    (h : types.Pairwise (·.name < ·.name)) :
    (insertByName d types).Pairwise (·.name < ·.name) := by
  induction types with
  | nil => simp [insertByName]
  | cons a rest ih =>
    rw [List.pairwise_cons] at h
    simp only [insertByName]
    split
    · next hlt =>
      refine List.pairwise_cons.2 ⟨?_, List.pairwise_cons.2 h⟩
      intro e he
      rcases List.mem_cons.1 he with he | he
      · exact he ▸ hlt
      · exact String.lt_trans hlt (h.1 e he)
    · next hnlt =>
      split
      · next heq => exact List.pairwise_cons.2 ⟨fun e he => heq ▸ h.1 e he, h.2⟩
      · next hne =>
        refine List.pairwise_cons.2 ⟨?_, ih h.2⟩
        intro e he
        rcases mem_insertByName he with he | he
        · subst he
          exact String.not_le.1 fun hle => hne (String.le_antisymm hle (String.not_lt.1 hnlt))
        · exact h.1 e he

/-- Looking up another name is not affected. -/
theorem find?_insertByName_of_ne {d : TypeDescription} {typeName : String} (h : d.name ≠ typeName)
    (types : List TypeDescription) : (insertByName d types).find? (·.name == typeName) =
      types.find? (·.name == typeName) := by
  have hskip : ∀ rest : List TypeDescription,
      (d :: rest).find? (·.name == typeName) = rest.find? (·.name == typeName) :=
    fun rest => List.find?_cons_of_neg (by simpa using h)
  induction types with
  | nil => exact hskip []
  | cons e rest ih =>
    rw [insertByName]
    by_cases hlt : d.name < e.name
    · rw [if_pos hlt, hskip]
    · by_cases heq : d.name = e.name
      · rw [heq] at h
        rw [if_neg hlt, if_pos heq, hskip, List.find?_cons_of_neg (by simpa using h)]
      · rw [if_neg hlt, if_neg heq, List.find?_cons, List.find?_cons, ih]

/-- The name of the row type and the descriptions of all struct types. -/
structure Catalog where
  root : String
  types : List TypeDescription
  ordered : types.Pairwise (·.name < ·.name)
  deriving DecidableEq

namespace Catalog

/-- A catalog without descriptions. -/
def empty (root : String) : Catalog :=
  ⟨root, [], .nil⟩

/-- Add a description; it replaces an earlier one of the same name. -/
def insert (c : Catalog) (d : TypeDescription) : Catalog :=
  ⟨c.root, insertByName d c.types, pairwise_insertByName d c.ordered⟩

/-- The catalog of a row type and descriptions, the later of two with the same name counting. -/
def ofList (root : String) (types : List TypeDescription) : Catalog :=
  types.foldl insert (empty root)

/-- The description of a struct type. -/
def describe (c : Catalog) (typeName : String) : Option TypeDescription :=
  c.types.find? (·.name == typeName)

theorem describe_insert_of_ne (c : Catalog) {d : TypeDescription} {typeName : String}
    (h : d.name ≠ typeName) : (c.insert d).describe typeName = c.describe typeName :=
  find?_insertByName_of_ne h c.types

end Catalog

end Columnar
