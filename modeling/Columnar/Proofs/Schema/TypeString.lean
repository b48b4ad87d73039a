import Columnar.Proofs.Plan.Shape
import Columnar.Proofs.Text.Separated
import Columnar.Schema.Column

/-! # Type strings

    A type string tells the kinds of all columns and the names of the fields,
    and nothing else: it is the text of the *shape* of the tree.  If the names
    have none of the characters that type strings are put together with, then
    no two shapes have the same text (`typeString_eq_iff`).

    The text is read from the front.  What it begins with decides the sort of
    column, since no beginning is one of another beginning too, and what
    follows a column begins behind its text.  Hence statements are about a text
    that goes on behind that of a shape. -/

namespace Columnar

open Text (append_cons_inj toDigits_inj not_mem_repr not_mem_toString)

/-! ### Shapes -/

/-- The kinds of the columns of a tree, and the names of fields. -/
inductive Shape where
  | primitive (kind : PrimitiveKind)
  | struct (fields : List (String × Shape))
  | list (element : Shape)
  | map (key value : Shape)
  deriving Repr

namespace Column

mutual

/-- The shape of a tree, without types' names, accessors, numbers and average sizes. -/
def shape : Column → Shape
  | .primitive _ kind => .primitive kind
  | .struct _ _ children => .struct (fieldShapes children)
  | .list _ _ element => .list (shape element)
  | .map _ key value => .map (shape key) (shape value)

def fieldShapes : List Column → List (String × Shape)
  | [] => []
  | c :: rest => (c.name, shape c) :: fieldShapes rest

end

end Column

namespace Shape

mutual

/-- The names of all fields. -/
def fieldNames : Shape → List String
  | .primitive _ => []
  | .struct fields => fieldNamesOf fields
  | .list element => fieldNames element
  | .map key value => fieldNames key ++ fieldNames value

def fieldNamesOf : List (String × Shape) → List String
  | [] => []
  | (name, s) :: rest => name :: (fieldNames s ++ fieldNamesOf rest)

end

mutual

/-- The type string of a tree of that shape. -/
def text : Shape → String
  | .primitive kind => kind.typeName
  | .struct fields => "struct<" ++ ",".intercalate (fieldTexts fields) ++ ">"
  | .list element => "array<" ++ text element ++ ">"
  | .map key value => "map<" ++ text key ++ "," ++ text value ++ ">"

def fieldTexts : List (String × Shape) → List String
  | [] => []
  | (name, s) :: rest => (name ++ ":" ++ text s) :: fieldTexts rest

end

end Shape

mutual

theorem Column.typeString_eq_text (c : Column) : c.typeString = c.shape.text := by
  match c with
  | .primitive _ _ => rfl
  | .struct _ _ children =>
    rw [typeString, shape, Shape.text, Column.fieldStrings_eq_fieldTexts children]
  | .list _ _ element => rw [typeString, shape, Shape.text, element.typeString_eq_text]
  | .map _ key value =>
    rw [typeString, shape, Shape.text, key.typeString_eq_text, value.typeString_eq_text]

theorem Column.fieldStrings_eq_fieldTexts (columns : List Column) :
    fieldStrings columns = Shape.fieldTexts (fieldShapes columns) := by
  match columns with
  | [] => rfl
  | c :: rest =>
    rw [fieldStrings, fieldShapes, Shape.fieldTexts, c.typeString_eq_text,
      Column.fieldStrings_eq_fieldTexts rest]

end

/-! ### How texts begin -/

def PrimitiveKind.tag : PrimitiveKind → KindTag
  | .decimal _ _ => .decimal
  | kind => .scalar kind

/-- The sort of column, without what is below it. -/
def Shape.tag : Shape → KindTag
  | .primitive kind => kind.tag
  | .struct _ => .struct
  | .list _ => .list
  | .map _ _ => .map

/-- What the text of a column of that sort begins with. -/
def KindTag.opening : KindTag → String
  | .scalar kind => kind.typeName
  | .decimal => "decimal("
  | .struct => "struct<"
  | .list => "array<"
  | .map => "map<"

/-- No sort's beginning is one of another sort's beginning. -/
theorem KindTag.opening_prefix_free : ∀ a ∈ KindTag.table.map Prod.snd,
    ∀ b ∈ KindTag.table.map Prod.snd, a.opening.toList <+: b.opening.toList → a = b := by
  decide +kernel

namespace PrimitiveKind

theorem scalar_or_decimal (kind : PrimitiveKind) :
    kind.tag = .scalar kind ∨ ∃ precision scale, kind = .decimal precision scale := by
  cases kind with
  | decimal precision scale => exact .inr ⟨precision, scale, rfl⟩
  | _ => exact .inl rfl

/-- The text of a decimal: precision and scale with a comma in between. -/
theorem decimal_append (precision : UInt8) (scale : Int8) (rest : List Char) :
    (decimal precision scale).typeName.toList ++ rest = "decimal(".toList ++
      (precision.toNat.repr.toList ++ ',' :: ((toString scale.toInt).toList ++ ')' :: rest)) := by
  show ("decimal(" ++ Nat.repr precision.toNat ++ "," ++ toString scale.toInt ++ ")").toList ++ rest
    = _
  simp

theorem decimal_inj_of_append {precision precision' : UInt8} {scale scale' : Int8}
    {rest rest' : List Char}
    (h : (decimal precision scale).typeName.toList ++ rest =
      (decimal precision' scale').typeName.toList ++ rest') :
    precision = precision' ∧ scale = scale' ∧ rest = rest' := by
  rw [decimal_append, decimal_append, List.append_cancel_left_eq] at h
  -- digits up to the comma, and a sign and digits up to the bracket
  obtain ⟨hprecision, h⟩ :=
    append_cons_inj (not_mem_repr (by decide)) (not_mem_repr (by decide)) h
  have hbracket : ∀ n : Int, ')' ∉ (toString n).toList := fun _ =>
    not_mem_toString (by decide) (by decide)
  obtain ⟨hscale, hrest⟩ := append_cons_inj (hbracket _) (hbracket _) h
  rw [Nat.toList_repr, Nat.toList_repr] at hprecision
  exact ⟨UInt8.toNat_inj.1 (toDigits_inj hprecision),
    Int8.toInt_inj.1 (Text.toString_inj (String.toList_inj.1 hscale)), hrest⟩

/-- A kind's name begins as its tag says. -/
theorem opening_prefix_typeName (kind : PrimitiveKind) (rest : List Char) :
    kind.tag.opening.toList <+: kind.typeName.toList ++ rest := by
  rcases kind.scalar_or_decimal with hkind | ⟨precision, scale, rfl⟩
  · rw [hkind]
    exact List.prefix_append _ _
  · rw [decimal_append]
    exact List.prefix_append _ _

theorem newline_not_mem_typeName (kind : PrimitiveKind) : '\n' ∉ kind.typeName.toList := by
  cases kind with
  | decimal precision scale =>
    have hscale : '\n' ∉ (toString scale.toInt).toList :=
      not_mem_toString (by decide) (by decide)
    have hprecision : '\n' ∉ precision.toNat.repr.toList := not_mem_repr (by decide)
    rw [← List.append_nil (decimal precision scale).typeName.toList, decimal_append]
    simp only [List.mem_append, List.mem_cons, not_or]
    exact ⟨by decide, hprecision, by decide, hscale, by decide, List.not_mem_nil⟩
  | _ => decide

end PrimitiveKind

namespace Shape

variable {s t : Shape} {rest rest' : List Char}

theorem tag_mem_table (s : Shape) : s.tag ∈ KindTag.table.map Prod.snd := by
  cases s with
  | primitive kind => cases kind <;> simp [tag, PrimitiveKind.tag, KindTag.table]
  | struct => simp [tag, KindTag.table]
  | list => simp [tag, KindTag.table]
  | map => simp [tag, KindTag.table]

theorem list_append (element : Shape) (rest : List Char) :
    (list element).text.toList ++ rest =
      "array<".toList ++ (element.text.toList ++ '>' :: rest) := by
  simp [text]

theorem map_append (key value : Shape) (rest : List Char) :
    (map key value).text.toList ++ rest =
      "map<".toList ++ (key.text.toList ++ ',' :: (value.text.toList ++ '>' :: rest)) := by
  simp [text]

theorem struct_append (fields : List (String × Shape)) (rest : List Char) :
    (struct fields).text.toList ++ rest =
      "struct<".toList ++ ((",".intercalate (fieldTexts fields)).toList ++ '>' :: rest) := by
  simp [text]

/-- The text of a shape begins with what its sort says. -/
theorem opening_prefix (s : Shape) (rest : List Char) :
    s.tag.opening.toList <+: s.text.toList ++ rest := by
  cases s with
  | primitive kind =>
    exact kind.opening_prefix_typeName rest
  | struct fields =>
    rw [struct_append]
    exact List.prefix_append _ _
  | list element =>
    rw [list_append]
    exact List.prefix_append _ _
  | map key value =>
    rw [map_append]
    exact List.prefix_append _ _

/-- The sort of column can be told from its text and whatever is behind it. -/
theorem tag_eq_of_append (h : s.text.toList ++ rest = t.text.toList ++ rest') : s.tag = t.tag := by
  have hs := s.opening_prefix rest
  have ht := t.opening_prefix rest'
  rw [← h] at ht
  rcases List.prefix_or_prefix_of_prefix hs ht with hprefix | hprefix
  · exact KindTag.opening_prefix_free _ s.tag_mem_table _ t.tag_mem_table hprefix
  · exact (KindTag.opening_prefix_free _ t.tag_mem_table _ s.tag_mem_table hprefix).symm

end Shape

/-- The shape is of that sort. -/
def KindTag.Describes : KindTag → Shape → Prop
  | .scalar kind, s => s = .primitive kind
  | .decimal, s => ∃ precision scale, s = .primitive (.decimal precision scale)
  | .struct, s => ∃ fields, s = .struct fields
  | .list, s => ∃ element, s = .list element
  | .map, s => ∃ key value, s = .map key value

namespace Shape

variable {s t : Shape} {rest rest' : List Char}

theorem describes_tag (s : Shape) : s.tag.Describes s := by
  cases s with
  | primitive kind =>
    show kind.tag.Describes (.primitive kind)
    rcases kind.scalar_or_decimal with hkind | ⟨precision, scale, rfl⟩
    · rw [hkind]
      rfl
    · exact ⟨precision, scale, rfl⟩
  | struct fields => exact ⟨fields, rfl⟩
  | list element => exact ⟨element, rfl⟩
  | map key value => exact ⟨key, value, rfl⟩

/-- Texts that go on behind two shapes are those of shapes of one sort if they are equal. -/
theorem describes_of_append (h : s.text.toList ++ rest = t.text.toList ++ rest') :
    s.tag.Describes t := by
  rw [tag_eq_of_append h]
  exact t.describes_tag

/-! ### Reading a text -/

/-- What stands behind a field: the other fields, each behind a comma, and the mark that closes the
    struct. -/
def behindField : List (String × Shape) → List Char → List Char
  | [], rest => '>' :: rest
  | (name, s) :: fields, rest =>
    ',' :: (name.toList ++ ':' :: (s.text.toList ++ behindField fields rest))

theorem behindField_cons (field : String × Shape) (fields : List (String × Shape)) :
    behindField (field :: fields) rest =
      ',' :: ((",".intercalate (fieldTexts (field :: fields))).toList ++ '>' :: rest) := by
  induction fields generalizing field with
  | nil => simp [behindField, fieldTexts]
  | cons next fields ih =>
    rw [behindField, ih next]
    simp [fieldTexts, String.intercalate_cons_cons]

theorem behindField_eq_of_text {field field' : String × Shape}
    {fields fields' : List (String × Shape)}
    (h : (struct (field :: fields)).text = (struct (field' :: fields')).text) :
    behindField (field :: fields) [] = behindField (field' :: fields') [] := by
  have happend : (struct (field :: fields)).text.toList ++ [] =
      (struct (field' :: fields')).text.toList ++ [] := by rw [h]
  rw [struct_append, struct_append, List.append_cancel_left_eq] at happend
  rw [behindField_cons, behindField_cons, happend]

/-- The characters that type strings are put together with. -/
def marks : List Char := ['<', '>', ',', ':']

/-- Names have none of those characters. -/
def Plain (names : List String) : Prop :=
  ∀ name ∈ names, ∀ mark ∈ marks, mark ∉ name.toList

theorem plain_append {names others : List String} :
    Plain (names ++ others) ↔ Plain names ∧ Plain others :=
  List.forall_mem_append

theorem plain_fieldNamesOf_cons {name : String} {fields : List (String × Shape)} :
    Plain (fieldNamesOf ((name, s) :: fields)) ↔
      (∀ mark ∈ marks, mark ∉ name.toList) ∧ Plain s.fieldNames ∧ Plain (fieldNamesOf fields) := by
  rw [fieldNamesOf, Plain, List.forall_mem_cons]
  exact and_congr_right fun _ => plain_append

/-- No field begins with the mark that closes a struct. -/
theorem closing_ne_fields {field : String × Shape} {fields : List (String × Shape)}
    (hplain : Plain (fieldNamesOf (field :: fields))) :
    (",".intercalate (fieldTexts [])).toList ++ '>' :: rest ≠
      (",".intercalate (fieldTexts (field :: fields))).toList ++ '>' :: rest' := by
  intro h
  have hname : '>' ∉ field.1.toList := (plain_fieldNamesOf_cons.1 hplain).1 '>' (by simp [marks])
  -- a field begins with its name and the colon behind it
  have hbehind : ',' :: '>' :: rest = behindField (field :: fields) rest' := by
    rw [behindField_cons, ← h]
    rfl
  have hclosing := List.tail_eq_of_cons_eq hbehind
  cases hchars : field.1.toList with
  | nil =>
    rw [hchars] at hclosing
    exact absurd (List.head_eq_of_cons_eq hclosing) (by decide)
  | cons c cs =>
    rw [hchars] at hclosing hname
    rw [List.head_eq_of_cons_eq hclosing] at hname
    exact hname List.mem_cons_self

mutual

/-- A shape can be told from its text and whatever is behind it. -/
theorem eq_of_append {s t : Shape} {rest rest' : List Char} (hs : Plain s.fieldNames)
    (ht : Plain t.fieldNames) (h : s.text.toList ++ rest = t.text.toList ++ rest') :
    s = t ∧ rest = rest' := by
  have hsort := describes_of_append h
  match s with
  | .primitive kind =>
    have hsort : kind.tag.Describes t := hsort
    rcases kind.scalar_or_decimal with hkind | ⟨precision, scale, rfl⟩
    · rw [hkind] at hsort
      obtain rfl := hsort
      exact ⟨rfl, List.append_cancel_left h⟩
    · obtain ⟨precision', scale', rfl⟩ := hsort
      obtain ⟨rfl, rfl, hrest⟩ := PrimitiveKind.decimal_inj_of_append h
      exact ⟨rfl, hrest⟩
  | .struct fields =>
    obtain ⟨fields', rfl⟩ := hsort
    rw [struct_append, struct_append, List.append_cancel_left_eq] at h
    match fields, fields' with
    | [], [] => exact ⟨rfl, List.tail_eq_of_cons_eq h⟩
    | [], field' :: fields' => exact absurd h (closing_ne_fields ht)
    | field :: fields, [] => exact absurd h.symm (closing_ne_fields hs)
    | field :: fields, field' :: fields' =>
      have hbehind : behindField (field :: fields) rest =
          behindField (field' :: fields') rest' := by
        rw [behindField_cons, behindField_cons]
        exact congrArg (',' :: ·) h
      obtain ⟨hfields, hrest⟩ := eq_of_behindField hs ht hbehind
      exact ⟨by rw [hfields], hrest⟩
  | .list element =>
    obtain ⟨element', rfl⟩ := hsort
    rw [fieldNames] at hs ht
    rw [list_append, list_append, List.append_cancel_left_eq] at h
    obtain ⟨helement, hrest⟩ := eq_of_append hs ht h
    exact ⟨by rw [helement], List.tail_eq_of_cons_eq hrest⟩
  | .map key value =>
    obtain ⟨key', value', rfl⟩ := hsort
    rw [fieldNames, plain_append] at hs ht
    rw [map_append, map_append, List.append_cancel_left_eq] at h
    obtain ⟨hkey, hrest⟩ := eq_of_append hs.1 ht.1 h
    obtain ⟨hvalue, hrest⟩ := eq_of_append hs.2 ht.2 (List.tail_eq_of_cons_eq hrest)
    exact ⟨by rw [hkey, hvalue], List.tail_eq_of_cons_eq hrest⟩

/-- So can the other fields of a struct. -/
theorem eq_of_behindField {fields fields' : List (String × Shape)} {rest rest' : List Char}
    (hs : Plain (fieldNamesOf fields)) (ht : Plain (fieldNamesOf fields'))
    (h : behindField fields rest = behindField fields' rest') :
    fields = fields' ∧ rest = rest' := by
  match fields, fields' with
  | [], [] => exact ⟨rfl, List.tail_eq_of_cons_eq h⟩
  | [], (_, _) :: _ => exact absurd (List.head_eq_of_cons_eq h) (by decide)
  | (_, _) :: _, [] => exact absurd (List.head_eq_of_cons_eq h) (by decide)
  | (name, s) :: fields, (name', t) :: fields' =>
    rw [plain_fieldNamesOf_cons] at hs ht
    obtain ⟨hname, h⟩ := append_cons_inj (hs.1 ':' (by simp [marks])) (ht.1 ':' (by simp [marks]))
      (List.tail_eq_of_cons_eq h)
    obtain ⟨hshape, h⟩ := eq_of_append hs.2.1 ht.2.1 h
    obtain ⟨hfields, hrest⟩ := eq_of_behindField hs.2.2 ht.2.2 h
    rw [String.toList_inj.1 hname, hshape, hfields]
    exact ⟨rfl, hrest⟩

end

theorem text_eq_iff (hs : Plain s.fieldNames) (ht : Plain t.fieldNames) :
    s.text = t.text ↔ s = t := by
  constructor
  · intro h
    have happend : s.text.toList ++ [] = t.text.toList ++ [] := by rw [h]
    exact (eq_of_append hs ht happend).1
  · intro h
    rw [h]

end Shape

namespace PrimitiveKind

theorem typeName_inj {k l : PrimitiveKind} (h : k.typeName = l.typeName) : k = l := by
  have hplain : ∀ kind, Shape.Plain (Shape.primitive kind).fieldNames := by
    intro kind name hname
    cases hname
  exact Shape.primitive.inj ((Shape.text_eq_iff (hplain k) (hplain l)).1 h)

/-- No kind has the name of a nested sort. -/
theorem typeName_ne_nested (kind : PrimitiveKind) {label : String}
    (hlabel : label ∈ ["struct", "list", "map"]) : kind.typeName ≠ label := by
  have hnot : ∀ tag ∈ KindTag.table.map Prod.snd, ∀ label ∈ ["struct", "list", "map"],
      ¬ tag.opening.toList <+: label.toList := by
    decide +kernel
  rintro rfl
  have hprefix := kind.opening_prefix_typeName []
  rw [List.append_nil] at hprefix
  exact hnot _ (Shape.primitive kind).tag_mem_table _ hlabel hprefix

end PrimitiveKind

/-! ### Trees -/

/-- The names of the fields of a tree, at all depths. -/
def Column.fieldNames (c : Column) : List String := c.shape.fieldNames

/-- Trees whose names of fields have none of the marks of type strings have the same type string
    exactly if they have the same shape: the same kinds everywhere, with precision and scale, and
    the same names of fields in the same order. -/
theorem typeString_eq_iff {c d : Column}
    (hc : ∀ name ∈ c.fieldNames, ∀ mark ∈ ['<', '>', ',', ':'], mark ∉ name.toList)
    (hd : ∀ name ∈ d.fieldNames, ∀ mark ∈ ['<', '>', ',', ':'], mark ∉ name.toList) :
    c.typeString = d.typeString ↔ c.shape = d.shape := by
  rw [c.typeString_eq_text, d.typeString_eq_text]
  exact Shape.text_eq_iff hc hd

/-- A name with marks can look like two fields. -/
example : (Shape.struct [("a:int,b", .primitive .int)]).text =
    (Shape.struct [("a", .primitive .int), ("b", .primitive .int)]).text := by
  decide +kernel

/-- Orders whose buyer is of a type with another name, read by other accessors. -/
def purchases : Column :=
  .struct ⟨0, "Purchase", none⟩ "Purchase" [
    .primitive ⟨1, "id", "getId"⟩ .long,
    .struct ⟨2, "buyer", "getBuyer"⟩ "Client" [.primitive ⟨3, "name", "getName"⟩ .string],
    .list ⟨4, "tags", "getTags"⟩ 16 (.primitive ⟨5, "element", none⟩ .string)]

theorem purchases_typeString :
    (∀ name ∈ ordersSpecification.root.fieldNames,
      ∀ mark ∈ ['<', '>', ',', ':'], mark ∉ name.toList) ∧
    (∀ name ∈ purchases.fieldNames, ∀ mark ∈ ['<', '>', ',', ':'], mark ∉ name.toList) ∧
    ordersSpecification.root.shape = purchases.shape ∧
    ordersSpecification.root.typeString = purchases.typeString := by
  have hnames : ∀ name ∈ ["id", "buyer", "name", "tags"],
      ∀ mark ∈ ['<', '>', ',', ':'], mark ∉ name.toList := by
    simp
  have horders : ∀ name ∈ ordersSpecification.root.fieldNames,
      ∀ mark ∈ ['<', '>', ',', ':'], mark ∉ name.toList := hnames
  have hpurchases : ∀ name ∈ purchases.fieldNames,
      ∀ mark ∈ ['<', '>', ',', ':'], mark ∉ name.toList := hnames
  exact ⟨horders, hpurchases, rfl, (typeString_eq_iff horders hpurchases).2 rfl⟩

end Columnar
