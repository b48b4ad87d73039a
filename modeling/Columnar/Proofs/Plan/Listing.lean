import Columnar.Plan.Listing
import Columnar.Proofs.Plan.Agreement
import Columnar.Proofs.Plan.Names
import Columnar.Proofs.Schema.TypeString

/-! # Lines of listings

    A listing is a line for the name of the writer, one for the type of the
    rows, and one for every hint and every operation.  Where names are words,
    a text can be split into these lines again, and a line says what it was
    made from: everything about a hint or an operation but how its path is put
    together from names (`Specification.Readable.listed_eq_of_render`).  The
    names are words if those of the column tree are (`readable_of_synthesize`). -/

namespace Columnar

open Text (append_cons_inj lines_inj not_mem_repr not_mem_toDigits toDigits_inj IsWord)

/-- If what `f` says of the members of two lists decides what `g` says of them, then so it is for
    the lists. -/
theorem map_eq_map_of_imp {α β γ : Type} {f : α → β} {g : α → γ} {xs ys : List α}
    (hfg : ∀ x ∈ xs, ∀ y ∈ ys, f x = f y → g x = g y) (h : xs.map f = ys.map f) :
    xs.map g = ys.map g := by
  induction xs generalizing ys with
  | nil =>
    cases ys with
    | nil => rfl
    | cons y ys => cases h
  | cons x xs ih =>
    cases ys with
    | nil => cases h
    | cons y ys =>
      rw [List.map_cons, List.map_cons] at h
      obtain ⟨hhead, htail⟩ := List.cons.inj h
      rw [List.map_cons, List.map_cons, hfg x (by simp) y (by simp) hhead,
        ih (fun x hx y hy => hfg x (by simp [hx]) y (by simp [hy])) htail]

/-- A list is split where a property of its members ends. -/
theorem append_inj_of_forall {α : Type} {p : α → Bool} {xs xs' ys ys' : List α}
    (hxs : ∀ x ∈ xs, p x = true) (hys : ∀ y ∈ ys, p y = false) (hxs' : ∀ x ∈ xs', p x = true)
    (hys' : ∀ y ∈ ys', p y = false) (h : xs ++ ys = xs' ++ ys') : xs = xs' ∧ ys = ys' := by
  have hfilter : ∀ zs ws : List α, (∀ z ∈ zs, p z = true) → (∀ w ∈ ws, p w = false) →
      (zs ++ ws).filter p = zs := by
    intro zs ws hzs hws
    rw [List.filter_append, List.filter_eq_self.2 hzs,
      List.filter_eq_nil_iff.2 fun w hw => by simp [hws w hw], List.append_nil]
  have hfront : xs = xs' := by
    rw [← hfilter xs ys hxs hys, h, hfilter xs' ys' hxs' hys']
  subst hfront
  exact ⟨rfl, List.append_cancel_left h⟩

/-! ### Sources -/

namespace Source

/-- The name in the text is a word, if there is one. -/
def Readable : Source → Prop
  | .field accessor => IsWord accessor.name
  | .element => True

theorem readable_element : Source.element.Readable := trivial

theorem toList_text_field (a : Accessor) :
    (Source.field a).text.toList = "field ".toList ++ a.text.toList := by
  show ("field " ++ a.text).toList = _
  rw [String.toList_append]

theorem text_append_inj {s t : Source} {rest rest' : List Char} (hs : s.Readable)
    (ht : t.Readable) (h : s.text.toList ++ ' ' :: rest = t.text.toList ++ ' ' :: rest') :
    s = t ∧ rest = rest' := by
  cases s with
  | field a =>
    rw [toList_text_field, List.append_assoc] at h
    cases t with
    | field b =>
      rw [toList_text_field, List.append_assoc, List.append_cancel_left_eq] at h
      obtain ⟨haccessor, hrest⟩ := append_cons_inj (Accessor.isWord_text hs).1
        (Accessor.isWord_text ht).1 h
      rw [Accessor.text_inj (String.toList_inj.1 haccessor)]
      exact ⟨rfl, hrest⟩
    | element => exact absurd (List.head_eq_of_cons_eq h) (by decide)
  | element =>
    cases t with
    | field b =>
      rw [toList_text_field, List.append_assoc] at h
      exact absurd (List.head_eq_of_cons_eq h) (by decide)
    | element => exact ⟨rfl, List.tail_eq_of_cons_eq (List.append_cancel_left h)⟩

theorem newline_not_mem_text {s : Source} (hs : s.Readable) : '\n' ∉ s.text.toList := by
  cases s with
  | field a =>
    rw [toList_text_field, List.mem_append, not_or]
    exact ⟨by decide, (Accessor.isWord_text hs).2⟩
  | element => decide

end Source

/-! ### Lines of operations -/

/-- What the line of an operation says. -/
structure Listed where
  depth : Nat
  column : ColumnId
  path : String
  source : Source
  label : String
  deriving DecidableEq

namespace PlanEntry

def listed (e : PlanEntry) : Listed :=
  ⟨e.depth, e.target.column, e.target.path.text, e.source, e.label⟩

/-- The line without its end. -/
def chars (e : PlanEntry) : List Char :=
  List.replicate (2 * e.depth) ' ' ++ '#' :: (e.target.column.repr.toList ++
    ' ' :: (e.target.path.text.toList ++ ' ' :: ("<- ".toList ++
      (e.source.text.toList ++ ' ' :: ("as ".toList ++ e.label.toList)))))

theorem toList_line (e : PlanEntry) : e.line.toList = e.chars ++ ['\n'] := by
  show (String.ofList (List.replicate (2 * e.depth) ' ') ++ ("#" ++ e.target.column.repr ++ " " ++
    e.target.path.text ++ " <- " ++ e.source.text ++ " as " ++ e.label ++ "\n")).toList = _
  simp [chars]

/-- The names in the line are words. -/
structure Readable (e : PlanEntry) : Prop where
  path : IsWord e.target.path.text
  source : e.source.Readable
  label : '\n' ∉ e.label.toList

theorem Readable.listed_eq {e e' : PlanEntry} (he : e.Readable) (he' : e'.Readable)
    (h : e.chars = e'.chars) : e.listed = e'.listed := by
  have hspaces : ∀ n : Nat, '#' ∉ List.replicate n ' ' := by
    intro n hmem
    exact absurd (List.eq_of_mem_replicate hmem) (by decide)
  -- part after part from the front
  obtain ⟨hdepth, h⟩ := append_cons_inj (hspaces _) (hspaces _) h
  obtain ⟨hcolumn, h⟩ := append_cons_inj (not_mem_repr (by decide)) (not_mem_repr (by decide)) h
  obtain ⟨hpath, h⟩ := append_cons_inj he.path.1 he'.path.1 h
  obtain ⟨hsource, h⟩ := Source.text_append_inj he.source he'.source (List.append_cancel_left h)
  have hlabel := List.append_cancel_left h
  have hlength := congrArg List.length hdepth
  rw [List.length_replicate, List.length_replicate] at hlength
  rw [Nat.toList_repr, Nat.toList_repr] at hcolumn
  rw [listed, listed, toDigits_inj hcolumn, String.toList_inj.1 hpath, hsource,
    String.toList_inj.1 hlabel, show e.depth = e'.depth by omega]

theorem head?_chars_ne (e : PlanEntry) : e.chars.head? ≠ some 'h' := by
  have hhead : e.chars.head? = some '#' ∨ e.chars.head? = some ' ' := by
    unfold chars
    cases 2 * e.depth with
    | zero => exact .inl rfl
    | succ n => exact .inr rfl
  rcases hhead with hmark | hblank
  · rw [hmark]
    decide
  · rw [hblank]
    decide

theorem Readable.newline_not_mem {e : PlanEntry} (he : e.Readable) : '\n' ∉ e.chars := by
  have hspaces : '\n' ∉ List.replicate (2 * e.depth) ' ' := by
    intro hmem
    exact absurd (List.eq_of_mem_replicate hmem) (by decide)
  have hcolumn : '\n' ∉ Nat.toDigits 10 e.target.column := not_mem_toDigits (by decide)
  simp [chars, hspaces, hcolumn, he.path.2, he.label, Source.newline_not_mem_text he.source]

end PlanEntry

/-! ### Lines of hints -/

namespace CapacityHint

/-- What the line of a hint says. -/
def listed (h : CapacityHint) : ColumnId × String × ColumnId × UInt32 :=
  (h.list, h.path.text, h.element, h.averageSize)

/-- The line without its end. -/
def chars (h : CapacityHint) : List Char :=
  "hint #".toList ++ (h.list.repr.toList ++ ' ' :: (h.path.text.toList ++ ' ' ::
    ("elements(#".toList ++ (h.element.repr.toList ++ ')' ::
      (" x".toList ++ h.averageSize.toNat.repr.toList)))))

theorem toList_line (h : CapacityHint) : h.line.toList = h.chars ++ ['\n'] := by
  show ("hint #" ++ h.list.repr ++ " " ++ h.path.text ++ " elements(#" ++ h.element.repr ++ ") x" ++
    h.averageSize.toNat.repr ++ "\n").toList = _
  unfold chars
  simp

theorem listed_eq {h h' : CapacityHint} (hpath : IsWord h.path.text) (hpath' : IsWord h'.path.text)
    (heq : h.chars = h'.chars) : h.listed = h'.listed := by
  have heq := List.append_cancel_left heq
  obtain ⟨hlist, heq⟩ := append_cons_inj (not_mem_repr (by decide)) (not_mem_repr (by decide)) heq
  obtain ⟨htext, heq⟩ := append_cons_inj hpath.1 hpath'.1 heq
  obtain ⟨helement, heq⟩ := append_cons_inj (not_mem_repr (by decide)) (not_mem_repr (by decide))
    (List.append_cancel_left heq)
  have hsize := List.append_cancel_left heq
  rw [Nat.toList_repr, Nat.toList_repr] at hlist helement hsize
  rw [listed, listed, toDigits_inj hlist, String.toList_inj.1 htext, toDigits_inj helement,
    UInt32.toNat_inj.1 (toDigits_inj hsize)]

theorem head?_chars (h : CapacityHint) : h.chars.head? = some 'h' := rfl

theorem newline_not_mem {h : CapacityHint} (hpath : IsWord h.path.text) : '\n' ∉ h.chars := by
  have hdigits : ∀ n : Nat, '\n' ∉ Nat.toDigits 10 n := fun _ => not_mem_toDigits (by decide)
  unfold chars
  simp [hdigits, hpath.2]

end CapacityHint

/-! ### All lines -/

namespace Specification

/-- The names in the listing are words. -/
structure Readable (s : Specification) : Prop where
  name : '\n' ∉ s.name.toList
  type : '\n' ∉ s.root.typeString.toList
  hints : ∀ h ∈ s.hints, IsWord h.path.text
  entries : ∀ e ∈ s.entries, e.Readable

/-- The lines of the listing without their ends. -/
def lines (s : Specification) : List (List Char) :=
  ("writer " ++ s.name).toList :: ("type " ++ s.root.typeString).toList ::
    (s.hints.map CapacityHint.chars ++ s.entries.map PlanEntry.chars)

theorem toList_render (s : Specification) :
    s.render.toList = s.lines.flatMap (· ++ ['\n']) := by
  have hhints : (s.hints.map CapacityHint.line).flatMap String.toList =
      (s.hints.map CapacityHint.chars).flatMap (· ++ ['\n']) := by
    rw [List.flatMap_map, List.flatMap_map]
    simp only [CapacityHint.toList_line]
  have hentries : (s.entries.map PlanEntry.line).flatMap String.toList =
      (s.entries.map PlanEntry.chars).flatMap (· ++ ['\n']) := by
    rw [List.flatMap_map, List.flatMap_map]
    simp only [PlanEntry.toList_line]
  show ("writer " ++ s.name ++ "\ntype " ++ s.root.typeString ++ "\n" ++
    String.join (s.hints.map CapacityHint.line) ++
      String.join (s.entries.map PlanEntry.line)).toList = _
  rw [String.toList_append, String.toList_append, String.toList_join, String.toList_join, hhints,
    hentries]
  simp [lines]

theorem Readable.newline_not_mem {s : Specification} (hs : s.Readable) :
    ∀ line ∈ s.lines, '\n' ∉ line := by
  intro line hline
  simp only [lines, List.mem_cons, List.mem_append, List.mem_map] at hline
  rcases hline with rfl | rfl | ⟨h, hh, rfl⟩ | ⟨e, he, rfl⟩
  · simp [hs.name]
  · simp [hs.type]
  · exact CapacityHint.newline_not_mem (hs.hints h hh)
  · exact (hs.entries e he).newline_not_mem

/-- A readable listing tells the name of the writer, the type of the rows, and what its lines say
    about hints and operations. -/
theorem Readable.listed_eq_of_render {s t : Specification} (hs : s.Readable) (ht : t.Readable)
    (h : s.render = t.render) :
    s.name = t.name ∧ s.root.typeString = t.root.typeString ∧
      s.hints.map CapacityHint.listed = t.hints.map CapacityHint.listed ∧
      s.entries.map PlanEntry.listed = t.entries.map PlanEntry.listed := by
  have hlines : s.lines = t.lines := by
    have hlist := congrArg String.toList h
    rw [toList_render, toList_render] at hlist
    exact lines_inj hs.newline_not_mem ht.newline_not_mem hlist
  obtain ⟨hname, hlines⟩ := List.cons.inj hlines
  obtain ⟨htype, hlines⟩ := List.cons.inj hlines
  -- the lines of hints are those that begin with a letter
  obtain ⟨hhints, hentries⟩ := append_inj_of_forall (p := fun line => line.head? == some 'h')
    (List.forall_mem_map.2 fun h _ => by simp [CapacityHint.head?_chars])
    (List.forall_mem_map.2 fun e _ => by simp [PlanEntry.head?_chars_ne])
    (List.forall_mem_map.2 fun h _ => by simp [CapacityHint.head?_chars])
    (List.forall_mem_map.2 fun e _ => by simp [PlanEntry.head?_chars_ne]) hlines
  rw [String.toList_inj, String.append_right_inj] at hname htype
  refine ⟨hname, htype, map_eq_map_of_imp ?_ hhints, map_eq_map_of_imp ?_ hentries⟩
  · intro h hh h' hh'
    exact CapacityHint.listed_eq (hs.hints h hh) (ht.hints h' hh')
  · intro e he e' he'
    exact (hs.entries e he).listed_eq (ht.entries e' he')

end Specification

/-! ### Names of columns -/

/-- The names that a column bears: its own, that of its accessor, and that of its type. -/
def Column.ownNames : Column → List String
  | .struct head typeName _ => head.name :: typeName :: head.accessor.toList
  | c => c.name :: c.accessor.toList

namespace Column

/-- All names that the columns bear are words. -/
def NamedByWords (columns : List Column) : Prop :=
  ∀ c ∈ columns, ∀ name ∈ c.ownNames, IsWord name

instance (columns : List Column) : Decidable (NamedByWords columns) :=
  inferInstanceAs (Decidable (∀ c ∈ columns, ∀ name ∈ c.ownNames, IsWord name))

theorem name_mem_ownNames (c : Column) : c.name ∈ c.ownNames := by
  cases c <;> exact List.mem_cons_self

theorem read_mem_ownNames (c : Column) : c.accessor.getD c.name ∈ c.ownNames := by
  cases haccessor : c.accessor with
  | none => exact c.name_mem_ownNames
  | some name =>
    have hmem : name ∈ c.accessor.toList := by simp [haccessor]
    cases c with
    | struct => exact .tail _ (.tail _ hmem)
    | _ => exact .tail _ hmem

theorem namedByWords_append {columns others : List Column} :
    NamedByWords (columns ++ others) ↔ NamedByWords columns ∧ NamedByWords others :=
  List.forall_mem_append

namespace NamedByWords

variable {head : ColumnHead}

theorem self {c : Column} (h : NamedByWords c.preorder) : ∀ name ∈ c.ownNames, IsWord name :=
  h c (by rw [preorder_eq_cons]; exact List.mem_cons_self)

theorem name {c : Column} (h : NamedByWords c.preorder) : IsWord c.name :=
  h.self _ c.name_mem_ownNames

theorem fields {typeName : String} {children : List Column}
    (h : NamedByWords (struct head typeName children).preorder) :
    NamedByWords (preorderChildren children) :=
  fun d hd => h d (.tail _ hd)

theorem element {averageSize : UInt32} {element : Column}
    (h : NamedByWords (list head averageSize element).preorder) : NamedByWords element.preorder :=
  fun d hd => h d (.tail _ hd)

theorem key {key value : Column} (h : NamedByWords (map head key value).preorder) :
    NamedByWords key.preorder :=
  fun d hd => h d (.tail _ (List.mem_append_left _ hd))

theorem value {key value : Column} (h : NamedByWords (map head key value).preorder) :
    NamedByWords value.preorder :=
  fun d hd => h d (.tail _ (List.mem_append_right _ hd))

end NamedByWords

mutual

theorem newline_not_mem_typeString {c : Column} (hc : Column.NamedByWords c.preorder) :
    '\n' ∉ c.typeString.toList := by
  match c with
  | .primitive head kind => exact kind.newline_not_mem_typeName
  | .struct head typeName children =>
    simp only [typeString, String.toList_append, List.mem_append, not_or]
    refine ⟨⟨by decide, ?_⟩, by decide⟩
    exact Text.not_mem_intercalate (by decide) (newline_not_mem_fieldStrings hc.fields)
  | .list head averageSize element =>
    simp only [typeString, String.toList_append, List.mem_append, not_or]
    exact ⟨⟨by decide, newline_not_mem_typeString hc.element⟩, by decide⟩
  | .map head key value =>
    simp only [typeString, String.toList_append, List.mem_append, not_or]
    exact ⟨⟨⟨⟨by decide, newline_not_mem_typeString hc.key⟩, by decide⟩,
      newline_not_mem_typeString hc.value⟩, by decide⟩

theorem newline_not_mem_fieldStrings {columns : List Column}
    (hc : NamedByWords (preorderChildren columns)) :
    ∀ text ∈ fieldStrings columns, '\n' ∉ text.toList := by
  match columns with
  | [] =>
    intro text htext
    cases htext
  | c :: rest =>
    rw [preorderChildren, namedByWords_append] at hc
    rw [fieldStrings, List.forall_mem_cons]
    refine ⟨?_, newline_not_mem_fieldStrings hc.2⟩
    simp only [String.toList_append, List.mem_append, not_or]
    exact ⟨⟨hc.1.name.2, by decide⟩, newline_not_mem_typeString hc.1⟩

end

end Column

/-! ### Listings of synthesized specifications -/

mutual

theorem isWord_capacityHints {path : Path} {c : Column} (hpath : path.NamedByWords)
    (hc : Column.NamedByWords c.preorder) : ∀ h ∈ capacityHints path c, IsWord h.path.text := by
  match c with
  | .primitive head kind =>
    intro h hh
    cases hh
  | .struct head typeName children => exact isWord_capacityHintsOfFields hpath hc.fields
  | .list head averageSize element =>
    rw [capacityHints, List.forall_mem_cons]
    exact ⟨hpath.isWord_text, isWord_capacityHints (hpath.child hc.element.name) hc.element⟩
  | .map head key value =>
    rw [capacityHints, List.forall_mem_append]
    exact ⟨isWord_capacityHints (hpath.child hc.key.name) hc.key,
      isWord_capacityHints (hpath.child hc.value.name) hc.value⟩

theorem isWord_capacityHintsOfFields {path : Path} {columns : List Column}
    (hpath : path.NamedByWords)
    (hc : Column.NamedByWords (Column.preorderChildren columns)) :
    ∀ h ∈ capacityHintsOfFields path columns, IsWord h.path.text := by
  match columns with
  | [] =>
    intro h hh
    cases hh
  | c :: rest =>
    rw [Column.preorderChildren, Column.namedByWords_append] at hc
    rw [capacityHintsOfFields, List.forall_mem_append]
    exact ⟨isWord_capacityHints (hpath.child hc.1.name) hc.1,
      isWord_capacityHintsOfFields hpath hc.2⟩

end

mutual

theorem readable_of_operation {owner : Owner} {path : Path} {c : Column} {op : Operation}
    (h : operation owner path c = .ok op) (hpath : path.NamedByWords)
    (hc : Column.NamedByWords c.preorder) {source : Source} (hsource : source.Readable)
    (depth : Nat) : ∀ e ∈ op.entries depth source, e.Readable := by
  have htext := hpath.isWord_text
  have hlabel : ∀ label ∈ ["struct", "list", "map"], '\n' ∉ label.toList := by decide
  match c with
  | .primitive head kind =>
    cases h
    rw [Operation.entries, List.forall_mem_singleton]
    exact ⟨htext, hsource, kind.newline_not_mem_typeName⟩
  | .struct head typeName children =>
    obtain ⟨d, -, h⟩ := exists_of_bind_eq_ok h
    obtain ⟨fields, hfields, h⟩ := exists_of_bind_eq_ok h
    cases h
    rw [Operation.entries, List.forall_mem_cons]
    exact ⟨⟨htext, hsource, hlabel "struct" (by decide)⟩,
      readable_of_fieldOperations hfields hpath hc.fields (depth + 1)⟩
  | .list head averageSize element =>
    obtain ⟨below, hbelow, h⟩ := exists_of_bind_eq_ok h
    cases h
    rw [Operation.entries, List.forall_mem_cons]
    exact ⟨⟨htext, hsource, hlabel "list" (by decide)⟩, readable_of_operation hbelow
      (hpath.child hc.element.name) hc.element Source.readable_element (depth + 1)⟩
  | .map head key value =>
    obtain ⟨keys, hkeys, h⟩ := exists_of_bind_eq_ok h
    obtain ⟨values, hvalues, h⟩ := exists_of_bind_eq_ok h
    cases h
    rw [Operation.entries, List.forall_mem_cons, List.forall_mem_append]
    exact ⟨⟨htext, hsource, hlabel "map" (by decide)⟩,
      readable_of_operation hkeys (hpath.child hc.key.name) hc.key
        Source.readable_element (depth + 1),
      readable_of_operation hvalues (hpath.child hc.value.name) hc.value
        Source.readable_element (depth + 1)⟩

theorem readable_of_fieldOperations {owner : Owner} {d : TypeDescription} {path : Path}
    {columns : List Column} {fields : List (Accessor × Operation)}
    (h : fieldOperations owner d path columns = .ok fields) (hpath : path.NamedByWords)
    (hc : Column.NamedByWords (Column.preorderChildren columns)) (depth : Nat) :
    ∀ e ∈ Operation.fieldEntries depth fields, e.Readable := by
  match columns with
  | [] =>
    cases h
    intro e he
    cases he
  | c :: rest =>
    obtain ⟨accessor, haccessor, h⟩ := exists_of_bind_eq_ok h
    obtain ⟨op, hop, h⟩ := exists_of_bind_eq_ok h
    obtain ⟨ops, hops, h⟩ := exists_of_bind_eq_ok h
    cases h
    rw [Column.preorderChildren, Column.namedByWords_append] at hc
    -- the accessor has the name that the column says, or else that of the column
    have hsource : (Source.field accessor).Readable := by
      have hname := hc.1.self _ c.read_mem_ownNames
      rwa [← (resolveColumn_eq_ok haccessor).1] at hname
    rw [Operation.fieldEntries, List.forall_mem_append]
    exact ⟨readable_of_operation hop (hpath.child hc.1.name) hc.1 hsource depth,
      readable_of_fieldOperations hops hpath hc.2 depth⟩

end

/-- If all names of a tree are words, so are those of the listing. -/
theorem readable_of_synthesize {root : Column} {owner : Owner} {writerId : WriterId}
    {s : Specification} (hs : synthesize root owner writerId = .ok s)
    (hroot : Column.NamedByWords root.preorder) : s.Readable := by
  have hpath := Path.NamedByWords.root hroot.name
  have htype := Column.newline_not_mem_typeString hroot
  have hhints := isWord_capacityHints hpath hroot
  obtain ⟨head, typeName, children, fields, d, plan, rfl, -, -, -, hplan, rfl⟩ :=
    exists_of_synthesize_eq_ok hs
  have hword : IsWord typeName := hroot.self _ (.tail _ List.mem_cons_self)
  refine ⟨?_, htype, hhints, readable_of_fieldOperations hplan hpath hroot.fields 0⟩
  show '\n' ∉ (typeName ++ "$RowWriter_" ++ Nat.repr writerId).toList
  have hnumber : '\n' ∉ (Nat.repr writerId).toList := Text.not_mem_repr (by decide)
  simp only [String.toList_append, List.mem_append, not_or]
  exact ⟨⟨hword.2, by decide⟩, hnumber⟩

end Columnar
