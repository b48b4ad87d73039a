import Columnar.Json.Printer
import Columnar.Json.Token
import Columnar.Proofs.Json.Integers
import Columnar.Proofs.Outcome

/-! # Scanning what was written

    The indented text of a document is cut into the tokens of the document
    (`tokens?_pretty`), blanks apart.  Statements are about a text that goes on
    behind what was written: scanning it is scanning the rest with the tokens
    of what was written already found. -/

namespace Columnar.Json

/-! ### Tokens of documents -/

mutual

/-- The tokens of a document in its text. -/
def tokensOf : Document → List Token
  | .list [] => [.openList, .closeList]
  | .list (d :: rest) => .openList :: tokensOf d ++ tokensOfItems rest ++ [.closeList]
  | .table [] => [.openTable, .closeTable]
  | .table ((key, d) :: rest) =>
    .openTable :: .text (some key) :: .colon :: tokensOf d ++ tokensOfMembers rest ++ [.closeTable]
  | .text s => [.text (some s)]
  | d => [.word (scalar d)]

/-- The tokens of the items behind the first one. -/
def tokensOfItems : List Document → List Token
  | [] => []
  | d :: rest => .comma :: tokensOf d ++ tokensOfItems rest

/-- The tokens of the members behind the first one. -/
def tokensOfMembers : List (String × Document) → List Token
  | [] => []
  | (key, d) :: rest =>
    .comma :: .text (some key) :: .colon :: tokensOf d ++ tokensOfMembers rest

end

/-! ### Scanning on -/

/-- The tokens of a text behind those found already, which are given last one first. -/
def scanFrom (found : List Token) (text : List Char) : Option (List Token) :=
  (text.foldlM Scan.step ⟨found, .outside []⟩).bind Scan.finish?

theorem tokens?_eq (text : List Char) : tokens? text = scanFrom [] text := rfl

/-- A character that ends a run of characters and is not part of the next token but for a mark. -/
def separates (c : Char) : Bool := isSpace c || (mark? c).isSome

/-- The run of characters before this text ends with it. -/
def Separated : List Char → Prop
  | [] => True
  | c :: _ => separates c = true

/-- A character that may stand in a run outside of strings. -/
def isWordChar (c : Char) : Bool := !separates c && c != '"'

section Scanning

variable {found : List Token} {text : List Char}

theorem scanFrom_space {c : Char} (hc : isSpace c = true) :
    scanFrom found (c :: text) = scanFrom found text := by
  have hstep : Scan.step ⟨found, .outside []⟩ c = some ⟨found, .outside []⟩ := by
    simp [Scan.step, hc, flush]
  rw [scanFrom, foldlM_cons_of_eq_some hstep, scanFrom]

theorem scanFrom_spaces {spaces : List Char} (h : ∀ c ∈ spaces, isSpace c = true) :
    scanFrom found (spaces ++ text) = scanFrom found text := by
  induction spaces with
  | nil => rfl
  | cons c rest ih =>
    rw [List.cons_append, scanFrom_space (h c (by simp))]
    exact ih fun x hx => h x (by simp [hx])

theorem scanFrom_newline (indent : Nat) :
    scanFrom found (newline indent ++ text) = scanFrom found text := by
  refine scanFrom_spaces fun c hc => ?_
  rcases List.mem_cons.1 hc with rfl | hc
  · rfl
  · rw [List.eq_of_mem_replicate hc]
    rfl

/-- A mark is a token of its own. -/
theorem step_mark {c : Char} {mark : Token} (hc : mark? c = some mark) (run : List Char) :
    Scan.step ⟨found, .outside run⟩ c = some ⟨mark :: flush run found, .outside []⟩ := by
  unfold mark? at hc
  split at hc <;> cases hc <;> rfl

theorem scanFrom_mark {c : Char} {mark : Token} (hc : mark? c = some mark) :
    scanFrom found (c :: text) = scanFrom (mark :: found) text := by
  rw [scanFrom, foldlM_cons_of_eq_some (step_mark hc []), scanFrom]
  rfl

theorem step_separates {c : Char} (hc : separates c = true) (run : List Char) :
    Scan.step ⟨found, .outside run⟩ c = Scan.step ⟨flush run found, .outside []⟩ c := by
  rcases Bool.or_eq_true_iff.1 hc with hspace | hmark
  · simp [Scan.step, hspace, flush]
  · obtain ⟨mark, hmark⟩ := Option.isSome_iff_exists.1 hmark
    rw [step_mark hmark, step_mark hmark]
    rfl

theorem step_wordChar {c : Char} (hc : isWordChar c = true) (run : List Char) :
    Scan.step ⟨found, .outside run⟩ c = some ⟨found, .outside (c :: run)⟩ := by
  simp only [isWordChar, separates, Bool.and_eq_true, Bool.not_eq_true', Bool.or_eq_false_iff,
    Option.isSome_eq_false_iff, Option.isNone_iff_eq_none, bne_iff_ne] at hc
  obtain ⟨⟨hspace, hmark⟩, hquote⟩ := hc
  simp [Scan.step, hspace, hmark, hquote]

theorem foldlM_word {word : List Char} (hword : ∀ c ∈ word, isWordChar c = true)
    (run : List Char) :
    word.foldlM Scan.step ⟨found, .outside run⟩ = some ⟨found, .outside (word.reverse ++ run)⟩ := by
  induction word generalizing run with
  | nil => rfl
  | cons c rest ih =>
    rw [foldlM_cons_of_eq_some (step_wordChar (hword c (by simp)) run),
      ih fun x hx => hword x (by simp [hx])]
    simp

/-- A run of characters is a token when it ends. -/
theorem scanFrom_word {word : List Char} (hword : ∀ c ∈ word, isWordChar c = true)
    (hne : word ≠ []) (htext : Separated text) :
    scanFrom found (word ++ text) = scanFrom (.word word :: found) text := by
  have hflush : flush (word.reverse ++ []) found = .word word :: found := by
    simp [flush, hne]
  unfold scanFrom
  rw [foldlM_append_of_eq_some (foldlM_word hword [])]
  cases text with
  | nil =>
    show some (flush (word.reverse ++ []) found).reverse = _
    rw [hflush]
    rfl
  | cons c rest => rw [List.foldlM_cons, List.foldlM_cons, step_separates htext, hflush]

end Scanning

/-! ### Strings -/

/-- No character is half of a surrogate pair. -/
theorem surrogate_eq_false (c : Char) :
    isHighSurrogate c.toNat = false ∧ isLowSurrogate c.toNat = false := by
  have hvalid : c.toNat < 0xD800 ∨ 0xDFFF < c.toNat ∧ c.toNat < 0x110000 := c.valid
  simp only [isHighSurrogate, isLowSurrogate, Bool.and_eq_false_iff, decide_eq_false_iff_not]
  omega

theorem joinUnits_cons (c : Char) (units : List Nat) :
    joinUnits (c.toNat :: units) = (joinUnits units).map (c :: ·) := by
  obtain ⟨hhigh, hlow⟩ := surrogate_eq_false c
  cases units with
  | nil => simp [joinUnits, hhigh, hlow]
  | cons v rest => simp [joinUnits, hhigh, hlow]

theorem joinUnits_map_toNat (cs : List Char) : joinUnits (cs.map Char.toNat) = some cs := by
  induction cs with
  | nil => rfl
  | cons c rest ih =>
    rw [List.map_cons, joinUnits_cons, ih]
    rfl

theorem hexDigit?_hexDigit : ∀ n < 16, Text.hexDigit? (hexDigit n) = some n := by decide

section Strings

variable {found : List Token}

/-- A control character is written by its code. -/
theorem foldlM_unit {c : Char} (hc : c.toNat < 0x20) (units : List Nat) :
    ['\\', 'u', '0', '0', hexDigit (c.toNat / 16), hexDigit (c.toNat % 16)].foldlM Scan.step
      ⟨found, .inText units⟩ = some ⟨found, .inText (c.toNat :: units)⟩ := by
  have hhigh := hexDigit?_hexDigit (c.toNat / 16) (by omega)
  have hlow := hexDigit?_hexDigit (c.toNat % 16) (Nat.mod_lt _ (by decide))
  have hzero : Text.hexDigit? '0' = some 0 := rfl
  have hvalue : c.toNat / 16 * 16 + c.toNat % 16 = c.toNat := Nat.div_add_mod' _ _
  simp [List.foldlM_cons, Scan.step, hzero, hhigh, hlow, hvalue]

/-- One character inside a string is read back as itself. -/
theorem foldlM_escape (c : Char) (units : List Nat) :
    (escape c).foldlM Scan.step ⟨found, .inText units⟩ =
      some ⟨found, .inText (c.toNat :: units)⟩ := by
  unfold escape
  split
  -- a backslash and a letter
  iterate 7 · rfl
  · next hquote hbackslash _ _ _ _ _ =>
    split
    · next hcontrol => exact foldlM_unit hcontrol units
    · next hcontrol =>
      have hquote : c ≠ '"' := hquote
      have hbackslash : c ≠ '\\' := hbackslash
      have hstep : Scan.step ⟨found, .inText units⟩ c =
          some ⟨found, .inText (c.toNat :: units)⟩ := by
        simp [Scan.step, hquote, hbackslash, hcontrol]
      rw [foldlM_cons_of_eq_some hstep]
      rfl

theorem foldlM_escapes (cs : List Char) (units : List Nat) :
    (cs.flatMap escape).foldlM Scan.step ⟨found, .inText units⟩ =
      some ⟨found, .inText ((cs.map Char.toNat).reverse ++ units)⟩ := by
  induction cs generalizing units with
  | nil => rfl
  | cons c rest ih =>
    rw [List.flatMap_cons, foldlM_append_of_eq_some (foldlM_escape c units), ih]
    simp

/-- A string literal is a token of its own. -/
theorem scanFrom_quoted (s : String) (text : List Char) :
    scanFrom found (quoted s ++ text) = scanFrom (.text (some s) :: found) text := by
  have hopen : Scan.step ⟨found, .outside []⟩ '"' = some ⟨found, .inText []⟩ := rfl
  have hclose : Scan.step ⟨found, .inText ((s.toList.map Char.toNat).reverse ++ [])⟩ '"' =
      some ⟨.text (some s) :: found, .outside []⟩ := by
    simp [Scan.step, joinUnits_map_toNat]
  have hquoted : quoted s ++ text = '"' :: (s.toList.flatMap escape ++ '"' :: text) := by
    simp [quoted]
  rw [scanFrom, hquoted, foldlM_cons_of_eq_some hopen,
    foldlM_append_of_eq_some (foldlM_escapes s.toList []), foldlM_cons_of_eq_some hclose, scanFrom]

end Strings

/-! ### Documents -/

mutual

/-- Does JSON have a text for every part of the document?  Integers have no more than 64 bits. -/
def writable : Document → Bool
  | .null | .boolean _ | .text _ => true
  | .integer n => n.natAbs ≤ maxCoefficient
  | .list items => writableItems items
  | .table members => writableMembers members
  | .real _ | .datetime _ | .unreadable => false

def writableItems : List Document → Bool
  | [] => true
  | d :: rest => writable d && writableItems rest

def writableMembers : List (String × Document) → Bool
  | [] => true
  | (_, d) :: rest => writable d && writableMembers rest

end

theorem writableItems_iff {items : List Document} :
    writableItems items = true ↔ ∀ d ∈ items, writable d = true := by
  induction items with
  | nil => simp [writableItems]
  | cons d rest ih => rw [writableItems, Bool.and_eq_true_iff, ih, List.forall_mem_cons]

theorem writableMembers_iff {members : List (String × Document)} :
    writableMembers members = true ↔ ∀ member ∈ members, writable member.2 = true := by
  induction members with
  | nil => simp [writableMembers]
  | cons member rest ih =>
    obtain ⟨key, d⟩ := member
    rw [writableMembers, Bool.and_eq_true_iff, ih, List.forall_mem_cons]

theorem isWordChar_of_isDigit {c : Char} (hc : c.isDigit = true) : isWordChar c = true := by
  have hothers : ([' ', '\n', '\r', '\t', '[', ']', '{', '}', ',', ':', '"'].all
      fun x => !x.isDigit) = true := by decide
  have hne : ∀ x ∈ [' ', '\n', '\r', '\t', '[', ']', '{', '}', ',', ':', '"'], c ≠ x := by
    intro x hx heq
    have hdigit := List.all_eq_true.1 hothers x hx
    rw [← heq, hc] at hdigit
    cases hdigit
  simp only [List.mem_cons, List.not_mem_nil, or_false, forall_eq_or_imp, forall_eq] at hne
  simp [isWordChar, separates, isSpace, mark?, hne]

theorem isWordChar_of_mem_toString {n : Int} {c : Char} (hc : c ∈ (toString n).toList) :
    isWordChar c = true := by
  rcases Text.of_mem_toString hc with rfl | hc
  · rfl
  · exact isWordChar_of_isDigit hc

section Documents

/-- Whatever follows an item begins with a comma or a new line. -/
theorem separated_items (indent : Nat) (items : List Document) {text : List Char}
    (htext : Separated text) :
    Separated (prettyItems indent items ++ text) := by
  cases items with
  | nil => exact htext
  | cons d rest => rfl

theorem separated_members (indent : Nat) (members : List (String × Document)) {text : List Char}
    (htext : Separated text) : Separated (prettyMembers indent members ++ text) := by
  cases members with
  | nil => exact htext
  | cons member rest => rfl

theorem separated_newline (indent : Nat) {text : List Char} :
    Separated (newline indent ++ text) := rfl

mutual

/-- The text of a document is cut into its tokens. -/
theorem scanFrom_pretty {d : Document} (hd : writable d = true) (indent : Nat)
    (found : List Token) {text : List Char} (htext : Separated text) :
    scanFrom found (prettyChars indent d ++ text) =
      scanFrom ((tokensOf d).reverse ++ found) text := by
  match d with
  | .null =>
    have hword : "null".toList.all isWordChar = true := by decide
    exact scanFrom_word (List.all_eq_true.1 hword) (List.cons_ne_nil _ _) htext
  | .boolean true =>
    have hword : "true".toList.all isWordChar = true := by decide
    exact scanFrom_word (List.all_eq_true.1 hword) (List.cons_ne_nil _ _) htext
  | .boolean false =>
    have hword : "false".toList.all isWordChar = true := by decide
    exact scanFrom_word (List.all_eq_true.1 hword) (List.cons_ne_nil _ _) htext
  | .integer n =>
    obtain ⟨c, rest, hn, -⟩ := exists_cons_toString n
    have hne : (toString n).toList ≠ [] := by
      rw [hn]
      exact List.cons_ne_nil c rest
    exact scanFrom_word (fun c hc => isWordChar_of_mem_toString hc) hne htext
  | .text s => exact scanFrom_quoted s text
  | .list [] =>
    show scanFrom found ('[' :: ']' :: text) = _
    rw [scanFrom_mark rfl, scanFrom_mark rfl]
    rfl
  | .list (d :: rest) =>
    obtain ⟨hd, hrest⟩ := Bool.and_eq_true_iff.1 hd
    simp only [prettyChars, List.append_assoc, List.cons_append, List.nil_append]
    rw [scanFrom_mark rfl, scanFrom_newline,
      scanFrom_pretty hd _ _ (separated_items _ rest (separated_newline indent)),
      scanFrom_items hrest _ _ (separated_newline indent), scanFrom_newline, scanFrom_mark rfl]
    simp [tokensOf]
  | .table [] =>
    show scanFrom found ('{' :: '}' :: text) = _
    rw [scanFrom_mark rfl, scanFrom_mark rfl]
    rfl
  | .table ((key, d) :: rest) =>
    obtain ⟨hd, hrest⟩ := Bool.and_eq_true_iff.1 hd
    simp only [prettyChars, List.append_assoc, List.cons_append, List.nil_append]
    rw [scanFrom_mark rfl, scanFrom_newline, scanFrom_quoted, scanFrom_mark rfl,
      scanFrom_space rfl,
      scanFrom_pretty hd _ _ (separated_members _ rest (separated_newline indent)),
      scanFrom_members hrest _ _ (separated_newline indent), scanFrom_newline, scanFrom_mark rfl]
    simp [tokensOf]

theorem scanFrom_items {items : List Document} (hitems : writableItems items = true) (indent : Nat)
    (found : List Token) {text : List Char} (htext : Separated text) :
    scanFrom found (prettyItems indent items ++ text) =
      scanFrom ((tokensOfItems items).reverse ++ found) text := by
  match items with
  | [] => rfl
  | d :: rest =>
    obtain ⟨hd, hrest⟩ := Bool.and_eq_true_iff.1 hitems
    simp only [prettyItems, List.append_assoc, List.cons_append]
    rw [scanFrom_mark rfl, scanFrom_newline,
      scanFrom_pretty hd _ _ (separated_items _ rest htext), scanFrom_items hrest _ _ htext]
    simp [tokensOfItems]

theorem scanFrom_members {members : List (String × Document)}
    (hmembers : writableMembers members = true) (indent : Nat) (found : List Token)
    {text : List Char} (htext : Separated text) :
    scanFrom found (prettyMembers indent members ++ text) =
      scanFrom ((tokensOfMembers members).reverse ++ found) text := by
  match members with
  | [] => rfl
  | (key, d) :: rest =>
    obtain ⟨hd, hrest⟩ := Bool.and_eq_true_iff.1 hmembers
    simp only [prettyMembers, List.append_assoc, List.cons_append, List.nil_append]
    rw [scanFrom_mark rfl, scanFrom_newline, scanFrom_quoted, scanFrom_mark rfl,
      scanFrom_space rfl, scanFrom_pretty hd _ _ (separated_members _ rest htext),
      scanFrom_members hrest _ _ htext]
    simp [tokensOfMembers]

end

/-- The tokens of the text of a document are those of the document. -/
theorem tokens?_pretty {d : Document} (hd : writable d = true) :
    tokens? (pretty d).toList = some (tokensOf d) := by
  have hend : Separated [] := trivial
  have hscan := scanFrom_pretty hd 0 [] hend
  rw [List.append_nil, List.append_nil] at hscan
  rw [pretty, String.toList_ofList, tokens?_eq, hscan]
  show some (tokensOf d).reverse.reverse = _
  rw [List.reverse_reverse]

end Documents

end Columnar.Json
