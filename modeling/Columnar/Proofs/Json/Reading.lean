import Columnar.Json.Reader
import Columnar.Proofs.Json.Scanning

/-! # Reading what was written

    What is read from the text of a document is the document, but for the parts
    that nest deeper than the reader holds (`parse?_pretty`).  Whatever is read
    from any text nests no deeper than that (`depth_of_parse?`).

    The first is an induction on the document, with the lists and tables that
    are still open as a variable; the second is an invariant of the reader's
    steps. -/

namespace Columnar.Json

/-! ### Nesting -/

mutual

/-- What is read of a document that stands inside so many lists and tables: parts that nest too deep
    have no value. -/
def within (enclosing : Nat) : Document → Document
  | .list items =>
    if enclosing < maxDepth then .list (withinItems (enclosing + 1) items) else .unreadable
  | .table members =>
    if enclosing < maxDepth then .table (withinMembers (enclosing + 1) members) else .unreadable
  | d => d

def withinItems (enclosing : Nat) : List Document → List Document
  | [] => []
  | d :: rest => within enclosing d :: withinItems enclosing rest

def withinMembers (enclosing : Nat) : List (String × Document) → List (String × Document)
  | [] => []
  | (key, d) :: rest => (key, within enclosing d) :: withinMembers enclosing rest

end

theorem withinMembers_append (enclosing : Nat) (xs ys : List (String × Document)) :
    withinMembers enclosing (xs ++ ys) =
      withinMembers enclosing xs ++ withinMembers enclosing ys := by
  induction xs with
  | nil => rfl
  | cons member rest ih =>
    obtain ⟨key, d⟩ := member
    rw [List.cons_append, withinMembers, withinMembers, ih, List.cons_append]

/-! ### Reading on -/

/-- The document that tokens lead to from a state. -/
def readFrom (state : State) (tokens : List Token) : Option Document :=
  (tokens.foldlM State.step state).bind State.finish?

theorem readFrom_cons {state state' : State} {token : Token}
    (h : State.step state token = some state') (rest : List Token) :
    readFrom state (token :: rest) = readFrom state' rest := by
  rw [readFrom, foldlM_cons_of_eq_some h, readFrom]

/-- The first item begins like any value, unless the list ends at once. -/
theorem step_firstItem (stack : List Frame) {token : Token} (h : token ≠ .closeList) :
    State.step ⟨stack, .firstItem⟩ token = State.step ⟨stack, .value⟩ token := by
  cases stack with
  | nil => rfl
  | cons frame rest =>
    cases token with
    | closeList => contradiction
    | _ => cases frame <;> rfl

theorem exists_cons_tokensOf (d : Document) :
    ∃ token rest, tokensOf d = token :: rest ∧ token ≠ .closeList := by
  cases d with
  | list items =>
    cases items with
    | nil => exact ⟨_, _, rfl, by simp⟩
    | cons d rest => exact ⟨_, _, rfl, by simp⟩
  | table members =>
    cases members with
    | nil => exact ⟨_, _, rfl, by simp⟩
    | cons member rest => exact ⟨_, _, rfl, by simp⟩
  | _ => exact ⟨_, _, rfl, by simp⟩

theorem readFrom_firstItem (stack : List Frame) (d : Document) (rest : List Token) :
    readFrom ⟨stack, .firstItem⟩ (tokensOf d ++ rest) =
      readFrom ⟨stack, .value⟩ (tokensOf d ++ rest) := by
  obtain ⟨token, tokens, hd, htoken⟩ := exists_cons_tokensOf d
  rw [hd, List.cons_append, readFrom, readFrom, List.foldlM_cons, List.foldlM_cons,
    step_firstItem stack htoken]

/-- Members as a table that is still open holds them. -/
def keyed (members : List (String × Document)) : List (Option String × Document) :=
  members.map fun member => (some member.1, member.2)

theorem tableOf_keyed (members : List (String × Document)) :
    tableOf (keyed members).reverse = .table members := by
  have hkeys : (keyed members).mapM (fun member => member.1.map (·, member.2)) = some members := by
    unfold keyed
    rw [List.mapM_map]
    show members.mapM pure = some members
    rw [List.mapM_pure, List.map_id']
    rfl
  unfold tableOf
  rw [List.reverse_reverse]
  split
  · next found hfound => rw [Option.some.inj (hfound.symm.trans hkeys)]
  · next hfound => exact absurd (hfound.symm.trans hkeys) (by simp)

/-! ### Documents -/

/-- A word of the text of a document stands for the document. -/
theorem begin_scalar (stack : List Frame) {d : Document} (hd : word? (scalar d) = some d) :
    State.step ⟨stack, .value⟩ (.word (scalar d)) = some ⟨stack, .follow d⟩ := by
  show (word? (scalar d)).map _ = _
  rw [hd]
  rfl

mutual

/-- Reading the tokens of a document gives what can be held of it. -/
theorem readFrom_tokensOf {d : Document} (hd : writable d = true) (stack : List Frame)
    (rest : List Token) :
    readFrom ⟨stack, .value⟩ (tokensOf d ++ rest) =
      readFrom ⟨stack, .follow (within stack.length d)⟩ rest := by
  match d with
  | .null => exact readFrom_cons (begin_scalar stack rfl) rest
  | .boolean true => exact readFrom_cons (begin_scalar stack rfl) rest
  | .boolean false => exact readFrom_cons (begin_scalar stack rfl) rest
  | .integer n =>
    have hword : word? (scalar (.integer n)) = some (.integer n) :=
      word?_toString (of_decide_eq_true hd)
    exact readFrom_cons (begin_scalar stack hword) rest
  | .text s => exact readFrom_cons rfl rest
  | .list [] =>
    show readFrom ⟨stack, .value⟩ (.openList :: .closeList :: rest) = _
    rw [readFrom_cons rfl, readFrom_cons rfl]
    rfl
  | .list (d :: items) =>
    obtain ⟨hd, hitems⟩ := Bool.and_eq_true_iff.1 hd
    simp only [tokensOf, List.append_assoc, List.cons_append, List.nil_append]
    rw [readFrom_cons rfl, readFrom_firstItem, readFrom_tokensOf hd]
    exact readFrom_items hitems stack [] (within (stack.length + 1) d) rest
  | .table [] =>
    show readFrom ⟨stack, .value⟩ (.openTable :: .closeTable :: rest) = _
    rw [readFrom_cons rfl, readFrom_cons rfl]
    rfl
  | .table ((key, d) :: members) =>
    obtain ⟨hd, hmembers⟩ := Bool.and_eq_true_iff.1 hd
    simp only [tokensOf, List.append_assoc, List.cons_append, List.nil_append]
    rw [readFrom_cons rfl, readFrom_cons rfl, readFrom_cons rfl, readFrom_tokensOf hd]
    exact readFrom_members hmembers stack [] key (within (stack.length + 1) d) rest

/-- The items behind the first one, up to the end of their list. -/
theorem readFrom_items {items : List Document} (hitems : writableItems items = true)
    (stack : List Frame) (before : List Document) (d : Document) (rest : List Token) :
    readFrom ⟨.list before.reverse :: stack, .follow d⟩
        (tokensOfItems items ++ .closeList :: rest) =
      readFrom ⟨stack, .follow (held stack
        (.list (before ++ d :: withinItems (stack.length + 1) items)))⟩ rest := by
  match items with
  | [] =>
    show readFrom _ (.closeList :: rest) = _
    rw [readFrom_cons rfl]
    simp [withinItems]
  | e :: items =>
    obtain ⟨he, hitems⟩ := Bool.and_eq_true_iff.1 hitems
    have hbefore : d :: before.reverse = (before ++ [d]).reverse := by simp
    simp only [tokensOfItems, List.append_assoc, List.cons_append]
    rw [readFrom_cons rfl, readFrom_tokensOf he, hbefore,
      readFrom_items hitems stack (before ++ [d])]
    simp [withinItems]

/-- The members behind the first one, up to the end of their table. -/
theorem readFrom_members {members : List (String × Document)}
    (hmembers : writableMembers members = true) (stack : List Frame)
    (before : List (String × Document)) (key : String) (d : Document) (rest : List Token) :
    readFrom ⟨.table (keyed before).reverse (some key) :: stack, .follow d⟩
        (tokensOfMembers members ++ .closeTable :: rest) =
      readFrom ⟨stack, .follow (held stack
        (.table (before ++ (key, d) :: withinMembers (stack.length + 1) members)))⟩ rest := by
  have hbefore : (some key, d) :: (keyed before).reverse = (keyed (before ++ [(key, d)])).reverse := by
    simp [keyed]
  match members with
  | [] =>
    show readFrom _ (.closeTable :: rest) = _
    rw [readFrom_cons rfl, hbefore, tableOf_keyed]
    rfl
  | (name, e) :: members =>
    obtain ⟨he, hmembers⟩ := Bool.and_eq_true_iff.1 hmembers
    simp only [tokensOfMembers, List.append_assoc, List.cons_append]
    rw [readFrom_cons rfl, readFrom_cons rfl, readFrom_cons rfl, hbefore, readFrom_tokensOf he,
      readFrom_members hmembers stack (before ++ [(key, d)])]
    simp [withinMembers]

end

/-- What is read from the text of a document is the document, but for what nests too deep. -/
theorem parse?_pretty {d : Document} (hd : writable d = true) :
    parse? (pretty d) = some (within 0 d) := by
  have hread := readFrom_tokensOf hd [] []
  rw [List.append_nil] at hread
  unfold parse?
  rw [tokens?_pretty hd]
  exact hread

/-! ### What is held -/

mutual

/-- A document that nests no deeper than the reader holds is read as it is. -/
theorem within_eq_self {d : Document} {enclosing : Nat} (h : enclosing + d.depth ≤ maxDepth) :
    within enclosing d = d := by
  match d with
  | .list items =>
    rw [Document.depth] at h
    rw [within, if_pos (by omega), withinItems_eq_self (by omega)]
  | .table members =>
    rw [Document.depth] at h
    rw [within, if_pos (by omega), withinMembers_eq_self (by omega)]
  | .null | .boolean _ | .integer _ | .real _ | .datetime _ | .text _ | .unreadable => rfl

theorem withinItems_eq_self {items : List Document} {enclosing : Nat}
    (h : enclosing + Document.depthItems items ≤ maxDepth) : withinItems enclosing items = items := by
  match items with
  | [] => rfl
  | d :: rest =>
    rw [Document.depthItems] at h
    rw [withinItems, within_eq_self (by omega), withinItems_eq_self (by omega)]

theorem withinMembers_eq_self {members : List (String × Document)} {enclosing : Nat}
    (h : enclosing + Document.depthMembers members ≤ maxDepth) :
    withinMembers enclosing members = members := by
  match members with
  | [] => rfl
  | (key, d) :: rest =>
    rw [Document.depthMembers] at h
    rw [withinMembers, within_eq_self (by omega), withinMembers_eq_self (by omega)]

end

mutual

/-- If every part of a document has a value when read, none nests too deep. -/
theorem depth_of_readable {d : Document} {enclosing : Nat} (h : enclosing ≤ maxDepth)
    (hr : (within enclosing d).readable = true) : enclosing + d.depth ≤ maxDepth := by
  match d with
  | .list items =>
    rw [within] at hr
    split at hr
    · next hlt =>
      have hitems := depthItems_of_readable hlt hr
      rw [Document.depth]
      omega
    · cases hr
  | .table members =>
    rw [within] at hr
    split at hr
    · next hlt =>
      have hmembers := depthMembers_of_readable hlt hr
      rw [Document.depth]
      omega
    · cases hr
  | .null | .boolean _ | .integer _ | .real _ | .datetime _ | .text _ | .unreadable => exact h

theorem depthItems_of_readable {items : List Document} {enclosing : Nat} (h : enclosing ≤ maxDepth)
    (hr : Document.readableItems (withinItems enclosing items) = true) :
    enclosing + Document.depthItems items ≤ maxDepth := by
  match items with
  | [] => exact h
  | d :: rest =>
    obtain ⟨hd, hrest⟩ := Bool.and_eq_true_iff.1 hr
    have hfirst := depth_of_readable h hd
    have hothers := depthItems_of_readable h hrest
    rw [Document.depthItems]
    omega

theorem depthMembers_of_readable {members : List (String × Document)} {enclosing : Nat}
    (h : enclosing ≤ maxDepth)
    (hr : Document.readableMembers (withinMembers enclosing members) = true) :
    enclosing + Document.depthMembers members ≤ maxDepth := by
  match members with
  | [] => exact h
  | (key, d) :: rest =>
    obtain ⟨hd, hrest⟩ := Bool.and_eq_true_iff.1 hr
    have hfirst := depth_of_readable h hd
    have hothers := depthMembers_of_readable h hrest
    rw [Document.depthMembers]
    omega

end

mutual

/-- Every part of a document that has a text has a value. -/
theorem readable_of_writable {d : Document} (hd : writable d = true) : d.readable = true := by
  match d with
  | .list items => exact readableItems_of_writable hd
  | .table members => exact readableMembers_of_writable hd
  | .null | .boolean _ | .integer _ | .text _ => rfl
  | .real _ | .datetime _ | .unreadable => cases hd

theorem readableItems_of_writable {items : List Document} (hitems : writableItems items = true) :
    Document.readableItems items = true := by
  match items with
  | [] => rfl
  | d :: rest =>
    obtain ⟨hd, hrest⟩ := Bool.and_eq_true_iff.1 hitems
    exact Bool.and_eq_true_iff.2 ⟨readable_of_writable hd, readableItems_of_writable hrest⟩

theorem readableMembers_of_writable {members : List (String × Document)}
    (hmembers : writableMembers members = true) : Document.readableMembers members = true := by
  match members with
  | [] => rfl
  | (key, d) :: rest =>
    obtain ⟨hd, hrest⟩ := Bool.and_eq_true_iff.1 hmembers
    exact Bool.and_eq_true_iff.2 ⟨readable_of_writable hd, readableMembers_of_writable hrest⟩

end

/-! ### What is read from any text -/

theorem depthItems_le_iff {items : List Document} {n : Nat} :
    Document.depthItems items ≤ n ↔ ∀ d ∈ items, d.depth ≤ n := by
  induction items with
  | nil => simp [Document.depthItems]
  | cons d rest ih => rw [Document.depthItems, Nat.max_le, ih, List.forall_mem_cons]

theorem depthMembers_le_iff {members : List (String × Document)} {n : Nat} :
    Document.depthMembers members ≤ n ↔ ∀ member ∈ members, member.2.depth ≤ n := by
  induction members with
  | nil => simp [Document.depthMembers]
  | cons member rest ih =>
    obtain ⟨key, d⟩ := member
    rw [Document.depthMembers, Nat.max_le, ih, List.forall_mem_cons]

theorem depthMembers_append (xs ys : List (String × Document)) :
    Document.depthMembers (xs ++ ys) =
      max (Document.depthMembers xs) (Document.depthMembers ys) := by
  induction xs with
  | nil => exact (Nat.zero_max _).symm
  | cons member rest ih =>
    obtain ⟨key, d⟩ := member
    rw [List.cons_append, Document.depthMembers, Document.depthMembers, ih, Nat.max_assoc]

/-- What a list or table within so many others holds so far nests no deeper than it may. -/
def Frame.Fits (enclosing : Nat) : Frame → Prop
  | .list items => ∀ d ∈ items, d.depth ≤ maxDepth - (enclosing + 1)
  | .table members _ => ∀ member ∈ members, member.2.depth ≤ maxDepth - (enclosing + 1)

def Next.Fits (enclosing : Nat) : Next → Prop
  | .value | .firstItem | .firstKey => True
  | .key members | .colon members _ =>
    ∀ member ∈ members, member.2.depth ≤ maxDepth - (enclosing + 1)
  | .follow d => d.depth ≤ maxDepth - enclosing

def FramesFit : List Frame → Prop
  | [] => True
  | frame :: rest => frame.Fits rest.length ∧ FramesFit rest

/-- Whatever has been read nests no deeper than the reader holds. -/
def State.Fits (state : State) : Prop :=
  FramesFit state.stack ∧ state.next.Fits state.stack.length

theorem number?_depth {written : List Char} {d : Document} (h : number? written = some d) :
    d.depth = 0 := by
  unfold number? at h
  split at h
  simp only at h
  split at h
  · cases h
  · obtain ⟨parts, -, rfl⟩ := Option.map_eq_some_iff.1 h
    split
    · rfl
    · split <;> rfl

/-- A word is neither a list nor a table. -/
theorem word?_depth {written : List Char} {d : Document} (h : word? written = some d) :
    d.depth = 0 := by
  unfold word? at h
  split at h
  · cases h
    rfl
  · split at h
    · cases h
      rfl
    · split at h
      · cases h
        rfl
      · exact number?_depth h

theorem held_depth {enclosing : List Frame} {d : Document}
    (h : d.depth ≤ maxDepth - (enclosing.length + 1) + 1) :
    (held enclosing d).depth ≤ maxDepth - enclosing.length := by
  unfold held
  split
  · omega
  · exact Nat.zero_le _

theorem tableOf_depth {members : List (Option String × Document)} {n : Nat}
    (h : ∀ member ∈ members, member.2.depth ≤ n) : (tableOf members).depth ≤ n + 1 := by
  unfold tableOf
  split
  · next keyed hkeyed =>
    rw [Document.depth, Nat.add_le_add_iff_right, depthMembers_le_iff]
    intro member hmember
    obtain ⟨⟨key, d⟩, hmem, hd⟩ := exists_of_mapM_eq_some hkeyed hmember
    obtain ⟨key, -, rfl⟩ := Option.map_eq_some_iff.1 hd
    exact h _ (List.mem_reverse.1 hmem)
  · exact Nat.zero_le _

theorem begin_fits {stack : List Frame} (hstack : FramesFit stack) {token : Token} {state : State}
    (h : State.begin stack token = some state) : state.Fits := by
  cases token with
  | word written =>
    obtain ⟨d, hd, rfl⟩ := Option.map_eq_some_iff.1 h
    have hdepth := word?_depth hd
    exact ⟨hstack, by simp [Next.Fits, hdepth]⟩
  | text value =>
    cases value <;> cases h <;> exact ⟨hstack, Nat.zero_le _⟩
  | openList =>
    cases h
    exact ⟨⟨by simp [Frame.Fits], hstack⟩, trivial⟩
  | openTable =>
    cases h
    exact ⟨hstack, trivial⟩
  | _ => cases h

/-- A step keeps it so. -/
theorem step_fits {state state' : State} {token : Token} (hstate : state.Fits)
    (h : State.step state token = some state') : state'.Fits := by
  obtain ⟨frames, next⟩ := state
  obtain ⟨hstack, hnext⟩ := hstate
  unfold State.step at h
  dsimp only at h hstack hnext
  split at h
  -- a value begins, also as the first item of a list
  · exact begin_fits hstack h
  · cases h
    exact ⟨hstack.2, held_depth (by simp [Document.depth, Document.depthItems])⟩
  · exact begin_fits hstack h
  -- a table that ends at once, and keys
  · cases h
    exact ⟨hstack, held_depth (by simp [Document.depth, Document.depthMembers])⟩
  · cases h
    exact ⟨hstack, by simp [Next.Fits]⟩
  · cases h
    exact ⟨hstack, hnext⟩
  · cases h
    exact ⟨⟨hnext, hstack⟩, trivial⟩
  -- behind an item
  · cases h
    exact ⟨⟨List.forall_mem_cons.2 ⟨hnext, hstack.1⟩, hstack.2⟩, trivial⟩
  · next d items stack =>
    cases h
    have hitems : ∀ e ∈ (d :: items).reverse, e.depth ≤ maxDepth - (stack.length + 1) := by
      intro e he
      rcases List.mem_cons.1 (List.mem_reverse.1 he) with rfl | he
      · exact hnext
      · exact hstack.1 e he
    refine ⟨hstack.2, held_depth ?_⟩
    rw [Document.depth, Nat.add_le_add_iff_right, depthItems_le_iff]
    exact hitems
  -- behind a member
  · cases h
    exact ⟨hstack.2, List.forall_mem_cons.2 ⟨hnext, hstack.1⟩⟩
  · cases h
    exact ⟨hstack.2, held_depth (tableOf_depth (List.forall_mem_cons.2 ⟨hnext, hstack.1⟩))⟩
  · cases h

theorem foldlM_fits {tokens : List Token} {state state' : State} (hstate : state.Fits)
    (h : tokens.foldlM State.step state = some state') : state'.Fits := by
  induction tokens generalizing state with
  | nil =>
    cases h
    exact hstate
  | cons token rest ih =>
    obtain ⟨next, hnext, h⟩ := Option.bind_eq_some_iff.1 h
    exact ih (step_fits hstate hnext) h

/-- What is read from a text nests no deeper than the reader holds. -/
theorem depth_of_parse? {s : String} {d : Document} (h : parse? s = some d) :
    d.depth ≤ maxDepth := by
  obtain ⟨tokens, -, h⟩ := Option.bind_eq_some_iff.1 h
  obtain ⟨state, hstate, h⟩ := Option.bind_eq_some_iff.1 h
  have hstart : State.start.Fits := ⟨trivial, trivial⟩
  have hfits := foldlM_fits hstart hstate
  unfold State.finish? at h
  split at h
  · cases h
    exact hfits.2
  · cases h

end Columnar.Json
