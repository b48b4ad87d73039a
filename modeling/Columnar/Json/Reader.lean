import Columnar.Json.Number
import Columnar.Json.Token

/-! # Reading JSON

    The reader takes one token at a time and keeps a stack of the lists and
    tables that are still open.  It is strict: no comments, no trailing
    commas, nothing behind the value.  Nesting beyond `maxDepth`, numbers out
    of range and halves of surrogate pairs are read as
    `Document.unreadable`, so that they do no harm where nobody looks.
-/

namespace Columnar.Json

/-- So many lists and tables may be open at once. -/
def maxDepth : Nat := 127

/-- The value of a word outside of strings. -/
def word? (written : List Char) : Option Document :=
  if written = ['n', 'u', 'l', 'l'] then some .null
  else if written = ['t', 'r', 'u', 'e'] then some (.boolean true)
  else if written = ['f', 'a', 'l', 's', 'e'] then some (.boolean false)
  else number? written

/-! ### The reader -/

/-- A list or table that is still open, with what it holds so far, last part first. -/
inductive Frame where
  | list (items : List Document)
  /-- The key is that of the member being read. -/
  | table (members : List (Option String × Document)) (key : Option String)

/-- What has to come next. -/
inductive Next where
  | value
  | firstItem
  | firstKey
  | key (members : List (Option String × Document))
  | colon (members : List (Option String × Document)) (key : Option String)
  /-- A value is complete: a comma, the end of what encloses it, or the end of the text. -/
  | follow (value : Document)

structure State where
  stack : List Frame
  next : Next

def State.start : State := ⟨[], .value⟩

/-- A list or table that closes inside so many others. -/
def held (enclosing : List Frame) (d : Document) : Document :=
  if enclosing.length < maxDepth then d else .unreadable

/-- The table of the members, given last one first. -/
def tableOf (members : List (Option String × Document)) : Document :=
  match members.reverse.mapM fun (key, d) => key.map (·, d) with
  | some members => .table members
  | none => .unreadable

/-- Start a value at a token. -/
def State.begin (stack : List Frame) : Token → Option State
  | .word written => (word? written).map fun d => ⟨stack, .follow d⟩
  | .text (some s) => some ⟨stack, .follow (.text s)⟩
  | .text none => some ⟨stack, .follow .unreadable⟩
  | .openList => some ⟨.list [] :: stack, .firstItem⟩
  | .openTable => some ⟨stack, .firstKey⟩
  | _ => none

/-- Read one token. -/
def State.step (state : State) (token : Token) : Option State :=
  match state.next, state.stack, token with
  | .value, stack, t => State.begin stack t
  | .firstItem, .list _ :: stack, .closeList => some ⟨stack, .follow (held stack (.list []))⟩
  | .firstItem, stack, t => State.begin stack t
  | .firstKey, stack, .closeTable => some ⟨stack, .follow (held stack (.table []))⟩
  | .firstKey, stack, .text key => some ⟨stack, .colon [] key⟩
  | .key members, stack, .text key => some ⟨stack, .colon members key⟩
  | .colon members key, stack, .colon => some ⟨.table members key :: stack, .value⟩
  | .follow d, .list items :: stack, .comma => some ⟨.list (d :: items) :: stack, .value⟩
  | .follow d, .list items :: stack, .closeList =>
    some ⟨stack, .follow (held stack (.list (d :: items).reverse))⟩
  | .follow d, .table members key :: stack, .comma => some ⟨stack, .key ((key, d) :: members)⟩
  | .follow d, .table members key :: stack, .closeTable =>
    some ⟨stack, .follow (held stack (tableOf ((key, d) :: members)))⟩
  | _, _, _ => none

/-- The document, when all tokens are read. -/
def State.finish? : State → Option Document
  | ⟨[], .follow d⟩ => some d
  | _ => none

/-- The document that a text holds. -/
def parse? (s : String) : Option Document := do
  let tokens ← tokens? s.toList
  let state ← tokens.foldlM State.step State.start
  state.finish?

end Columnar.Json
