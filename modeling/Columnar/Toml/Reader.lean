import Columnar.Toml.Scalar
import Columnar.Toml.Table
import Columnar.Toml.Token

/-! # Reading TOML

    The reader takes one token at a time.  It keeps the tables filled so far,
    the header it is under, and a stack of what is being read: the key of an
    assignment at the bottom, open lists and inline tables above it.
-/

namespace Columnar.Toml

/-- Lists and inline tables nest less deep than this, and dotted keys have fewer parts. -/
def depthLimit : Nat := 80

/-! ### Keys -/

/-- The parts of a key: names and the dots between them. -/
inductive KeyPart where
  | name (s : String)
  | dot
  deriving Repr, DecidableEq

/-- The parts that a run of bare characters is made of; `name` holds the characters before. -/
def bareParts (name : List Char) : List Char → List KeyPart
  | [] => named name []
  | '.' :: rest => named name (.dot :: bareParts [] rest)
  | c :: rest => bareParts (c :: name) rest
where
  named (name : List Char) (parts : List KeyPart) : List KeyPart :=
    if name.isEmpty then parts else .name (String.ofList name.reverse) :: parts

/-- The names of a key, if names and dots alternate. -/
def keyNames? : List KeyPart → Option (List String)
  | [.name s] => some [s]
  | .name s :: .dot :: rest => (keyNames? rest).map (s :: ·)
  | _ => none

/-- The names of a key, given its parts last one first. -/
def path? (parts : List KeyPart) : Option (List String) := do
  let path ← keyNames? parts.reverse
  guard (path.length < depthLimit)
  return path

def isKeyChar (c : Char) : Bool := c.isAlphanum || c == '_' || c == '-' || c == '.'

/-! ### State -/

/-- What is being read.  Items stand in reverse order. -/
inductive Frame where
  | assignment (path : List String)
  | list (items : List Document)
  | table (members : Members) (path : List String)

/-- What a key that is being read is for. -/
inductive KeyUse where
  | assignment
  | header
  | repeatedHeader
  | inline (members : Members)

/-- What has to come next. -/
inductive Next where
  | line
  | endOfLine
  | key (use : KeyUse) (parts : List KeyPart)
  /-- The second bracket behind a repeated header. -/
  | secondBracket (path : List String)
  | value
  | item
  | firstKey
  /-- A part of a list or inline table is complete. -/
  | follow (value : Document)

structure State where
  members : Members
  header : List String
  stack : List Frame
  next : Next

namespace State

def start : State := ⟨[], [], [], .line⟩

/-- A value is complete. -/
def complete (state : State) (stack : List Frame) (d : Document) : Option State :=
  match stack with
  | [.assignment path] => do
    let members ← state.members.assign state.header path d
    return { state with members, stack := [], next := .endOfLine }
  | stack => some { state with stack, next := .follow d }

/-- May a further list or inline table be opened? -/
def canOpen (state : State) : Bool := state.stack.length < depthLimit

/-- Start a value at a token. -/
def begin (state : State) : Token → Option State
  | .bare written => (scalar? written).bind (state.complete state.stack)
  | .text s _ => state.complete state.stack (.text s)
  | .openBracket _ =>
    if state.canOpen then some { state with stack := .list [] :: state.stack, next := .item }
    else none
  | .openBrace => if state.canOpen then some { state with next := .firstKey } else none
  | _ => none

/-- Go on with a key at a token. -/
def stepKey (state : State) (use : KeyUse) (parts : List KeyPart) (token : Token) :
    Option State :=
  match token, use with
  | .bare written, _ =>
    if written.all isKeyChar then
      some { state with next := .key use ((bareParts [] written).reverse ++ parts) }
    else none
  | .text s false, _ => some { state with next := .key use (.name s :: parts) }
  | .equals, .assignment => do
    return { state with stack := [.assignment (← path? parts)], next := .value }
  | .equals, .inline members => do
    return { state with stack := .table members (← path? parts) :: state.stack, next := .value }
  | .openBracket true, .header =>
    if parts.isEmpty then some { state with next := .key .repeatedHeader [] } else none
  | .closeBracket _, .header => do
    let path ← path? parts
    return { state with
      members := ← state.members.declare path
      header := path
      next := .endOfLine }
  | .closeBracket _, .repeatedHeader => do
    return { state with next := .secondBracket (← path? parts) }
  | _, _ => none

/-- Read one token. -/
def step (state : State) (token : Token) : Option State :=
  match state.next, state.stack, token with
  | .line, _, .newline => some state
  | .line, _, .openBracket _ => some { state with next := .key .header [] }
  | .line, _, token => state.stepKey .assignment [] token
  | .endOfLine, _, .newline => some { state with next := .line }
  | .key use parts, _, token => state.stepKey use parts token
  | .secondBracket path, _, .closeBracket true => do
    return { state with
      members := ← state.members.declareNext path
      header := path
      next := .endOfLine }
  | .value, _, token => state.begin token
  | .item, _, .newline => some state
  | .item, .list items :: stack, .closeBracket _ => state.complete stack (.list items.reverse)
  | .item, _, token => state.begin token
  | .firstKey, stack, .closeBrace => state.complete stack (.table [])
  | .firstKey, _, token => state.stepKey (.inline []) [] token
  | .follow _, .list _ :: _, .newline => some state
  | .follow d, .list items :: stack, .comma =>
    some { state with stack := .list (d :: items) :: stack, next := .item }
  | .follow d, .list items :: stack, .closeBracket _ =>
    state.complete stack (.list (d :: items).reverse)
  | .follow d, .table members path :: stack, .comma => do
    let members ← members.assign [] path d
    return { state with stack, next := .key (.inline members) [] }
  | .follow d, .table members path :: stack, .closeBrace => do
    let members ← members.assign [] path d
    state.complete stack members.toDocument
  | _, _, _ => none

/-- The document, when all tokens are read. -/
def finish? (state : State) : Option Document :=
  match state.next with
  | .line | .endOfLine => some state.members.toDocument
  | _ => none

end State

/-- The document that a text holds: a table. -/
def parse? (s : String) : Option Document := do
  let tokens ← tokens? s.toList
  let state ← tokens.foldlM State.step State.start
  state.finish?

end Columnar.Toml
