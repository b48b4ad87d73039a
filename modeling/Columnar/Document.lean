/-! # Documents

    The data that a JSON or a TOML text holds, in one type for both formats:
    catalogs and settings are read from a `Document` and do not know in which
    format it was written.
-/

namespace Columnar

/-- A structured document. -/
inductive Document where
  | null
  | boolean (value : Bool)
  | integer (value : Int)
  /-- A number with a point or an exponent, as it was written. -/
  | real (written : String)
  /-- A date or a time, as it was written. -/
  | datetime (written : String)
  | text (value : String)
  | list (items : List Document)
  | table (members : List (String × Document))
  /-- A part that is well formed but has no value: half of a surrogate pair, a number out of
      range, or nesting beyond what the reader holds.  It matters only where it is read. -/
  | unreadable
  deriving Repr, BEq, Inhabited

namespace Document

/-! ### Reading members -/

/-- What becomes of the items of a list that has more of them than there are members. -/
inductive Surplus where
  | refused
  | ignored
  deriving Repr, DecidableEq

/-- The members of a structure with the given member names: those of a table in which none of the
    names is repeated, or the items of a list, one for each name in order. -/
def members? (surplus : Surplus) (names : List String) :
    Document → Option (List (String × Document))
  | .table members =>
    if names.all (fun n => members.countP (·.1 == n) ≤ 1) then some members else none
  | .list items =>
    if surplus = .ignored ∨ items.length ≤ names.length then some (names.zip items) else none
  | _ => none

/-- The first member of that name. -/
def member? (name : String) (members : List (String × Document)) : Option Document :=
  (members.find? (·.1 == name)).map (·.2)

def text? : Document → Option String
  | .text s => some s
  | _ => none

def boolean? : Document → Option Bool
  | .boolean b => some b
  | _ => none

/-- An integer between the two bounds, both included. -/
def integerWithin? (low high : Int) : Document → Option Int
  | .integer n => if low ≤ n ∧ n ≤ high then some n else none
  | _ => none

def list? : Document → Option (List Document)
  | .list items => some items
  | _ => none

/-- The member of that name read by `read`; absent and `null` members count as not given. -/
def optional (read : Document → Option α) (name : String) (members : List (String × Document)) :
    Option (Option α) :=
  match member? name members with
  | none | some .null => some none
  | some d => (read d).map some

/-- The member of that name read by `read`, which has to be there. -/
def required (read : Document → Option α) (name : String) (members : List (String × Document)) :
    Option α :=
  (member? name members).bind read

/-- The member of that name read by `read`, or `default` where there is none. -/
def withDefault (default : α) (read : Document → Option α) (name : String)
    (members : List (String × Document)) : Option α :=
  match member? name members with
  | none => some default
  | some d => read d

/-! ### Readable documents -/

mutual

/-- Has every part of the document a value? -/
def readable : Document → Bool
  | .list items => readableItems items
  | .table members => readableMembers members
  | .unreadable => false
  | _ => true

def readableItems : List Document → Bool
  | [] => true
  | d :: rest => readable d && readableItems rest

def readableMembers : List (String × Document) → Bool
  | [] => true
  | (_, d) :: rest => readable d && readableMembers rest

end

mutual

/-- How deep lists and tables nest. -/
def depth : Document → Nat
  | .list items => depthItems items + 1
  | .table members => depthMembers members + 1
  | _ => 0

def depthItems : List Document → Nat
  | [] => 0
  | d :: rest => max (depth d) (depthItems rest)

def depthMembers : List (String × Document) → Nat
  | [] => 0
  | (_, d) :: rest => max (depth d) (depthMembers rest)

end

end Document

end Columnar
