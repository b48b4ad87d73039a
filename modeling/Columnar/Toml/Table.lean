import Columnar.Document

/-! # TOML tables

    A TOML text fills a tree of tables by assignments and headers.  Every
    table remembers how it came about, because that decides what may still be
    added to it: a table with a header of its own is closed to dotted keys, a
    table made by dotted keys cannot get a header, and nothing is assigned
    twice.
-/

namespace Columnar.Toml

/-- How a table came about. -/
inductive Origin where
  /-- On the way to the table of a header. -/
  | implied
  /-- By a dotted key. -/
  | dotted
  /-- By a header, or as the document. -/
  | declared
  deriving Repr, DecidableEq

/-- What a key of a table stands for. -/
inductive Entry where
  | value (d : Document)
  | table (origin : Origin) (members : List (String × Entry))
  /-- Tables under a repeated header, last one first. -/
  | tables (items : List (List (String × Entry)))
  deriving Repr

abbrev Members := List (String × Entry)

namespace Members

/-- Give a key that a table has a new meaning. -/
def replace (members : Members) (key : String) (e : Entry) : Members :=
  members.map fun (k, old) => (k, if k = key then e else old)

/-- Change the table that a path leads to.  Tables that are missing on the way are made. -/
def edit (change : Origin → Members → Option Members) (dotted : Bool) :
    List String → Origin → Members → Option Members
  | [], origin, members => change origin members
  | key :: rest, _, members =>
    match members.lookup key with
    | none => do
      let origin := if dotted then .dotted else .implied
      let inner ← edit change dotted rest origin []
      return members ++ [(key, .table origin inner)]
    | some (.table origin inner) =>
      if dotted && origin = .declared then none
      else (edit change dotted rest origin inner).map fun inner =>
        members.replace key (.table origin inner)
    | some (.tables (current :: others)) =>
      (edit change dotted rest .declared current).map fun current =>
        members.replace key (.tables (current :: others))
    | some _ => none

/-- Split off the last key. -/
def splitLast? (path : List String) : Option (List String × String) :=
  path.getLast?.map fun last => (path.dropLast, last)

/-- Assign a value to a dotted key, below the table of a header. -/
def assign (members : Members) (header path : List String) (d : Document) : Option Members := do
  let (way, key) ← splitLast? path
  let put (origin : Origin) (members : Members) : Option Members :=
    if decide (origin = .dotted) == !way.isEmpty && (members.lookup key).isNone then
      some (members ++ [(key, .value d)])
    else none
  edit (edit put true way) false header .declared members

/-- Begin the table of a header. -/
def declare (members : Members) (path : List String) : Option Members := do
  let (way, key) ← splitLast? path
  let put (_ : Origin) (members : Members) : Option Members :=
    match members.lookup key with
    | none => some (members ++ [(key, .table .declared [])])
    | some (.table .implied inner) => some (members.replace key (.table .declared inner))
    | some _ => none
  edit put false way .declared members

/-- Begin a further table of a repeated header. -/
def declareNext (members : Members) (path : List String) : Option Members := do
  let (way, key) ← splitLast? path
  let put (_ : Origin) (members : Members) : Option Members :=
    match members.lookup key with
    | none => some (members ++ [(key, .tables [[]])])
    | some (.tables items) => some (members.replace key (.tables ([] :: items)))
    | some _ => none
  edit put false way .declared members

end Members

/-! ### Documents -/

mutual

def Entry.toDocument : Entry → Document
  | .value d => d
  | .table _ members => .table (Members.toMembers members)
  | .tables items => .list (Members.toTables items).reverse

def Members.toMembers : List (String × Entry) → List (String × Document)
  | [] => []
  | (key, e) :: rest => (key, e.toDocument) :: Members.toMembers rest

def Members.toTables : List (List (String × Entry)) → List Document
  | [] => []
  | members :: rest => .table (Members.toMembers members) :: Members.toTables rest

end

def Members.toDocument (members : Members) : Document := .table (Members.toMembers members)

end Columnar.Toml
