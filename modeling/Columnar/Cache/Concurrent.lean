import Columnar.Cache.Basic

/-! # Concurrent use of a cache

    Callers that ask one cache at the same time take turns in steps that
    nobody interrupts: a call first gets hold of the slot of its row type, and
    later is the only user of that slot for a while.  Between these steps any
    other call may go on.
-/

namespace Columnar

/-- How far a call is: not made yet, between its two steps, or through with them. -/
inductive CallPhase where
  | pending
  | holdingSlot
  | returned (lookup : Lookup)
  deriving Repr

/-- A call for the specification of a row type, or for a handle with the given options. -/
structure Call where
  type : RowType
  options : Option WriterOptions := none
  phase : CallPhase := .pending
  deriving Repr

namespace Call

/-- What the call met with, if it is through. -/
def lookup? (call : Call) : Option Lookup :=
  match call.phase with
  | .returned lookup => some lookup
  | _ => none

/-- The handle that the call returned, if it was made for one. -/
def handle? (call : Call) : Option (Except HandleError WriterHandle) :=
  call.lookup?.bind fun lookup => call.options.map lookup.handle

end Call

/-- A cache, what it takes from outside, and the calls. -/
structure SharedCache where
  cache : WriterCache
  supply : Supply
  calls : List Call
  deriving Repr

namespace SharedCache

/-- Let a call take its next step; its row type would say what `catalog` says. -/
def step (s : SharedCache) (i : Nat) (catalog : Catalog) : SharedCache :=
  match s.calls[i]? with
  | none => s
  | some call =>
    match call.phase with
    | .pending =>
      { s with
        cache := s.cache.openSlot call.type
        calls := s.calls.set i { call with phase := .holdingSlot } }
    | .holdingSlot =>
      let (lookup, cache, supply) := s.cache.enter call.type catalog s.supply
      { cache
        supply
        calls := s.calls.set i { call with phase := .returned lookup } }
    | .returned _ => s

/-- Let calls take steps in the given order. -/
def run (s : SharedCache) (schedule : List (Nat × Catalog)) : SharedCache :=
  schedule.foldl (fun s turn => s.step turn.1 turn.2) s

/-- What the calls returned so far. -/
def lookups (s : SharedCache) : List Lookup :=
  s.calls.filterMap Call.lookup?

/-- So many calls for one row type at once: all get hold of the slot before the first uses it. -/
def together (cache : WriterCache) (supply : Supply) (type : RowType) (catalog : Catalog)
    (count : Nat) : SharedCache :=
  let turns := (List.range count).map (·, catalog)
  run ⟨cache, supply, List.replicate count { type }⟩ (turns ++ turns)

end SharedCache

end Columnar
