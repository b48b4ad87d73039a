import Columnar.Handle
import Columnar.Plan.Synthesis

/-! # Writer caches

    A cache holds one specification for each row type.  A type has a slot of
    its own: the first user of the slot compiles the type, later ones get what
    is installed there.  A failed compilation leaves the slot empty, but the
    writer number that it was given is used up.
-/

namespace Columnar

/-- A type of rows, known by its name. -/
structure RowType where
  name : String
  deriving Repr, DecidableEq

structure CacheStats where
  compilations : Nat := 0
  hits : Nat := 0
  failures : Nat := 0
  deriving Repr, DecidableEq

/-! ### Supply -/

/-- What caches take from outside: writer numbers, and the catalogs of row types. -/
structure Supply where
  next : WriterId := 0
  /-- The row types that were asked for their catalogs, the last one first. -/
  asked : List RowType := []
  deriving Repr, DecidableEq

namespace Supply

/-- Ask a row type for its catalog. -/
def ask (supply : Supply) (type : RowType) : Supply :=
  { supply with asked := type :: supply.asked }

/-- Give out a writer number. -/
def number (supply : Supply) : WriterId × Supply :=
  (supply.next, { supply with next := supply.next + 1 })

end Supply

/-! ### Lookups -/

/-- What a user of a slot meets with. -/
inductive Lookup where
  | hit (s : Specification)
  | compiled (s : Specification)
  | failed (e : BuildError)
  deriving Repr

/-- Why a handle could not be made. -/
inductive HandleError where
  | build (error : BuildError)
  | assembly (error : AssemblyError)
  deriving Repr, DecidableEq

namespace Lookup

def result : Lookup → Except BuildError Specification
  | .hit s | .compiled s => .ok s
  | .failed e => .error e

/-- A handle for the specification that was found. -/
def handle (lookup : Lookup) (o : WriterOptions) : Except HandleError WriterHandle :=
  match lookup.result with
  | .error e => .error (.build e)
  | .ok s => (WriterHandle.create s o).mapError .assembly

end Lookup

def CacheStats.count (stats : CacheStats) : Lookup → CacheStats
  | .hit _ => { stats with hits := stats.hits + 1 }
  | .compiled _ => { stats with compilations := stats.compilations + 1 }
  | .failed _ => { stats with failures := stats.failures + 1 }

/-! ### Caches -/

structure WriterCache where
  slots : List (RowType × Option Specification) := []
  stats : CacheStats := {}
  deriving Repr

namespace WriterCache

/-- What is installed for a row type. -/
def installed? (cache : WriterCache) (type : RowType) : Option Specification :=
  (cache.slots.lookup type).join

def contains (cache : WriterCache) (type : RowType) : Bool := (cache.installed? type).isSome

/-- The number of installed specifications. -/
def size (cache : WriterCache) : Nat := cache.slots.countP (·.2.isSome)

/-- Count what a user of a slot met with. -/
def count (cache : WriterCache) (lookup : Lookup) : WriterCache :=
  { cache with stats := cache.stats.count lookup }

/-! ### Atomic steps -/

/-- Make an empty slot for a row type unless it has one. -/
def openSlot (cache : WriterCache) (type : RowType) : WriterCache :=
  if (cache.slots.lookup type).isSome then cache
  else { cache with slots := cache.slots ++ [(type, none)] }

def install (cache : WriterCache) (type : RowType) (s : Specification) : WriterCache :=
  { cache with slots := cache.slots.map fun (t, old) => (t, if t = type then some s else old) }

/-- What happens to the only user of a slot: for an empty one the row type is asked for its
    catalog, which is compiled with the next writer number. -/
def enter (cache : WriterCache) (type : RowType) (catalog : Catalog) (supply : Supply) :
    Lookup × WriterCache × Supply :=
  match cache.installed? type with
  | some s => (.hit s, cache.count (.hit s), supply)
  | none =>
    let (writerId, supply) := (supply.ask type).number
    match Specification.build catalog writerId with
    | .ok s => (.compiled s, (cache.install type s).count (.compiled s), supply)
    | .error e => (.failed e, cache.count (.failed e), supply)

/-- Ask for the specification of a row type. -/
def specification (cache : WriterCache) (type : RowType) (catalog : Catalog) (supply : Supply) :
    Lookup × WriterCache × Supply :=
  (cache.openSlot type).enter type catalog supply

/-- The text that shows a cache. -/
def describe (cache : WriterCache) : String :=
  let s := cache.stats
  "WriterCache \x7b stats: WriterCacheStats \x7b "
    ++ s!"compilations: {s.compilations}, hits: {s.hits}, failures: {s.failures} "
    ++ "\x7d, .. \x7d"

end WriterCache

end Columnar
