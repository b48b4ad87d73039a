import Columnar.Catalog.Basic
import Columnar.Plan.Basic
import Columnar.Plan.Error
import Columnar.Schema.Compile

/-! # Synthesizing specifications

    The three parts of a specification are derived from the column tree by
    three recursions.  The storage type is derived first, so a struct without
    fields or a map with a nested key is reported before any accessor is
    looked up in the types that own them.
-/

namespace Columnar

/-- Where the struct types that own the accessors are described. -/
abbrev Owner := String → Option TypeDescription

/-! ### Storage types -/

mutual

def storageType (path : Path) : Column → Except PlanError StorageType
  | .primitive _ kind => return .leaf kind.storage
  | .struct _ typeName children =>
    if children.isEmpty then throw (.emptyStruct path typeName)
    else return .struct (← storageFields path children)
  | .list _ _ element => return .listOf (← storageType (path.child element.name) element)
  | .map _ key value =>
    match key with
    | .primitive _ kind =>
      return .mapOf (.leaf kind.storage) (← storageType (path.child value.name) value)
    | _ => throw (.unsupportedMapKey path key.label)

def storageFields (path : Path) : List Column → Except PlanError (List StorageField)
  | [] => return []
  | c :: rest => do
    let type ← storageType (path.child c.name) c
    let fields ← storageFields path rest
    return ⟨c.name, type, true⟩ :: fields

end

/-! ### Capacity hints -/

mutual

/-- A hint for each list column of the tree, in pre-order. -/
def capacityHints (path : Path) : Column → List CapacityHint
  | .primitive _ _ => []
  | .struct _ _ children => capacityHintsOfFields path children
  | .list head averageSize element =>
    ⟨head.id, element.id, averageSize, path⟩ :: capacityHints (path.child element.name) element
  | .map _ key value =>
    capacityHints (path.child key.name) key ++ capacityHints (path.child value.name) value

def capacityHintsOfFields (path : Path) : List Column → List CapacityHint
  | [] => []
  | c :: rest => capacityHints (path.child c.name) c ++ capacityHintsOfFields path rest

end

/-! ### Append plan -/

def describeOwner (owner : Owner) (path : Path) (typeName : String) :
    Except PlanError TypeDescription :=
  match owner typeName with
  | some d => .ok d
  | none => .error (.unknownOwnerType path typeName)

/-- The accessor that reads a column from values of the type around it. -/
def resolveColumn (d : TypeDescription) (path : Path) (c : Column) : Except PlanError Accessor :=
  let name := c.accessor.getD c.name
  match d.resolveAccessor name with
  | some index => .ok ⟨index, name⟩
  | none => .error (.unresolvedAccessor path d.name name)

mutual

def operation (owner : Owner) (path : Path) : Column → Except PlanError Operation
  | .primitive head kind => return .primitive ⟨head.id, path⟩ kind
  | .struct head typeName children => do
    let d ← describeOwner owner path typeName
    return .struct ⟨head.id, path⟩ (← fieldOperations owner d path children)
  | .list head _ element =>
    return .list ⟨head.id, path⟩ (← operation owner (path.child element.name) element)
  | .map head key value => do
    let key ← operation owner (path.child key.name) key
    let value ← operation owner (path.child value.name) value
    return .map ⟨head.id, path⟩ key value

/-- The operations for the children of a struct column whose type is described by `d`. -/
def fieldOperations (owner : Owner) (d : TypeDescription) (path : Path) :
    List Column → Except PlanError (List (Accessor × Operation))
  | [] => return []
  | c :: rest => do
    let accessor ← resolveColumn d (path.child c.name) c
    let op ← operation owner (path.child c.name) c
    let ops ← fieldOperations owner d path rest
    return (accessor, op) :: ops

end

/-! ### Specifications -/

/-- The specification for rows stored as the given tree, which has to be a struct column. -/
def synthesize (root : Column) (owner : Owner) (writerId : WriterId) :
    Except PlanError Specification := do
  let path : Path := ⟨root.name, []⟩
  match root with
  | .struct _ typeName children =>
    if children.isEmpty then throw (.emptyStruct path typeName)
    let fields ← storageFields path children
    let d ← describeOwner owner path typeName
    let plan ← fieldOperations owner d path children
    return {
      writerId
      rootType := typeName
      root
      fields
      hints := capacityHints path root
      plan }
  | _ => throw (.rootNotStruct path)

/-- A row type for which no writer could be made. -/
inductive BuildError where
  | schema (error : SchemaError)
  | plan (error : PlanError)
  deriving Repr, DecidableEq

def BuildError.message : BuildError → String
  | .schema e => e.message
  | .plan e => e.message

/-- Compile the row type of a catalog and synthesize its specification. -/
def Specification.build (c : Catalog) (writerId : WriterId) : Except BuildError Specification :=
  match compile c with
  | .error e => .error (.schema e)
  | .ok root =>
    match synthesize root c.describe writerId with
    | .error e => .error (.plan e)
    | .ok spec => .ok spec

end Columnar
