import Columnar.Plan.Basic

/-! # Plan listings

    A listing of a specification has a line each for the writer's name, the
    type of the rows, every capacity hint and every operation.  Operations are
    indented by their depth below the row.
-/

namespace Columnar

/-- Where the values of a column come from. -/
inductive Source where
  | field (accessor : Accessor)
  | element
  deriving Repr, DecidableEq

def Source.text : Source → String
  | .field accessor => s!"field {accessor}"
  | .element => "element"

/-- One operation of a plan, without those below it. -/
structure PlanEntry where
  depth : Nat
  target : Target
  source : Source
  label : String
  deriving Repr, DecidableEq

mutual

/-- The operation and those below it in pre-order. -/
def Operation.entries (depth : Nat) (source : Source) : Operation → List PlanEntry
  | .primitive target kind => [⟨depth, target, source, kind.typeName⟩]
  | .struct target fields =>
    ⟨depth, target, source, "struct"⟩ :: Operation.fieldEntries (depth + 1) fields
  | .list target element =>
    ⟨depth, target, source, "list"⟩ :: Operation.entries (depth + 1) .element element
  | .map target key value =>
    ⟨depth, target, source, "map"⟩
      :: (Operation.entries (depth + 1) .element key ++ Operation.entries (depth + 1) .element value)

def Operation.fieldEntries (depth : Nat) : List (Accessor × Operation) → List PlanEntry
  | [] => []
  | (accessor, op) :: rest =>
    Operation.entries depth (.field accessor) op ++ Operation.fieldEntries depth rest

end

def PlanEntry.line (e : PlanEntry) : String :=
  String.ofList (List.replicate (2 * e.depth) ' ')
    ++ s!"#{e.target.column} {e.target.path} <- {e.source.text} as {e.label}\n"

def CapacityHint.line (h : CapacityHint) : String :=
  s!"hint #{h.list} {h.path} elements(#{h.element}) x{h.averageSize.toNat}\n"

namespace Specification

/-- The operations of the plan in pre-order. -/
def entries (s : Specification) : List PlanEntry :=
  Operation.fieldEntries 0 s.plan

/-- The listing of a specification. -/
def render (s : Specification) : String :=
  s!"writer {s.name}\ntype {s.root.typeString}\n"
    ++ String.join (s.hints.map CapacityHint.line) ++ String.join (s.entries.map PlanEntry.line)

end Specification

end Columnar
