import Columnar.Path

/-! # Plan errors

    The ways in which a column tree cannot be written.
-/

namespace Columnar

inductive PlanError where
  | unknownOwnerType (path : Path) (typeName : String)
  | unresolvedAccessor (path : Path) (owner accessor : String)
  | emptyStruct (path : Path) (typeName : String)
  | unsupportedMapKey (path : Path) (kind : String)
  | rootNotStruct (path : Path)
  deriving Repr, DecidableEq

def PlanError.message : PlanError → String
  | .unknownOwnerType path t =>
    s!"owner type '{t}' of {path} is not described by the metadata provider"
  | .unresolvedAccessor path owner accessor =>
    s!"accessor '{accessor}' of {path} cannot be resolved against type '{owner}'"
  | .emptyStruct path t => s!"struct {path} of type '{t}' declares no fields"
  | .unsupportedMapKey path kind => s!"map {path} has a {kind} key; map keys must be primitive"
  | .rootNotStruct path => s!"schema node {path} is not a struct and cannot be a row root"

end Columnar
