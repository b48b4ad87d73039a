/-! # Paths

    A path leads from a root column to a column below it by the names of the
    columns on the way.  Errors and listings write it with points between the
    names.
-/

namespace Columnar

/-- The name of the root column and the names below it, outermost first. -/
structure Path where
  root : String
  steps : List String := []
  deriving Repr, DecidableEq

namespace Path

/-- The path of a child column. -/
def child (p : Path) (name : String) : Path :=
  { p with steps := p.steps ++ [name] }

def names (p : Path) : List String :=
  p.root :: p.steps

/-- The names with points between them. -/
def text (p : Path) : String :=
  ".".intercalate p.names

instance : ToString Path := ⟨text⟩

end Path

end Columnar
