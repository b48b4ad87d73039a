import Columnar.Files.Tree

/-! # Paths

    The names by which files are found.  A path is followed part by part:
    every part but the last has to lead to a directory that is there, also
    when the next one leads back out of it.
-/

namespace Columnar

/-- A path as it is written: the parts between its slashes. -/
structure FilePath where
  parts : List String
  deriving Repr, DecidableEq

/-- The directory in which relative paths begin. -/
def workingDirectory : Location := ["work"]

namespace FilePath

def ofName (name : String) : FilePath := ⟨(name.toList.splitOn '/').map String.ofList⟩

def name (p : FilePath) : String := "/".intercalate p.parts

/-- The path to a name in the directory to which a path leads. -/
def child (p : FilePath) (name : String) : FilePath :=
  let parts := if p.parts.getLast? = some "" then p.parts.dropLast else p.parts
  ⟨parts ++ [name]⟩

/-- A path that begins with a slash begins at the root. -/
def isAbsolute (p : FilePath) : Bool := p.parts.head? == some "" && 1 < p.parts.length

/-- The parts to follow from the root. -/
def steps (p : FilePath) : List String :=
  if p.isAbsolute then p.parts else workingDirectory ++ p.parts

/-- So many bytes a name in a directory may have. -/
def maxNameSize : Nat := 255

/-- So many bytes a path may have. -/
def maxSize : Nat := 4095

/-- Can the path be followed at all? -/
def isLegal (p : FilePath) : Bool :=
  p.name.utf8ByteSize ≤ maxSize && p.parts.all fun part => !part.toList.contains '\x00'

/-- Does a part lead elsewhere? -/
def isStep (part : String) : Bool := part != "" && part != "."

/-- The paths to what a path passes, and last to where it leads. -/
def stages (p : FilePath) : List FilePath :=
  (List.range p.parts.length).filterMap fun n =>
    if (p.parts[n]?).any isStep then some ⟨p.parts.take (n + 1)⟩ else none

/-- The paths to the directories around what a path names, the innermost first. -/
def around (p : FilePath) : List FilePath := p.stages.dropLast.reverse

end FilePath

/-! ### Following a path -/

/-- Why a path does not lead to what is asked for. -/
inductive PathError where
  /-- A part has no entry. -/
  | missing
  /-- Something is at its place. -/
  | present
  /-- A file is in the place of a directory, or a name is too long. -/
  | blocked
  deriving Repr, DecidableEq

/-- A directory on the way. -/
structure Place where
  here : FileTree
  /-- The directories around it, each with the name that leads on from it, the innermost first. -/
  above : List (String × FileTree)

namespace Place

def location (p : Place) : Location := (p.above.map (·.1)).reverse

/-- Follow one part of a path to a directory.  Above the root is the root itself. -/
def enter (p : Place) (part : String) : Except PathError Place :=
  if !FilePath.isStep part then .ok p
  else if part = ".." then
    match p.above with
    | [] => .ok p
    | (_, outer) :: above => .ok ⟨outer, above⟩
  else if FilePath.maxNameSize < part.utf8ByteSize then .error .blocked
  else match p.here.entries.lookup part with
    | none => .error .missing
    | some (.file _) => .error .blocked
    | some inner => .ok ⟨inner, (part, p.here) :: p.above⟩

end Place

end Columnar
