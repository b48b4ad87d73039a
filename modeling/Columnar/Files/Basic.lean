import Columnar.Files.Path

/-! # Files

    The files that a session can see.  A log file is made together with the
    directories around it.
-/

namespace Columnar

structure Files where
  root : FileTree := FileTree.put (.directory []) (.directory []) workingDirectory
  deriving Repr

namespace Files

/-- The directory to which parts lead from the root. -/
def follow (files : Files) (steps : List String) : Except PathError Place :=
  steps.foldlM Place.enter ⟨files.root, []⟩

/-- The directory in which a path names something, and the name.  What is named by no name of its
    own is a directory and there. -/
def resolve (files : Files) (path : FilePath) : Except PathError (Place × String) :=
  if !path.isLegal then .error .blocked
  else do
    let place ← files.follow path.steps.dropLast
    let name := path.parts.getLast?.getD ""
    if !FilePath.isStep name || name == ".." then .error .present
    else if FilePath.maxNameSize < name.utf8ByteSize then .error .blocked
    else return (place, name)

def file? (files : Files) (path : FilePath) : Option File :=
  match files.resolve path with
  | .ok (place, name) => (place.here.entries.lookup name).bind FileTree.file?
  | .error _ => none

/-- Does the path lead to a directory? -/
def isDirectory (files : Files) (path : FilePath) : Bool :=
  path.isLegal && (files.follow path.steps).isOk

def exists? (files : Files) (path : FilePath) : Bool :=
  (files.file? path).isSome || files.isDirectory path

/-- Make a directory in one that is there. -/
def makeDirectory (files : Files) (path : FilePath) : Except PathError Files := do
  let (place, name) ← files.resolve path
  if (place.here.entries.lookup name).isSome then .error .present
  else return ⟨files.root.put (.directory []) (place.location ++ [name])⟩

/-- Make the first of these directories where it is missing, and before it those after it, which
    are around it.  Is the first one there in the end?  Those made stay in any case. -/
def makeDirectories (files : Files) : List FilePath → Files × Bool
  | [] => (files, true)
  | path :: around =>
    match files.makeDirectory path with
    | .ok files => (files, true)
    | .error .present => (files, files.isDirectory path)
    | .error .blocked => (files, false)
    | .error .missing =>
      let (files, made) := files.makeDirectories around
      if !made then (files, false)
      else match files.makeDirectory path with
        | .ok files => (files, true)
        | .error _ => (files, files.isDirectory path)

/-- Open a file to write behind what it holds; it is made, with the directories around it, if it
    is not there.  This fails if the path is not that of a file, or if a directory cannot be made. -/
def openLog (files : Files) (path : FilePath) : Files × Option Location :=
  let (files, made) := files.makeDirectories path.around
  if !made then (files, none)
  else match files.resolve path with
    | .error _ => (files, none)
    | .ok (place, name) =>
      let location := place.location ++ [name]
      match place.here.entries.lookup name with
      | none => (⟨files.root.put (.file {}) location⟩, some location)
      | some (.file _) => (files, some location)
      | some (.directory _) => (files, none)

/-- Write a file, instead of what it held before, with the directories around it. -/
def write (files : Files) (path : FilePath) (text : String) : Files :=
  match files.openLog path with
  | (files, some location) => ⟨files.root.put (.file { text }) location⟩
  | (files, none) => files

/-- Log an event to a file. -/
def logTo (files : Files) (location : Location) (e : Log.Event) : Files :=
  match (files.root.find? location).bind FileTree.file? with
  | some f => ⟨files.root.put (.file { f with events := f.events ++ [e] }) location⟩
  | none => files

end Files

end Columnar
