import Columnar.Log.Basic

/-! # Trees of files

    Directories hold files and further directories by name.  A log file also
    holds the events logged to it, behind its text.
-/

namespace Columnar

structure File where
  text : String := ""
  /-- The events logged behind the text, in order. -/
  events : List Log.Event := []
  deriving Repr, DecidableEq

/-- All of a file as one text, without the heads of log lines. -/
def File.content (f : File) : String :=
  f.text ++ String.join (f.events.map fun e => s!"{e.level.letter}] {e.message}\n")

/-- The events that can be told when the file is read.  Each begins a line, so that the first one is
    lost in a line of the text that was left open. -/
def File.legibleEvents (f : File) : List Log.Event :=
  if f.text.isEmpty || f.text.endsWith "\n" then f.events else f.events.tail

inductive FileTree where
  | file (f : File)
  | directory (entries : List (String × FileTree))
  deriving Repr

/-- A place in a tree: the names that lead to it from the root. -/
abbrev Location := List String

namespace FileTree

/-- What a directory holds. -/
def entries : FileTree → List (String × FileTree)
  | .file _ => []
  | .directory entries => entries

def isDirectory : FileTree → Bool
  | .file _ => false
  | .directory _ => true

def file? : FileTree → Option File
  | .file f => some f
  | .directory _ => none

/-- What is at a place. -/
def find? (t : FileTree) : Location → Option FileTree
  | [] => some t
  | name :: rest => (t.entries.lookup name).bind fun inner => inner.find? rest

/-- Put something at a place.  Directories on the way are made where there are none. -/
def put (t : FileTree) (new : FileTree) : Location → FileTree
  | [] => new
  | name :: rest =>
    let inner := (t.entries.lookup name).getD (.directory [])
    .directory ((name, inner.put new rest) :: t.entries.filter fun entry => entry.1 != name)

theorem find?_put (t new : FileTree) (place : Location) :
    (t.put new place).find? place = some new := by
  induction place generalizing t with
  | nil => rfl
  | cons name rest ih => simp [put, find?, entries, ih]

end FileTree

end Columnar
