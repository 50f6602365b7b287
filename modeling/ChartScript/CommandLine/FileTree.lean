/-!
# File trees

A file tree says which folders, files and devices there are and where they stand. A path is followed
through it step by step, from the root if it begins with a slash and otherwise from the folder in
which the command runs. It leads to a folder, or to an entry of one that is there or can be made.
-/

namespace ChartScript.CommandLine

/-- A file that stands for a stream of the machine. -/
inductive Device where
  /-- Standard input. -/
  | input
  /-- Standard output. -/
  | output
  /-- Standard error. -/
  | messages
  /-- Gives nothing and takes everything. -/
  | sink
  /-- Gives nothing and has no space left. -/
  | full
  /-- The terminal, which the machine does not have. -/
  | terminal
deriving DecidableEq, Repr

/-- What stands at a place of a file tree. -/
inductive Node where
  | folder
  | file (text : String)
  | device (device : Device)
deriving DecidableEq, Repr

/-- A place in a file tree: the names on the way to it from the root, the last of them first. -/
abbrev Location := List String

/-- The name at a place. -/
def Location.name : Location → String
  | [] => ""
  | name :: _ => name

/-- What stands where; of two nodes at one place the first counts. -/
structure FileTree where
  nodes : List (Location × Node)
deriving DecidableEq, Repr

/-- What a path leads to. -/
inductive Destination where
  | folder
  /-- A file or a device, or the place where a file can be made. -/
  | entry (location : Location)
  /-- An entry, where the path insists on a folder by ending in a slash. -/
  | asFolder (location : Location)
  /-- Something below an entry. -/
  | below (location : Location)
deriving DecidableEq, Repr

namespace FileTree

/-- What stands at a place. -/
def node? (tree : FileTree) (location : Location) : Option Node :=
  tree.nodes.lookup location

/-- The tree with a file at a place, made or replaced. -/
def withFile (tree : FileTree) (location : Location) (text : String) : FileTree :=
  ⟨(location, .file text) :: tree.nodes⟩

/-- Where steps lead from a folder. Empty steps and single dots stay, two dots go to the parent; the
parent of the root is the root. -/
def follow (tree : FileTree) (folder : Location) : List String → Destination
  | [] => .folder
  | step :: rest =>
    if step = "" ∨ step = "." then tree.follow folder rest
    else if step = ".." then tree.follow folder.tail rest
    else if tree.node? (step :: folder) = some .folder then tree.follow (step :: folder) rest
    else if rest.isEmpty then .entry (step :: folder)
    else if rest.all (· = "") then .asFolder (step :: folder)
    else .below (step :: folder)

/-- Where a path leads from a folder. -/
def destination (tree : FileTree) (folder : Location) (path : String) : Destination :=
  tree.follow (if path.startsWith "/" then [] else folder) (path.splitToList (· = '/'))

end FileTree

end ChartScript.CommandLine
