set_option autoImplicit false

/-!
# Files and directories

What the program asks of a file system, and a file system that is a list of files.

## Main definitions

* `Retarget.FileSystem` — access to files and directories by path.
* `Retarget.FileTree` — the files below a directory, and `FileTree.fileSystem`, access to them.
-/

namespace Retarget

/-- What a path leads to. -/
inductive EntryKind
  | file | directory
deriving DecidableEq, Repr

/-- Access to files and directories by path. A path without a slash at its start is relative to
the current directory. -/
structure FileSystem (m : Type → Type) where
  /-- What the path leads to, if to anything. -/
  kind? : String → m (Option EntryKind)
  /-- The names in a directory, in any order. -/
  children : String → m (List String)
  /-- The text of a file, if it can be read. -/
  read? : String → m (Option String)

/-- The path leads to a directory. -/
def FileSystem.isDirectory {m : Type → Type} [Monad m] (fs : FileSystem m) (path : String) :
    m Bool := do
  return (← fs.kind? path) == some .directory

/-- The files below a directory, each with its path from there and its text. Directories are those
that files lie in. -/
structure FileTree where
  files : List (List String × String)
deriving DecidableEq, Repr

namespace FileTree

/-- The files at the given paths. A later file replaces an earlier one at the same path. -/
def ofFiles (files : List (String × String)) : FileTree :=
  ⟨files.reverse.map fun (path, text) =>
    ((path.splitOn "/").filter fun part => part != "" && part != ".", text)⟩

/-- Where a path leads: into the tree along a row of names from its top, or to a directory that
does not belong to the tree. -/
inductive Place
  | inside (names : List String)
  | outside
deriving DecidableEq, Repr

/-- What lies at the end of a row of names. -/
def entry? (t : FileTree) (names : List String) : Option EntryKind :=
  if (t.files.lookup names).isSome then some .file
  else if names.isEmpty || t.files.any (fun file => names.isPrefixOf file.1) then some .directory
  else none

/-- What lies at a place. -/
def kindAt? (t : FileTree) : Place → Option EntryKind
  | .inside names => t.entry? names
  | .outside => some .directory

/-- The place above a directory. -/
def Place.parent : Place → Place
  | .inside [] | .outside => .outside
  | .inside names => .inside names.dropLast

/-- The place of a name in a directory. Nothing outside of the tree has a name. -/
def childAt? (t : FileTree) (place : Place) (name : String) : Option Place :=
  match place with
  | .outside => none
  | .inside names => (t.entry? (names ++ [name])).map fun _ => .inside (names ++ [name])

/-- The place that a row of steps leads to. Every step starts in a directory and ends at what
exists. -/
def walk? (t : FileTree) : Place → List String → Option Place
  | place, [] => some place
  | place, step :: steps =>
    if t.kindAt? place != some .directory then none
    else if step = "" ∨ step = "." then walk? t place steps
    else if step = ".." then walk? t place.parent steps
    else
      match t.childAt? place step with
      | none => none
      | some child => walk? t child steps

/-- The place that a path leads to. A path with a slash at its start begins outside of the tree. -/
def resolve? (t : FileTree) (path : String) : Option Place :=
  if path.isEmpty then none
  else t.walk? (if path.front == '/' then .outside else .inside []) (path.splitOn "/")

/-- The name in a directory through which a file is reached, if it is below the directory. -/
def childOf? (names : List String) (file : List String) : Option String :=
  if names.isPrefixOf file then file[names.length]? else none

/-- The names in the directory at a place. -/
def childrenAt (t : FileTree) : Place → List String
  | .inside names => (t.files.filterMap fun file => childOf? names file.1).eraseDups
  | .outside => []

/-- The text of the file at a place. -/
def textAt? (t : FileTree) : Place → Option String
  | .inside names => t.files.lookup names
  | .outside => none

/-- Access to the files of a tree, whose top is the current directory. -/
def fileSystem (t : FileTree) : FileSystem Id where
  kind? path := (t.resolve? path).bind t.kindAt?
  children path := ((t.resolve? path).map t.childrenAt).getD []
  read? path := (t.resolve? path).bind t.textAt?

end FileTree

end Retarget
