import Retarget.FileSystem
import Retarget.Glob
import Retarget.Text.Order

set_option autoImplicit false

/-!
# The paths that match a pattern

A component without wildcards is looked up, any other is matched against the names in a directory.
The paths that match come in ascending order of their components, a directory before what is in it.

## Main definitions

* `Retarget.Glob.search` — the paths that match a pattern.
-/

namespace Retarget.Glob

variable {m : Type → Type} [Monad m]

/-- The path of a name in a directory. -/
def join (directory name : String) : String :=
  if directory.isEmpty || directory.endsWith "/" then directory ++ name
  else directory ++ "/" ++ name

/-- The path is one of the current directory, which is left out of the paths of its entries. -/
def isCurrent (path : String) : Bool :=
  match path.splitOn "/" with
  | [] => false
  | first :: rest => first == "." && rest.all fun part => part == "." || part == ""

/-- The path of an entry of a directory. -/
def entryPath (directory name : String) : String :=
  if isCurrent directory then name else join directory name

/-- The names of a directory itself and of the one above it, which only a component that starts
with a dot matches. -/
def dotNames : List Part → List String
  | .char '.' :: parts => ["..", "."].filter fun name => accepts (.char '.' :: parts) name.toList
  | _ => []

/-- The paths at and below a path that all components are used up for: the path itself, unless
only directories can match and it is none. -/
def found (fs : FileSystem m) (directoriesOnly : Bool) (path : String) : m (List String) := do
  if !directoriesOnly || (← fs.isDirectory path) then return [path] else return []

/-- The matches at and below a path whose last name is yet to be matched against the first
component, where `below` finds the matches below a directory. -/
def matchEntry (fs : FileSystem m) (directoriesOnly : Bool)
    (below : List Component → String → m (List String)) (components : List Component)
    (path name : String) : m (List String) :=
  match components with
  | [] => return []
  | component :: rest =>
    if component.accepts name then
      if rest.isEmpty then found fs directoriesOnly path else below rest path
    else return []

/-- The matches at and below an entry of a directory. At a component for any depth a directory is
matched against what is behind the component, and so is everything below it. -/
def visitEntry (fs : FileSystem m) (directoriesOnly : Bool)
    (below : List Component → String → m (List String)) (components : List Component)
    (path name : String) : m (List String) := do
  match components with
  | .anyDepth :: rest =>
    let rest := rest.dropWhile (· == .anyDepth)
    if ← fs.isDirectory path then
      let here ← if rest.isEmpty then pure [path]
        else matchEntry fs directoriesOnly below rest path name
      return here ++ (← below (.anyDepth :: rest) path)
    else matchEntry fs directoriesOnly below rest path name
  | components => matchEntry fs directoriesOnly below components path name

/-- The matches below a directory. The fuel bounds how deep the search goes. -/
def searchBelow (fs : FileSystem m) (directoriesOnly : Bool) :
    Nat → List Component → String → m (List String)
  | 0, _, _ => return []
  | _, [], _ => return []
  | fuel + 1, component :: rest, path => do
    let below := searchBelow fs directoriesOnly fuel
    let next (path : String) : m (List String) :=
      if rest.isEmpty then found fs directoriesOnly path else below rest path
    let entries (dots : List String) : m (List String) := do
      if ← fs.isDirectory path then
        let special ← dots.mapM fun name => next (join path name)
        let inside ← (Text.inOrder (← fs.children path)).mapM fun name =>
          visitEntry fs directoriesOnly below (component :: rest) (entryPath path name) name
        return special.flatten ++ inside.flatten
      else return []
    match component with
    | .anyDepth => entries []
    | .name parts =>
      match plain? parts with
      | none => entries (dotNames parts)
      | some cs =>
        let name := String.ofList cs
        let path' := entryPath path name
        let present ←
          if name == "." || name == ".." then fs.isDirectory path
          else do pure (← fs.kind? path').isSome
        if present then next path' else return []

/-- No path has more components than this. -/
def greatestDepth : Nat := 4096

/-- The paths that match a pattern. -/
def search (fs : FileSystem m) (glob : Glob) : m (List String) :=
  searchBelow fs glob.directoriesOnly (glob.components.length + greatestDepth) glob.components
    (if glob.absolute then "/" else ".")

end Retarget.Glob
