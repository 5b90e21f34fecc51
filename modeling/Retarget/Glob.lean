set_option autoImplicit false

/-!
# Patterns of path components

A pattern is split at its slashes, and each component is matched against one name. In a component
`?` stands for any character, `*` for any characters, `[abc]` and `[a-c]` for one of those
characters and `[!abc]` for one of the others; everything else, braces included, stands for itself.
A component `**` stands for any number of directories. Names that start with a dot are not special.

## Main definitions

* `Retarget.Glob` — a pattern.
* `Retarget.Glob.ofText?` — the pattern of a text, unless a bracket has no partner or stars are
  out of place.
* `Retarget.Glob.accepts` — a row of parts matches a name.
-/

namespace Retarget

namespace Glob

/-- The characters from `first` to `last`. -/
structure CharRange where
  first : Char
  last : Char
deriving DecidableEq, Repr

/-- The character lies in the range. -/
def CharRange.has (r : CharRange) (c : Char) : Bool := r.first ≤ c && c ≤ r.last

/-- A part of a component. -/
inductive Part
  | char (c : Char)
  | anyChar
  | anyChars
  | oneOf (ranges : List CharRange)
  | noneOf (ranges : List CharRange)
deriving DecidableEq, Repr

/-- A component: directories at any depth, or one name. -/
inductive Component
  | anyDepth
  | name (parts : List Part)
deriving DecidableEq, Repr

end Glob

/-- A pattern: its components, from the root or from the current directory, and whether only
directories can match. -/
structure Glob where
  absolute : Bool
  components : List Glob.Component
  directoriesOnly : Bool
deriving DecidableEq, Repr

namespace Glob

/-! ## Reading patterns -/

/-- The ranges between two brackets. A hyphen makes a range where something stands on both of its
sides. -/
def ranges : List Char → List CharRange
  | a :: '-' :: b :: cs => ⟨a, b⟩ :: ranges cs
  | a :: cs => ⟨a, a⟩ :: ranges cs
  | [] => []

/-- The characters up to the next closing bracket. The first one is taken whatever it is. -/
def untilBracket? : List Char → Option (List Char)
  | [] => none
  | c :: cs => if cs.contains ']' then some (c :: cs.takeWhile (· != ']')) else none

/-- What stands behind the opening bracket of a class: the part, and how many characters the class
has behind the bracket. -/
def charClass? : List Char → Option (Part × Nat)
  | '!' :: cs => (untilBracket? cs).map fun inner => (.noneOf (ranges inner), inner.length + 2)
  | cs => (untilBracket? cs).map fun inner => (.oneOf (ranges inner), inner.length + 1)

/-- The parts of a component, given how many of its first characters belong to the part before.
Two stars in a row are out of place. -/
def parts? : Nat → List Char → Option (List Part)
  | _, [] => some []
  | skip + 1, _ :: cs => parts? skip cs
  | 0, c :: cs =>
    if c = '?' then (parts? 0 cs).map (.anyChar :: ·)
    else if c = '*' then
      if cs.head? = some '*' then none else (parts? 0 cs).map (.anyChars :: ·)
    else if c = '[' then
      match charClass? cs with
      | none => none
      | some (part, length) => (parts? length cs).map (part :: ·)
    else (parts? 0 cs).map (.char c :: ·)

/-- The component of a text without slashes. -/
def component? (cs : List Char) : Option Component :=
  if cs = ['*', '*'] then some .anyDepth else (parts? 0 cs).map .name

/-- The parts of a text between slashes; `current` is the start of the first one, backwards. A
slash at the end of the text ends the last part. -/
def splitSlashes (current : List Char) : List Char → List (List Char)
  | [] => if current.isEmpty then [] else [current.reverse]
  | c :: cs =>
    if c = '/' then current.reverse :: splitSlashes [] cs else splitSlashes (c :: current) cs

/-- The pattern of a text. -/
def ofText? (text : String) : Option Glob :=
  let cs := text.toList
  let absolute := cs.head? = some '/'
  ((splitSlashes [] (if absolute then cs.drop 1 else cs)).mapM component?).map fun components =>
    ⟨absolute, components, cs.getLast? = some '/'⟩

/-! ## Matching names -/

/-- What is left of a text after each number of its characters. -/
def suffixes : List Char → List (List Char)
  | [] => [[]]
  | c :: cs => (c :: cs) :: suffixes cs

/-- A row of parts matches a name. -/
def accepts : List Part → List Char → Bool
  | [], cs => cs.isEmpty
  | .anyChars :: parts, cs => (suffixes cs).any (accepts parts)
  | _ :: _, [] => false
  | .char d :: parts, c :: cs => c == d && accepts parts cs
  | .anyChar :: parts, _ :: cs => accepts parts cs
  | .oneOf ranges :: parts, c :: cs => ranges.any (·.has c) && accepts parts cs
  | .noneOf ranges :: parts, c :: cs => !ranges.any (·.has c) && accepts parts cs

/-- The text of a row of parts that all stand for themselves. -/
def plain? : List Part → Option (List Char)
  | [] => some []
  | .char c :: parts => (plain? parts).map (c :: ·)
  | _ :: _ => none

/-- A component matches a name. -/
def Component.accepts (component : Component) (name : String) : Bool :=
  match component with
  | .anyDepth => true
  | .name parts => Glob.accepts parts name.toList

end Glob

end Retarget
