set_option autoImplicit false

/-!
# Names in order

## Main definitions

* `Retarget.Text.inOrder` — names in ascending order of their characters.
-/

namespace Retarget.Text

/-- A row of names with one more, in ascending order if the row is. -/
def insertInOrder (name : String) : List String → List String
  | [] => [name]
  | n :: ns => if n < name then n :: insertInOrder name ns else name :: n :: ns

/-- The names in ascending order, each as often as before. -/
def inOrder (names : List String) : List String := names.foldr insertInOrder []

end Retarget.Text
