import Retarget.Lowering
import Retarget.Text.Uppercase

set_option autoImplicit false

/-!
# Helpers

Code may call helper functions that its host supplies. Their names are agreed on here.

## Main definitions

* `Retarget.Helper.snake`, `Retarget.Helper.camel` — the helper of a call, in two spellings.
* `Retarget.Helper.selectorFunctions` — every call that a selector is lowered to.
* `Retarget.Helper.sorted` — a row of names as a set in order.
-/

namespace Retarget.Helper

/-- The helper of a call where names are spelled with underscores: `elo_as_int`. -/
def snake (function : String) : String := "elo_" ++ function

/-- The words between underscores, their first characters in upper case; `start` tells whether the
next character starts a word. -/
def capitalized : Bool → List Char → List Char
  | _, [] => []
  | start, c :: cs =>
    if c = '_' then capitalized true cs
    else (if start then Text.upper c else [c]) ++ capitalized false cs

/-- The helper of a call where names are spelled with capitals: `eloAsInt`. -/
def camel (function : String) : String :=
  "elo" ++ String.ofList (capitalized true function.toList)

/-- The selector calls of a type, one for each policy. -/
def selectorCalls (s : Selectable) : List String :=
  ["as_" ++ s.stem, "as_" ++ s.stem ++ "_or_null", "is_" ++ s.stem, "assert_" ++ s.stem]

/-- Every call that a selector is lowered to. -/
def selectorFunctions : List String := selectables.flatMap selectorCalls

/-- The names with one more, in ascending order and each of them once. -/
def insert (name : String) : List String → List String
  | [] => [name]
  | n :: ns =>
    if name < n then name :: n :: ns
    else if name = n then n :: ns
    else n :: insert name ns

/-- The names in ascending order and each of them once. -/
def sorted (names : List String) : List String := names.foldr insert []

end Retarget.Helper
