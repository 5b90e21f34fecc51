import Retarget.Text.JsonString

set_option autoImplicit false

/-!
# JSON documents

A document is kept as it is written but for the blanks in it: numbers keep their digits, strings
their escapes, and objects all of their members in order, also those of the same key. What a
repeated key means is left to whoever reads the document.

## Main definitions

* `Retarget.Json` — a document.
* `Retarget.Json.ofText`, `Retarget.Json.text?` — a text as a document, and back.
* `Retarget.Json.render` — a document over several lines.
-/

namespace Retarget

/-- A JSON document. -/
inductive Json
  | null
  | bool (value : Bool)
  /-- A number by its digits, sign, point and exponent. -/
  | number (digits : List Char)
  /-- A string by what stands between its quotes. -/
  | string (body : List Char)
  | array (items : List Json)
  /-- The members, each with what stands between the quotes of its key. -/
  | object (members : List (List Char × Json))
deriving Repr, Inhabited

namespace Json

/-- A text as a document. -/
def ofText (s : String) : Json := .string (JsonString.body s)

/-- An integer as a document. -/
def ofInt (n : Int) : Json := .number (toString n).toList

/-- An object with the given keys. -/
def ofMembers (members : List (String × Json)) : Json :=
  .object (members.map fun (key, value) => (JsonString.body key, value))

/-- The text that a document denotes, where it is a string that denotes one. -/
def text? : Json → Option String
  | .string body => JsonString.text? body
  | _ => none

/-- The items of an array. -/
def items? : Json → Option (List Json)
  | .array items => some items
  | _ => none

/-- The members of an object whose keys all denote texts. -/
def members? : Json → Option (List (String × Json))
  | .object members => members.mapM fun (key, value) => (JsonString.text? key).map (·, value)
  | _ => none

/-! ## Rendering -/

/-- A new line at a depth of nesting. -/
def newLine (depth : Nat) : String := "\n" ++ "".pushn ' ' (2 * depth)

/-- Parts on lines of their own between two brackets, which stand together where there are no
parts. -/
def bracketed (depth : Nat) (opening closing : String) : List String → String
  | [] => opening ++ closing
  | parts =>
    opening ++ newLine (depth + 1) ++ ("," ++ newLine (depth + 1)).intercalate parts ++
      newLine depth ++ closing

mutual

/-- A document over several lines, two blanks for each level of nesting; the first line stands
where the document starts. -/
def render (depth : Nat) : Json → String
  | .null => "null"
  | .bool value => toString value
  | .number digits => String.ofList digits
  | .string body => "\x22" ++ String.ofList body ++ "\x22"
  | .array items => bracketed depth "[" "]" (renderItems (depth + 1) items)
  | .object members => bracketed depth "\x7b" "\x7d" (renderMembers (depth + 1) members)

/-- The items of an array, each over several lines. -/
def renderItems (depth : Nat) : List Json → List String
  | [] => []
  | item :: items => item.render depth :: renderItems depth items

/-- The members of an object, each over several lines. -/
def renderMembers (depth : Nat) : List (List Char × Json) → List String
  | [] => []
  | (key, value) :: members =>
    ("\x22" ++ String.ofList key ++ "\x22: " ++ value.render depth) :: renderMembers depth members

end

end Json

end Retarget
