import Retarget.Json

set_option autoImplicit false

/-!
# Reading JSON

A reader by recursive descent. What stands behind the document is not looked at. The fuel bounds
the nesting of the calls: every second call takes a character of the text, so twice as much fuel
as there are characters is never used up.

## Main definitions

* `Retarget.Json.read?` — the document at the start of a text.
-/

namespace Retarget.Json

/-- The blanks between the parts of a document. -/
def isBlank (c : Char) : Bool := c == ' ' || c == '\n' || c == '\t' || c == '\r'

/-- The text behind the blanks at its start. -/
def skipBlanks (cs : List Char) : List Char := cs.dropWhile isBlank

/-- The whole part of a number: a zero alone, or digits that do not start with one. -/
def scanWhole : Scan :=
  Scan.either (Scan.char '0')
    (Scan.seq (Scan.one fun c => '1' ≤ c && c ≤ '9')
      (Scan.optional (Scan.some1 Char.isDigit)))

/-- A number: a whole part, perhaps with a sign, a fraction or an exponent. -/
def scanNumber : Scan :=
  Scan.all
    [Scan.optional (Scan.char '-'), scanWhole,
     Scan.optional (Scan.seq (Scan.char '.') (Scan.some1 Char.isDigit)),
     Scan.optional
      (Scan.all
        [Scan.one fun c => c == 'e' || c == 'E',
         Scan.optional (Scan.one fun c => c == '+' || c == '-'), Scan.some1 Char.isDigit])]

/-- The text behind a word at its start. -/
def afterWord? : List Char → List Char → Option (List Char)
  | [], cs => some cs
  | _ :: _, [] => none
  | w :: ws, c :: cs => if w = c then afterWord? ws cs else none

mutual

/-- The document at the start of a text, and the text behind it. -/
def readValue : Nat → List Char → Option (Json × List Char)
  | 0, _ => none
  | fuel + 1, cs =>
    match skipBlanks cs with
    | [] => none
    | c :: cs =>
      if c = '\x22' then
        (JsonString.scanBody cs).map fun (body, rest) => (.string body, rest)
      else if c = '[' then
        match skipBlanks cs with
        | ']' :: rest => some (.array [], rest)
        | cs => (readItems fuel cs).map fun (items, rest) => (.array items, rest)
      else if c = '\x7b' then
        match skipBlanks cs with
        | '\x7d' :: rest => some (.object [], rest)
        | cs => (readMembers fuel cs).map fun (members, rest) => (.object members, rest)
      else if c = 'n' then (afterWord? ['u', 'l', 'l'] cs).map (.null, ·)
      else if c = 't' then (afterWord? ['r', 'u', 'e'] cs).map (.bool true, ·)
      else if c = 'f' then (afterWord? ['a', 'l', 's', 'e'] cs).map (.bool false, ·)
      else (scanNumber (c :: cs)).map fun (digits, rest) => (.number digits, rest)

/-- The items of an array, of which there is at least one, up to its closing bracket. -/
def readItems : Nat → List Char → Option (List Json × List Char)
  | 0, _ => none
  | fuel + 1, cs =>
    match readValue fuel cs with
    | none => none
    | some (item, cs) =>
      match skipBlanks cs with
      | ']' :: rest => some ([item], rest)
      | ',' :: cs => (readItems fuel cs).map fun (items, rest) => (item :: items, rest)
      | _ => none

/-- The members of an object, of which there is at least one, up to its closing brace. -/
def readMembers : Nat → List Char → Option (List (List Char × Json) × List Char)
  | 0, _ => none
  | fuel + 1, cs =>
    match skipBlanks cs with
    | '\x22' :: cs =>
      match JsonString.scanBody cs with
      | none => none
      | some (key, cs) =>
        match skipBlanks cs with
        | ':' :: cs =>
          match readValue fuel cs with
          | none => none
          | some (value, cs) =>
            match skipBlanks cs with
            | '\x7d' :: rest => some ([(key, value)], rest)
            | ',' :: cs =>
              (readMembers fuel cs).map fun (members, rest) => ((key, value) :: members, rest)
            | _ => none
        | _ => none
    | _ => none

end

/-- The document at the start of a text, whatever stands behind it. -/
def read? (text : String) : Option Json :=
  let cs := text.toList
  (readValue (2 * cs.length + 2) cs).map Prod.fst

end Retarget.Json
