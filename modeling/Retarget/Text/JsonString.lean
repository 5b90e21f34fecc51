import Retarget.Text.Scan

set_option autoImplicit false

/-!
# Strings in double quotes

The escapes of JSON, which are escapes of JavaScript too. Of what is written only what must be
escaped is: the quote, the backslash and the control characters; all else stands for itself. Any
character may be read as an escape, and one beyond the basic plane as a pair of surrogates.

The body of a string is what stands between its quotes. A body is well formed where all of its
escapes are; it denotes no text where a surrogate in it has no partner.

## Main definitions

* `Retarget.JsonString.body` — a text with its escapes.
* `Retarget.JsonString.quote` — a text as a JSON string.
* `Retarget.JsonString.scanBody` — the body of a string, up to and without the closing quote.
* `Retarget.JsonString.text?` — the text that a body denotes.
-/

namespace Retarget.JsonString

/-! ## Writing -/

/-- Two lower-case hexadecimal digits of a small number. -/
def twoHexDigits (n : Nat) : List Char := [Nat.digitChar (n / 16), Nat.digitChar (n % 16)]

/-- A character inside double quotes. -/
def escaped (c : Char) : List Char :=
  if c = '\x22' ∨ c = '\x5c' then ['\x5c', c]
  else if c = '\n' then ['\x5c', 'n']
  else if c = '\r' then ['\x5c', 'r']
  else if c = '\t' then ['\x5c', 't']
  else if c = '\x08' then ['\x5c', 'b']
  else if c = '\x0c' then ['\x5c', 'f']
  else if c.toNat < 32 then ['\x5c', 'u', '0', '0'] ++ twoHexDigits c.toNat
  else [c]

/-- A text with its escapes, as it stands between the quotes. -/
def body (s : String) : List Char := s.toList.flatMap escaped

/-- A string in double quotes. -/
def quote (s : String) : String := "\x22" ++ String.ofList (body s) ++ "\x22"

/-! ## Reading -/

/-- The character of an escape of one letter. -/
def simpleEscape? (letter : Char) : Option Char :=
  [('\x22', '\x22'), ('\x5c', '\x5c'), ('/', '/'), ('b', '\x08'), ('f', '\x0c'), ('n', '\n'),
   ('r', '\r'), ('t', '\t')].lookup letter

/-- The value of a hexadecimal digit in either case. -/
def hexDigit? (c : Char) : Option Nat :=
  if '0' ≤ c ∧ c ≤ '9' then some (c.toNat - '0'.toNat)
  else if 'a' ≤ c ∧ c ≤ 'f' then some (c.toNat - 'a'.toNat + 10)
  else if 'A' ≤ c ∧ c ≤ 'F' then some (c.toNat - 'A'.toNat + 10)
  else none

/-- The value of four hexadecimal digits. -/
def fourHexDigits? (a b c d : Char) : Option Nat := do
  let a ← hexDigit? a
  let b ← hexDigit? b
  let c ← hexDigit? c
  let d ← hexDigit? d
  return ((a * 16 + b) * 16 + c) * 16 + d

/-- The body of a string whose opening quote is read, and the text behind its closing quote. A
control character has to be escaped. -/
def scanBody : Scan
  | [] => none
  | c :: cs =>
    if c = '\x22' then some ([], cs)
    else if c = '\x5c' then
      match cs with
      | 'u' :: h₁ :: h₂ :: h₃ :: h₄ :: cs =>
        match fourHexDigits? h₁ h₂ h₃ h₄, scanBody cs with
        | some _, some (taken, rest) => some (c :: 'u' :: h₁ :: h₂ :: h₃ :: h₄ :: taken, rest)
        | _, _ => none
      | letter :: cs =>
        match simpleEscape? letter, scanBody cs with
        | some _, some (taken, rest) => some (c :: letter :: taken, rest)
        | _, _ => none
      | [] => none
    else if c.toNat < 32 then none
    else
      match scanBody cs with
      | some (taken, rest) => some (c :: taken, rest)
      | none => none

/-- A 16-bit code unit that starts a pair. -/
def isHighSurrogate (n : Nat) : Bool := 0xD800 ≤ n && n < 0xDC00

/-- A 16-bit code unit that ends a pair. -/
def isLowSurrogate (n : Nat) : Bool := 0xDC00 ≤ n && n < 0xE000

/-- The characters that a body denotes, if its escapes denote characters. -/
def chars? : List Char → Option (List Char)
  | [] => some []
  | c :: cs =>
    if c = '\x5c' then
      match cs with
      | 'u' :: h₁ :: h₂ :: h₃ :: h₄ :: cs =>
        match fourHexDigits? h₁ h₂ h₃ h₄ with
        | none => none
        | some high =>
          if isHighSurrogate high then
            match cs with
            | '\x5c' :: 'u' :: l₁ :: l₂ :: l₃ :: l₄ :: cs =>
              match fourHexDigits? l₁ l₂ l₃ l₄ with
              | none => none
              | some low =>
                if isLowSurrogate low then
                  (chars? cs).map
                    (Char.ofNat (0x10000 + (high - 0xD800) * 1024 + (low - 0xDC00)) :: ·)
                else none
            | _ => none
          else if isLowSurrogate high then none
          else (chars? cs).map (Char.ofNat high :: ·)
      | letter :: cs =>
        match simpleEscape? letter with
        | none => none
        | some d => (chars? cs).map (d :: ·)
      | [] => none
    else (chars? cs).map (c :: ·)

/-- The text that a body denotes, if its escapes denote characters. -/
def text? (body : List Char) : Option String := (chars? body).map String.ofList

end Retarget.JsonString
