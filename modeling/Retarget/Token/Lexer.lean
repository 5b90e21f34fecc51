import Retarget.Decimal.Reading
import Retarget.Fault
import Retarget.Temporal
import Retarget.Token

set_option autoImplicit false

/-!
# From text to tokens

Blanks and comments separate tokens. Each token is the longest one that its first characters admit,
and the temporal literals are checked here, so that a day that does not exist is a fault of the
text at a known place.

## Main definitions

* `Retarget.Lexer.lexeme` — the token at the start of a text: its kind and its length.
* `Retarget.tokenize` — all tokens of a source, the last one marking its end.
-/

namespace Retarget

namespace Lexer

/-! ## Characters -/

/-- The single quote. -/
def apostrophe : Char := '\x27'

/-- The double quote. -/
def doubleQuote : Char := '\x22'

/-- The backslash. -/
def backslash : Char := '\x5c'

/-- The characters that only separate tokens: space, tab, newline, form feed, carriage return. -/
def isBlank (c : Char) : Bool := c ∈ [' ', '\t', '\n', '\x0c', '\r']

/-- A character that a name can start with. -/
def isIdentStart (c : Char) : Bool := c.isAlpha || c == '_'

/-- A character that a name can go on with. -/
def isIdentPart (c : Char) : Bool := c.isAlphanum || c == '_'

/-- The text goes on with a character of a name. -/
def runsOn (rest : List Char) : Bool := rest.head?.any isIdentPart

/-! ## Results -/

/-- The kind of a token and how many characters it has, or a fault at a byte offset from the start
of the token. -/
abbrev Found := Except Failure (Token.Kind × Nat)

/-- A fault at the start of the token. -/
def refuse (fault : SyntaxFault) : Found := .error ⟨0, fault⟩

/-- A literal that takes all of `taken`. -/
def literal (value : Literal) (taken : List Char) : Found := .ok (.literal value, taken.length)

/-! ## Numbers -/

/-- A mark of an exponent. -/
def isExponentMark (c : Char) : Bool := c == 'e' || c == 'E'

/-- Digits, a fraction if a digit follows the point, and an exponent if it has a digit. -/
def numeral : Scan :=
  Scan.all [Scan.some1 Char.isDigit,
    Scan.optional (Scan.seq (Scan.char '.') (Scan.some1 Char.isDigit)),
    Scan.optional (Scan.all [Scan.one isExponentMark, Scan.optional (Scan.one Temporal.isSign),
      Scan.some1 Char.isDigit])]

/-- The value of a numeral: an integer where it is digits only. -/
def numeralValue (taken : List Char) : Found :=
  let text := String.ofList taken
  if taken.all Char.isDigit then
    let n := Text.natOfDigits taken
    if n ≤ greatestInt then literal (.int n) taken else refuse (.integerTooLarge text)
  else
    match Binary64.ofUnsigned? taken with
    | some x => if x.isFinite then literal (.float x) taken else refuse (.floatOutOfRange text)
    | none => refuse .invalidNumber

/-- The number at the start of a text, which starts with a digit. -/
def number (cs : List Char) : Found :=
  match numeral cs with
  | none => refuse .invalidNumber
  | some (taken, rest) =>
    if runsOn rest then .error ⟨byteLength taken, .invalidNumber⟩ else numeralValue taken

/-! ## Strings -/

/-- A hexadecimal digit. -/
def isHexDigit (c : Char) : Bool :=
  c.isDigit || ('a' ≤ c && c ≤ 'f') || ('A' ≤ c && c ≤ 'F')

/-- The value of a hexadecimal digit. -/
def hexValue (c : Char) : Nat :=
  if c.isDigit then c.toNat - '0'.toNat
  else if 'a' ≤ c then c.toNat - 'a'.toNat + 10
  else c.toNat - 'A'.toNat + 10

/-- The character with a code point, where the code point is a Unicode scalar value. -/
def scalar? (n : Nat) : Option Char := if n.isValidChar then some (Char.ofNat n) else none

/-- What one to six hexadecimal digits in braces denote, and how many characters that is. -/
def bracedScalar? (cs : List Char) : Option (Char × Nat) :=
  let digits := (cs.drop 1).takeWhile isHexDigit
  let close := ((cs.drop 1).dropWhile isHexDigit).head?
  if cs.head? = some '\x7b' ∧ close = some '\x7d' ∧ 1 ≤ digits.length ∧ digits.length ≤ 6 then
    (scalar? (digits.foldl (fun n d => 16 * n + hexValue d) 0)).map (·, digits.length + 2)
  else none

/-- The escapes of one character and what they denote. -/
def simpleEscape? (c : Char) : Option Char :=
  if c = backslash ∨ c = apostrophe ∨ c = doubleQuote then some c
  else if c = 'n' then some '\n'
  else if c = 't' then some '\t'
  else if c = 'r' then some '\r'
  else none

/-- What the escape at the start of a text, behind its backslash, denotes, and how many characters
it has there. -/
def escape (c : Char) (cs : List Char) : Except SyntaxFault (Char × Nat) :=
  match simpleEscape? c with
  | some d => .ok (d, 1)
  | none =>
    if c = 'u' then
      match bracedScalar? cs with
      | some (d, n) => .ok (d, n + 1)
      | none => .error .invalidUnicodeEscape
    else .error (.unknownEscape c)

/-- The characters up to the closing quote, escapes resolved, and how many characters stand there
with the quote. The first `skip` characters are counted only, since they belong to an escape that
has been resolved. `offset` is where the text stands from the start of the token. -/
def stringBody (quote : Char) : Nat → Nat → List Char → Except Failure (List Char × Nat)
  | _, _, [] => .error ⟨0, .unterminatedString⟩
  | offset, skip + 1, c :: cs =>
    match stringBody quote (offset + c.utf8Size) skip cs with
    | .error failure => .error failure
    | .ok (ds, count) => .ok (ds, count + 1)
  | offset, 0, c :: cs =>
    if c = quote then .ok ([], 1)
    else if c = backslash then
      match cs with
      | [] => .error ⟨0, .unterminatedString⟩
      | e :: more =>
        match escape e more with
        | .error fault => .error ⟨offset, fault⟩
        | .ok (d, length) =>
          match stringBody quote (offset + c.utf8Size) length (e :: more) with
          | .error failure => .error failure
          | .ok (ds, count) => .ok (d :: ds, count + 1)
    else
      match stringBody quote (offset + c.utf8Size) 0 cs with
      | .error failure => .error failure
      | .ok (ds, count) => .ok (c :: ds, count + 1)

/-- The string whose opening quote has been read. -/
def string (quote : Char) (cs : List Char) : Found :=
  match stringBody quote 1 0 cs with
  | .error failure => .error failure
  | .ok (ds, count) => .ok (.literal (.string (String.ofList ds)), count + 1)

/-! ## Dates and durations -/

/-- A time of day and an optional zone behind `T`. -/
def timePart : Scan := Scan.all [Scan.char 'T', Temporal.clock, Scan.optional Temporal.zone]

/-- The date or datetime behind a `D`. Its shape is settled first, then what follows it, then the
day, then the time of day. -/
def temporal (cs : List Char) : Found :=
  match Temporal.date cs with
  | none => refuse .malformedDate
  | some (day, afterDay) =>
    let (time, rest) := (timePart afterDay).getD ([], afterDay)
    let clock := ((Temporal.clock (time.drop 1)).map Prod.fst).getD []
    if runsOn rest then .error ⟨1 + byteLength (day ++ time), .danglingDate⟩
    else if !Temporal.isCalendarDate day then refuse (.noSuchDate (String.ofList day))
    else if time.isEmpty then
      .ok (.literal (.date (String.ofList day)), day.length + 1)
    else if !Temporal.isTimeOfDay clock then refuse (.noSuchTime (String.ofList clock))
    else .ok (.literal (.dateTime (String.ofList (day ++ time))), (day ++ time).length + 1)

/-- A `P` with this behind it starts a duration: a digit, or `T` and a digit. -/
def startsDuration : List Char → Bool
  | [] => false
  | c :: cs => c.isDigit || (c == 'T' && cs.head?.any Char.isDigit)

/-- The duration at the start of a text, its `P` included. It has a component, and one behind its
`T`; neither a name nor a point follows it. -/
def duration (cs : List Char) : Found :=
  match Temporal.duration cs with
  | none => refuse .malformedDuration
  | some (taken, rest) =>
    if byteLength taken < 3 || taken.getLast? == some 'T' || runsOn rest || rest.head? == some '.'
    then refuse .malformedDuration
    else literal (.duration (String.ofList taken)) taken

/-! ## Words and punctuators -/

/-- The name or keyword at the start of a text. -/
def word (cs : List Char) : Found :=
  let taken := cs.takeWhile isIdentPart
  let text := String.ofList taken
  match Keyword.ofText? text with
  | some k => .ok (.keyword k, taken.length)
  | none => .ok (.ident text, taken.length)

/-- The token that starts with `c`: its kind and how many characters it has. -/
def lexeme (c : Char) (cs : List Char) : Found :=
  if c.isDigit then number (c :: cs)
  else if c = apostrophe ∨ c = doubleQuote then string c cs
  else if c = 'D' ∧ cs.head?.any Char.isDigit then temporal cs
  else if c = 'P' ∧ startsDuration cs then duration (c :: cs)
  else if isIdentStart c then word (c :: cs)
  else
    match Punct.atStart? (c :: cs) with
    | some p => .ok (.punct p, p.text.length)
    | none => refuse (.invalidCharacter c)

/-- The tokens of a text that starts at a byte offset. The first `skip` characters are passed over,
since they belong to a comment or to a token that has been read. -/
def tokens : Nat → Nat → List Char → Except Failure (List Token)
  | offset, _, [] => .ok [Token.atEnd offset]
  | offset, skip + 1, c :: cs => tokens (offset + c.utf8Size) skip cs
  | offset, 0, c :: cs =>
    if isBlank c then tokens (offset + c.utf8Size) 0 cs
    else if c = '#' then tokens (offset + c.utf8Size) (cs.takeWhile (· != '\n')).length cs
    else
      match lexeme c cs with
      | .error ⟨within, fault⟩ => .error ⟨offset + within, fault⟩
      | .ok (kind, length) =>
        match tokens (offset + c.utf8Size) (length - 1) cs with
        | .error failure => .error failure
        | .ok ts => .ok (⟨kind, String.ofList (c :: cs.take (length - 1)), offset⟩ :: ts)

end Lexer

/-- The tokens of a source, the last one marking its end. -/
def tokenize (source : String) : Except SyntaxError (List Token) :=
  match Lexer.tokens 0 0 source.toList with
  | .ok ts => .ok ts
  | .error failure => .error (failure.locate source)

end Retarget
