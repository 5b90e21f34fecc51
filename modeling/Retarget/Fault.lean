import Retarget.Position

set_option autoImplicit false

/-!
# Faults of a source text

What can be wrong with a source text, as a cause; the wording stands in one place.

## Main definitions

* `Retarget.SyntaxFault` — a cause, and `SyntaxFault.message`, its wording.
* `Retarget.Failure` — a fault at a byte offset, as scanning and parsing report it.
* `Retarget.SyntaxError` — a fault at a position of the source.
-/

namespace Retarget

/-- What the grammar wants where something else stands. -/
inductive Expectation
  | endOfInput
  | expression
  | identifier
  | fieldName
  /-- A keyword or punctuator. -/
  | word (text : String)
deriving DecidableEq, Repr

/-- The wording of an expectation. -/
def Expectation.text : Expectation → String
  | .endOfInput => "end of input"
  | .expression => "an expression"
  | .identifier => "an identifier"
  | .fieldName => "a field name"
  | .word text => s!"`{text}`"

/-- What is wrong with a source text. -/
inductive SyntaxFault
  | invalidCharacter (c : Char)
  /-- A number runs into a name. -/
  | invalidNumber
  | integerTooLarge (text : String)
  | floatOutOfRange (text : String)
  | unterminatedString
  | unknownEscape (c : Char)
  | invalidUnicodeEscape
  /-- What follows `D` has not the shape of a date. -/
  | malformedDate
  /-- A date or datetime runs into a name. -/
  | danglingDate
  | noSuchDate (text : String)
  | noSuchTime (text : String)
  | malformedDuration
  /-- Something stands where the grammar wants something else; nothing stands at the end. -/
  | unexpected (wanted : Expectation) (found : Option String)
  | duplicateField (name : String)
  | duplicateParameter (name : String)
  | selectorArity (typeName : String) (count : Nat)
deriving DecidableEq, Repr

/-- The wording of a fault. -/
def SyntaxFault.message : SyntaxFault → String
  | .invalidCharacter c => s!"invalid character `{c}`"
  | .invalidNumber => "invalid numeric literal"
  | .integerTooLarge text => s!"invalid integer `{text}`: number too large to fit in target type"
  | .floatOutOfRange text => s!"float `{text}` is out of range"
  | .unterminatedString => "unterminated string literal"
  | .unknownEscape c => s!"unknown escape `\\{c}`"
  | .invalidUnicodeEscape => "invalid unicode escape, expected `\\u\x7bXXXX\x7d`"
  | .malformedDate => "invalid date literal, expected `DYYYY-MM-DD`"
  | .danglingDate => "invalid date literal"
  | .noSuchDate text => s!"invalid calendar date `{text}`"
  | .noSuchTime text => s!"invalid time of day `{text}`"
  | .malformedDuration => "invalid ISO-8601 duration literal"
  | .unexpected wanted none => s!"expected {wanted.text}, found end of input"
  | .unexpected wanted (some found) => s!"expected {wanted.text}, found `{found}`"
  | .duplicateField name => s!"duplicate field `{name}`"
  | .duplicateParameter name => s!"duplicate parameter `{name}`"
  | .selectorArity typeName count =>
    s!"`{typeName}` selector takes one value, found {count} arguments"

/-- A fault at a byte offset. -/
structure Failure where
  offset : Nat
  fault : SyntaxFault
deriving DecidableEq, Repr

/-- A fault at a position of the source. -/
structure SyntaxError where
  position : Position
  fault : SyntaxFault
deriving DecidableEq, Repr

/-- The fault with its offset resolved against the source. -/
def Failure.locate (source : String) (f : Failure) : SyntaxError :=
  ⟨Position.locate source f.offset, f.fault⟩

/-- The wording of a syntax error, with its line and column. -/
def SyntaxError.message (e : SyntaxError) : String :=
  s!"syntax error at {e.position.text}: {e.fault.message}"

end Retarget
