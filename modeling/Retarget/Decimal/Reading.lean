import Retarget.Decimal.Binary64
import Retarget.Text.DecimalDigit

set_option autoImplicit false

/-!
# Reading floating-point numbers

A numeral is digits with an optional point among or around them and an optional exponent, after an
optional sign; `inf`, `infinity` and `nan` in any case are numerals too. It reads as the number
nearest to the decimal it denotes.

## Main definitions

* `Retarget.Binary64.ofText?` — the number a numeral denotes.
-/

namespace Retarget.Binary64

open Retarget.Text

/-- An exponent: an optional sign and at least one digit, and nothing else. -/
def exponent? (cs : List Char) : Option Int :=
  let (negative, digits) :=
    match cs with
    | '-' :: rest => (true, rest)
    | '+' :: rest => (false, rest)
    | rest => (false, rest)
  if digits.isEmpty || !digits.all Char.isDigit then none
  else
    let n : Int := natOfDigits digits
    some (if negative then -n else n)

/-- The digits behind the point, with the text behind them, where there is a point. -/
def fractionDigits : List Char → List Char × List Char
  | [] => ([], [])
  | c :: cs =>
    if c = '.' then (cs.takeWhile Char.isDigit, cs.dropWhile Char.isDigit) else ([], c :: cs)

/-- The number of a decimal numeral without a sign. -/
def ofUnsigned? (cs : List Char) : Option Binary64 :=
  let whole := cs.takeWhile Char.isDigit
  let (fraction, rest) := fractionDigits (cs.dropWhile Char.isDigit)
  if whole.isEmpty && fraction.isEmpty then none
  else
    let digits := natOfDigits (whole ++ fraction)
    let places : Int := fraction.length
    match rest with
    | [] => some (ofDecimal digits (-places))
    | e :: rest =>
      if e = 'e' || e = 'E' then (exponent? rest).map fun x => ofDecimal digits (x - places)
      else none

/-- The number of a numeral without a sign, a decimal or a name. -/
def ofMagnitude? (cs : List Char) : Option Binary64 :=
  let name := String.ofList (cs.map Char.toLower)
  if name == "inf" || name == "infinity" then some infinity
  else if name == "nan" then some nan
  else ofUnsigned? cs

/-- The number that a numeral denotes. -/
def ofText? (text : String) : Option Binary64 :=
  match text.toList with
  | '-' :: cs => (ofMagnitude? cs).map neg
  | '+' :: cs => ofMagnitude? cs
  | cs => ofMagnitude? cs

end Retarget.Binary64
