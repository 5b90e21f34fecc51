import Retarget.Decimal.Binary64

set_option autoImplicit false

/-!
# Literals

The constants that a source text can hold. Dates, datetimes and durations keep their ISO 8601
text.

## Main definitions

* `Retarget.Literal` — a constant of the language.
* `Retarget.greatestInt` — the greatest integer of the language, whose integers have 64 bits.
-/

namespace Retarget

/-- The greatest integer of the language. -/
def greatestInt : Nat := 9223372036854775807

/-- The least integer of the language. -/
def leastInt : Int := -9223372036854775808

/-- A constant. -/
inductive Literal
  | int (value : Int)
  | float (value : Binary64)
  | bool (value : Bool)
  | string (value : String)
  /-- A calendar date such as `2024-01-15`. -/
  | date (iso : String)
  /-- A date and a time of day such as `2024-01-15T10:30:00Z`. -/
  | dateTime (iso : String)
  /-- A length of time such as `P1DT2H`. -/
  | duration (iso : String)
  | null
deriving DecidableEq, Repr, Inhabited

/-- The text of a string constant. -/
def Literal.string? : Literal → Option String
  | .string s => some s
  | _ => none

end Retarget
