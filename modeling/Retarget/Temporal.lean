import Retarget.Literal
import Retarget.Text.DecimalDigit
import Retarget.Text.Scan

set_option autoImplicit false

/-!
# Dates, times of day and durations

The ISO 8601 shapes that literals are written in, and the checks that a shape names an existing
day or time. Shapes admit the digits of every script; the checks admit ASCII digits only.

## Main definitions

* `Retarget.Temporal.date`, `clock`, `zone`, `duration` — the shapes.
* `Retarget.Temporal.isCalendarDate`, `isTimeOfDay` — the checks.
* `Retarget.Temporal.wholeDays?` — the day count of a duration of days or weeks only.
* `Retarget.Temporal.inUtc` — a datetime with an explicit offset from UTC.
-/

namespace Retarget.Temporal

open Retarget.Text

/-! ## Shapes -/

/-- A digit of any script. -/
def digit : Scan := Scan.one isDecimalDigit

/-- Two digits. -/
def twoDigits : Scan := Scan.seq digit digit

/-- The shape `YYYY-MM-DD`. -/
def date : Scan :=
  Scan.all [twoDigits, twoDigits, Scan.char '-', twoDigits, Scan.char '-', twoDigits]

/-- The shape `.f` of a fraction of one or more digits. -/
def fraction : Scan := Scan.seq (Scan.char '.') (Scan.some1 isDecimalDigit)

/-- The shape `hh:mm`, `hh:mm:ss` or `hh:mm:ss.f`. -/
def clock : Scan :=
  Scan.all [twoDigits, Scan.char ':', twoDigits,
    Scan.optional (Scan.all [Scan.char ':', twoDigits, Scan.optional fraction])]

/-- A plus or minus sign. -/
def isSign (c : Char) : Bool := c == '+' || c == '-'

/-- The shape `Z`, `+hh:mm` or `-hh:mm`. -/
def zone : Scan :=
  Scan.either (Scan.char 'Z')
    (Scan.all [Scan.one isSign, twoDigits, Scan.char ':', twoDigits])

/-- A count of the unit that the letter stands for. -/
def component (letter : Char) : Scan := Scan.seq (Scan.some1 isDecimalDigit) (Scan.char letter)

/-- A count of seconds, which may have a fraction. -/
def seconds : Scan :=
  Scan.all [Scan.some1 isDecimalDigit, Scan.optional fraction, Scan.char 'S']

/-- The shape `PnYnMnWnDTnHnMnS`, in which every component and the part from `T` on may be
missing. -/
def duration : Scan :=
  Scan.all [Scan.char 'P', Scan.optional (component 'Y'), Scan.optional (component 'M'),
    Scan.optional (component 'W'), Scan.optional (component 'D'),
    Scan.optional (Scan.all [Scan.char 'T', Scan.optional (component 'H'),
      Scan.optional (component 'M'), Scan.optional seconds])]

/-! ## Checks -/

/-- The number of a nonempty row of ASCII digits. -/
def number? (cs : List Char) : Option Nat :=
  if cs.isEmpty || !cs.all Char.isDigit then none else some (natOfDigits cs)

/-- A leap year of the Gregorian calendar, reckoned backwards too. -/
def isLeapYear (year : Nat) : Bool :=
  year % 4 == 0 && (year % 100 != 0 || year % 400 == 0)

/-- How many days a month has; none for what is no month. -/
def daysInMonth (year month : Nat) : Nat :=
  if month = 2 then (if isLeapYear year then 29 else 28)
  else if month ∈ [4, 6, 9, 11] then 30
  else if 1 ≤ month ∧ month ≤ 12 then 31
  else 0

/-- The text, which has the shape of a date, names a day of the calendar in ASCII digits. -/
def isCalendarDate (cs : List Char) : Bool :=
  match number? (cs.take 4), number? ((cs.drop 5).take 2), number? (cs.drop 8) with
  | some year, some month, some day => 1 ≤ day && day ≤ daysInMonth year month
  | _, _, _ => false

/-- The text is missing, or a point followed by ASCII digits. -/
def isFraction : List Char → Bool
  | [] => true
  | _ :: digits => (number? digits).isSome

/-- The text is missing, or a colon, seconds up to the leap second sixty, and a fraction. -/
def isSecondsPart : List Char → Bool
  | [] => true
  | _ :: cs => (number? (cs.take 2)).any (· ≤ 60) && isFraction (cs.drop 2)

/-- The text, which has the shape of a clock time, names a time of day in ASCII digits. -/
def isTimeOfDay (cs : List Char) : Bool :=
  (number? (cs.take 2)).any (· ≤ 23) && (number? ((cs.drop 3).take 2)).any (· ≤ 59) &&
    isSecondsPart (cs.drop 5)

/-! ## Literals as emitted -/

/-- The count, where it is an integer of the language. -/
def bounded? (n : Nat) : Option Nat := if n ≤ greatestInt then some n else none

/-- The number of days of a duration that is a count of days (`P3D`) or of weeks (`P2W`) and
nothing else; none where it is no integer of the language. -/
def wholeDays? (iso : String) : Option Nat :=
  match iso.toList with
  | 'P' :: cs =>
    match number? (cs.takeWhile Char.isDigit), cs.dropWhile Char.isDigit with
    | some n, ['D'] => bounded? n
    | some n, ['W'] => bounded? (7 * n)
    | _, _ => none
  | _ => none

/-- The day count of a literal, where it is a duration of whole days. -/
def literalDays? : Literal → Option Nat
  | .duration iso => wholeDays? iso
  | _ => none

/-- An offset from UTC read from its end: `hh`, `hhmm` or `hh:mm` after a sign. -/
def offsetBackwards : Scan :=
  Scan.all [twoDigits, Scan.optional (Scan.seq (Scan.optional (Scan.char ':')) twoDigits),
    Scan.one isSign]

/-- The text ends in `Z` or in an offset from UTC. -/
def isZoned (iso : String) : Bool :=
  let backwards := iso.toList.reverse
  backwards.head? == some 'Z' || (offsetBackwards backwards).isSome

/-- A datetime with an explicit offset from UTC; one without an offset is in UTC. -/
def inUtc (iso : String) : String := if isZoned iso then iso else iso ++ "Z"

end Retarget.Temporal
