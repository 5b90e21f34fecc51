set_option autoImplicit false

/-!
# Binary floating-point numbers

A number is its 64-bit pattern. Magnitudes of finite numbers are exact multiples of `2 ^ (-1074)`,
the least positive number, so all arithmetic below is on natural numbers.

## Main definitions

* `Retarget.Binary64` — a bit pattern, with its sign, significand and scale.
* `Retarget.Binary64.ofRatio` — the number nearest to a quotient, a half going to the even
  neighbour.
* `Retarget.Binary64.ofDecimal` — the number nearest to `digits * 10 ^ exponent`.
-/

namespace Retarget

/-- A binary floating-point number of 64 bits, as its bit pattern. -/
structure Binary64 where
  bits : UInt64
deriving DecidableEq, Repr, Inhabited

namespace Binary64

/-- The sign bit is set. -/
def isNegative (x : Binary64) : Bool := decide (Nat.pow 2 63 ≤ x.bits.toNat)

/-- The eleven exponent bits. -/
def exponentField (x : Binary64) : Nat := x.bits.toNat / Nat.pow 2 52 % Nat.pow 2 11

/-- The fifty-two fraction bits. -/
def fraction (x : Binary64) : Nat := x.bits.toNat % Nat.pow 2 52

/-- Neither infinite nor NaN. -/
def isFinite (x : Binary64) : Bool := x.exponentField != 2047

/-- Not a number. -/
def isNaN (x : Binary64) : Bool := x.exponentField == 2047 && x.fraction != 0

/-- The significand of a finite number, with its leading bit where the number is normal. -/
def significand (x : Binary64) : Nat :=
  if x.exponentField = 0 then x.fraction else Nat.pow 2 52 + x.fraction

/-- The binary scale of a finite number, whose magnitude is
`significand * 2 ^ scale * 2 ^ (-1074)`. -/
def scale (x : Binary64) : Nat := x.exponentField - 1

/-- The magnitude of a finite number in units of `2 ^ (-1074)`. -/
def magnitude (x : Binary64) : Nat := x.significand * Nat.pow 2 x.scale

/-- Positive zero. -/
def zero : Binary64 := ⟨0⟩

/-- Positive infinity. -/
def infinity : Binary64 := ⟨UInt64.ofNat (2047 * Nat.pow 2 52)⟩

/-- The NaN that a text denotes. -/
def nan : Binary64 := ⟨UInt64.ofNat (4095 * Nat.pow 2 51)⟩

/-- The number of the opposite sign. -/
def neg (x : Binary64) : Binary64 :=
  if x.isNegative then ⟨UInt64.ofNat (x.bits.toNat - Nat.pow 2 63)⟩
  else ⟨UInt64.ofNat (x.bits.toNat + Nat.pow 2 63)⟩

/-- A quotient rounded to the nearest natural number, a half going to the even neighbour. -/
def roundToEven (num den : Nat) : Nat :=
  let q := num / den
  let r := num % den
  if den < 2 * r then q + 1
  else if 2 * r = den ∧ q % 2 = 1 then q + 1
  else q

/-- The number nearest to `num / den`, a half going to the even significand; infinite where the
nearest is past the greatest finite number.

A significand `m` with scale `s` has the bit pattern `s * 2 ^ 52 + m`, also where rounding carried
`m` up to `2 ^ 53`. -/
def ofRatio (num den : Nat) : Binary64 :=
  let units := num * Nat.pow 2 1074
  let s := Nat.log2 (units / den) - 52
  let pattern := s * Nat.pow 2 52 + roundToEven units (den * Nat.pow 2 s)
  if pattern < 2047 * Nat.pow 2 52 then ⟨UInt64.ofNat pattern⟩ else infinity

/-- How many decimal digits a natural number has. -/
def digitCount (n : Nat) : Nat := (Nat.toDigits 10 n).length

/-- The number nearest to `digits * 10 ^ exponent`. What is at least `10 ^ 400` is infinite and
what is below `10 ^ (-400)` is zero, so that huge exponents cost nothing. -/
def ofDecimal (digits : Nat) (exponent : Int) : Binary64 :=
  if digits = 0 then zero
  else if 400 < exponent then infinity
  else if exponent + digitCount digits < -400 then zero
  else if 0 ≤ exponent then ofRatio (digits * Nat.pow 10 exponent.toNat) 1
  else ofRatio digits (Nat.pow 10 (-exponent).toNat)

end Binary64

end Retarget
