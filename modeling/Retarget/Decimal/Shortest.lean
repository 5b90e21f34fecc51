import Retarget.Decimal.Binary64

set_option autoImplicit false

/-!
# The shortest decimal of a floating-point number

The shortest decimal of a number is the one with the fewest digits among those that read back as
it, and of two with as many digits the one nearer to the exact value. Every test is exact: the
decimals that read back fill an interval whose ends are known multiples of a power of two, and of
every decimal grid only the two neighbours of the value need a look.

## Main definitions

* `Retarget.Decimal` — `digits * 10 ^ exponent`.
* `Retarget.Binary64.shortest` — the shortest decimal of a positive finite number.
* `Retarget.DecimalStyle` — how a decimal is laid out, and `DecimalStyle.write`.
-/

namespace Retarget

/-- The decimal number `digits * 10 ^ exponent`. -/
structure Decimal where
  digits : Nat
  exponent : Int
deriving DecidableEq, Repr

/-- Where an exact tie between two decimals of the same length goes. -/
inductive Tie
  /-- To the greater one. -/
  | up
  /-- To the one whose last digit is even. -/
  | even
deriving DecidableEq, Repr

namespace Binary64

/-- The value and the two ends of the interval of the numbers that read back as it, each to be
multiplied by `2 ^ scale * 2 ^ (-1076)`. Below a power of two the neighbour is half as far. -/
def interval (x : Binary64) : Nat × Nat × Nat :=
  let v := 4 * x.significand
  let below := if x.fraction = 0 ∧ 1 < x.exponentField then 1 else 2
  (v - below, v, v + 2)

/-- The exponent `k` with `10 ^ (k - 1) ≤ value < 10 ^ k`, for a positive finite number. -/
def decimalExponent (x : Binary64) : Int :=
  (digitCount (x.magnitude * Nat.pow 10 330 / Nat.pow 2 1074) : Int) - 330

/-- The decimal with the grid `10 ^ exponent` that reads back as `x`, if there is one; of two the
nearer, and `tie` decides between equals. The ends of the interval read back exactly when the
significand is even. -/
def onGrid? (tie : Tie) (x : Binary64) (exponent : Int) : Option Decimal :=
  let (low, value, high) := x.interval
  let up := Nat.pow 2 x.scale * Nat.pow 10 (-exponent).toNat
  let unit := Nat.pow 2 1076 * Nat.pow 10 exponent.toNat
  let closed := x.significand % 2 == 0
  let readsBack (d : Nat) : Bool :=
    if closed then low * up ≤ d * unit && d * unit ≤ high * up
    else low * up < d * unit && d * unit < high * up
  let floor := value * up / unit
  let rest := value * up % unit
  let nearer :=
    if unit < 2 * rest then floor + 1
    else if 2 * rest = unit then
      match tie with
      | .up => floor + 1
      | .even => if floor % 2 = 0 then floor else floor + 1
    else floor
  let further := if nearer = floor then floor + 1 else floor
  if readsBack nearer then some ⟨nearer, exponent⟩
  else if readsBack further then some ⟨further, exponent⟩
  else none

/-- The same decimal without trailing zeros, of which it has at most `fuel`. -/
def stripZeros : Nat → Decimal → Decimal
  | 0, d => d
  | fuel + 1, d =>
    if d.digits % 10 = 0 then stripZeros fuel ⟨d.digits / 10, d.exponent + 1⟩ else d

/-- The shortest decimal that reads back as the magnitude of `x`, which is finite and not zero.
Seventeen digits always do. -/
def shortest (tie : Tie) (x : Binary64) : Decimal :=
  let k := x.decimalExponent
  let found := (List.range 17).findSome? fun n => x.onGrid? tie (k - (n + 1 : Nat))
  stripZeros 17 (found.getD ⟨0, 0⟩)

end Binary64

/-- How decimals are laid out: which exponents of the leading digit are written positionally, the
others being written as `d.ddde-x`, whether a positive exponent has a plus sign, and where ties go.
Positional text always has a fraction. -/
structure DecimalStyle where
  leastPositional : Int
  greatestPositional : Int
  plusSign : Bool
  tie : Tie

namespace DecimalStyle

/-- A string of `n` zeros. -/
def zeros (n : Nat) : String := "".pushn '0' n

/-- The text of an exponent. -/
def exponentText (style : DecimalStyle) (exponent : Int) : String :=
  (if style.plusSign && 0 < exponent then "+" else "") ++ toString exponent

/-- The text of a positive decimal. -/
def layOut (style : DecimalStyle) (d : Decimal) : String :=
  let ds := Nat.toDigits 10 d.digits
  let leading : Int := d.exponent + ds.length - 1
  if style.leastPositional ≤ leading ∧ leading ≤ style.greatestPositional then
    if 0 ≤ d.exponent then String.ofList ds ++ zeros d.exponent.toNat ++ ".0"
    else if 0 ≤ leading then
      let whole := leading.toNat + 1
      String.ofList (ds.take whole) ++ "." ++ String.ofList (ds.drop whole)
    else "0." ++ zeros (-leading - 1).toNat ++ String.ofList ds
  else
    let fraction := if ds.length = 1 then "" else "." ++ String.ofList (ds.drop 1)
    String.ofList (ds.take 1) ++ fraction ++ "e" ++ style.exponentText leading

/-- The text of a number: its shortest decimal in this style, or `NaN`, `inf`, `-inf`. -/
def write (style : DecimalStyle) (x : Binary64) : String :=
  if x.isNaN then "NaN"
  else
    let sign := if x.isNegative then "-" else ""
    if !x.isFinite then sign ++ "inf"
    else if x.significand = 0 then sign ++ "0.0"
    else sign ++ style.layOut (x.shortest style.tie)

/-- Numbers in emitted code: positional from `0.0001` up to sixteen places before the point, with
exponents like `e20` beyond them, and a tie goes up. -/
def code : DecimalStyle := ⟨-4, 15, false, .up⟩

/-- Numbers in JSON: positional from `0.00001` up to sixteen places before the point, with exponents
like `e+20` beyond them, and a tie goes to the even digit. -/
def json : DecimalStyle := ⟨-5, 15, true, .even⟩

end DecimalStyle

end Retarget
