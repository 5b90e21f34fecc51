set_option autoImplicit false

/-!
# Longest-first patterns at the start of a text

A pattern takes a part off the front of a text, or does not match. Repetition and options are
greedy and never give back what they took, which is right wherever what follows a repetition
cannot start with a character of it.

## Main definitions

* `Retarget.Scan` — a pattern: the part it takes and the text behind it.
* `Retarget.Scan.seq`, `Retarget.Scan.optional`, `Retarget.Scan.either` — combinators.
* `Retarget.byteLength` — how many bytes of UTF-8 a list of characters takes.
-/

namespace Retarget

/-- How many bytes of UTF-8 the characters take. -/
def byteLength : List Char → Nat
  | [] => 0
  | c :: cs => c.utf8Size + byteLength cs

/-- A pattern at the start of a text: the part it takes and what is left. -/
abbrev Scan := List Char → Option (List Char × List Char)

namespace Scan

/-- One character that satisfies `p`. -/
def one (p : Char → Bool) : Scan
  | [] => none
  | c :: cs => if p c then some ([c], cs) else none

/-- The character `d`. -/
def char (d : Char) : Scan := one (· == d)

/-- One or more characters that satisfy `p`, as many as there are. -/
def some1 (p : Char → Bool) : Scan := fun cs =>
  match cs.takeWhile p with
  | [] => none
  | taken => some (taken, cs.dropWhile p)

/-- One pattern and then another. -/
def seq (a b : Scan) : Scan := fun cs =>
  match a cs with
  | none => none
  | some (x, rest) =>
    match b rest with
    | none => none
    | some (y, rest) => some (x ++ y, rest)

/-- Several patterns one after another. -/
def all : List Scan → Scan
  | [] => fun cs => some ([], cs)
  | a :: as => seq a (all as)

/-- The pattern where it matches, and nothing where it does not. -/
def optional (a : Scan) : Scan := fun cs => some ((a cs).getD ([], cs))

/-- The first pattern where it matches, else the second. -/
def either (a b : Scan) : Scan := fun cs => (a cs).or (b cs)

end Scan

end Retarget
