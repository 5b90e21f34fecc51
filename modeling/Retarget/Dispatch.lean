import Retarget.Ty

set_option autoImplicit false

/-!
# Dispatch on argument types

A registry maps call names and signatures to forms. A call takes the form of the most specific
signature that covers the tags of its arguments, a position being covered by its own tag or by
`any`.

## Main definitions

* `Retarget.masks` — the sets of positions to widen, as bit masks in the order of their signatures.
* `Retarget.generalizations` — the more general signatures of a row of tags, most specific first.
* `Retarget.Registry` — forms by name and signature, and `Registry.lookup`.
-/

namespace Retarget

/-! ## Signatures -/

/-- The element in a row sorted by descending keys, in front of the elements with its own key. -/
def insertByKey {α : Type} (key : α → Nat) (a : α) : List α → List α
  | [] => [a]
  | b :: bs => if key b ≤ key a then a :: b :: bs else b :: insertByKey key a bs

/-- The row sorted by descending keys. Elements with the same key keep their order. -/
def sortByKey {α : Type} (key : α → Nat) (row : List α) : List α :=
  row.foldr (insertByKey key) []

/-- The number of positions that a mask widens: bit `i` of a mask stands for position `i`. -/
def countOnes (length mask : Nat) : Nat := (List.range length).countP mask.testBit

/-- A number for the positions that a mask keeps. The first position weighs more than all positions
behind it. -/
def concreteness (length mask : Nat) : Nat :=
  ((List.range length).filter fun i => !mask.testBit i).foldr
    (fun i weight => Nat.pow 2 (length - 1 - i) + weight) 0

/-- The masks that widen exactly `count` positions; those that keep the leftmost positions come
first. -/
def masks (length count : Nat) : List Nat :=
  sortByKey (concreteness length) <|
    (List.range (Nat.pow 2 length)).filter fun mask => countOnes length mask = count

/-- The tags with `any` at the positions of the mask. -/
def widenBy (mask : Nat) (tags : List Tag) : List Tag :=
  tags.mapIdx fun i tag => if mask.testBit i then .any else tag

/-- The signatures so far with that of one more mask, unless it is the row of tags itself or stands
there already. -/
def addSignature (tags : List Tag) (out : List (List Tag)) (mask : Nat) : List (List Tag) :=
  let signature := widenBy mask tags
  if signature ≠ tags ∧ signature ∉ out then out ++ [signature] else out

/-- Calls of more arguments than this are widened in all positions at once. -/
def widestStepwise : Nat := 8

/-- The strictly more general signatures of a row of tags, most specific first: one position widened,
then two, and so on. Positions that are `any` already make some masks widen nothing new, and these are
skipped. -/
def generalizations (tags : List Tag) : List (List Tag) :=
  let length := tags.length
  let allAny := List.replicate length Tag.any
  if length = 0 then []
  else if widestStepwise < length then (if tags = allAny then [] else [allAny])
  else
    (List.range' 1 length).foldl
      (fun out count => (masks length count).foldl (addSignature tags) out) []

/-! ## Registries -/

/-- No form for a call. -/
structure DispatchError where
  name : String
  tags : List Tag
deriving DecidableEq, Repr

/-- The wording of a failed dispatch. -/
def DispatchError.message (e : DispatchError) : String :=
  let tags := ", ".intercalate (e.tags.map Tag.text)
  s!"no `{e.name}` for ({tags}) on this target"

/-- Forms by call name: for exact signatures, for any number of arguments from a least one up, and
for all other calls. Later definitions stand before earlier ones. -/
structure Registry (ε : Type) where
  signatures : List ((String × List Tag) × ε) := []
  variadics : List (String × Nat × ε) := []
  fallback : Option ε := none

namespace Registry

variable {ε : Type}

/-- The registry without forms. -/
def empty : Registry ε := {}

/-- Define the form of a signature, in place of an earlier one. -/
def define (r : Registry ε) (name : String) (signature : List Tag) (form : ε) : Registry ε :=
  { r with signatures := ((name, signature), form) :: r.signatures }

/-- Define the form of all calls of a name with at least `least` arguments, in place of an earlier
one. -/
def defineVariadic (r : Registry ε) (name : String) (least : Nat) (form : ε) : Registry ε :=
  { r with variadics := (name, least, form) :: r.variadics }

/-- Define the form of the calls that nothing else covers, in place of an earlier one. -/
def defineFallback (r : Registry ε) (form : ε) : Registry ε := { r with fallback := some form }

/-- Define a row of signatures from left to right. -/
def defineAll (r : Registry ε) (entries : List (String × List Tag × ε)) : Registry ε :=
  entries.foldl (fun r (name, signature, form) => r.define name signature form) r

/-- The form of a signature. -/
def form? (r : Registry ε) (name : String) (signature : List Tag) : Option ε :=
  r.signatures.lookup (name, signature)

/-- The form of a name for the given number of arguments. -/
def variadic? (r : Registry ε) (name : String) (count : Nat) : Option ε :=
  match r.variadics.lookup name with
  | some (least, form) => if least ≤ count then some form else none
  | none => none

/-- The form of a call: that of the most specific signature, else the variadic one, else the
fallback. -/
def lookup (r : Registry ε) (name : String) (tags : List Tag) : Except DispatchError ε :=
  let found := (tags :: generalizations tags).findSome? (r.form? name)
  match (found.or (r.variadic? name tags.length)).or r.fallback with
  | some form => .ok form
  | none => .error ⟨name, tags⟩

end Registry

end Retarget
