import Retarget.Compile
import Retarget.Json.Reader

set_option autoImplicit false

/-!
# Fixtures

A fixture is a named list of sources, each with what is known of its code on some of the targets.
Fixtures are kept as JSON. Records are written as objects, in which no field may be missing unless
it has a default, repeated or unknown, or as arrays that list the fields in order, of which the
last ones may be left out where they have defaults.

## Main definitions

* `Retarget.Fixture` — a fixture, and `Retarget.Case`, one source of it.
* `Retarget.Fixture.ofText?` — the fixture that a text holds.
-/

namespace Retarget

/-- A source with what is known of its code. A target without an entry can be compiled to any
code. -/
structure Case where
  source : String
  /-- The code on a target. -/
  expect : List (TargetKind × String)
  /-- A part of the message of the error on a target. -/
  errors : List (TargetKind × String)
  /-- The helpers that the code on a target calls. -/
  helpers : List (TargetKind × List String)
deriving DecidableEq, Repr

/-- A named list of cases, all compiled into the same form. -/
structure Fixture where
  name : String
  form : OutputForm
  cases : List Case
deriving DecidableEq, Repr

/-! ## Decoding -/

namespace Json

/-- The strings of an array of strings. -/
def texts? (j : Json) : Option (List String) := j.items? >>= fun items => items.mapM text?

/-- The values of named fields, in the order of the names: from an object, in which no field is
repeated, or from an array, which has no more items than there are names. Other keys of an object
are let pass where `lenient` is set. -/
def fields? (names : List String) (lenient : Bool) : Json → Option (List (Option Json))
  | .array items =>
    if items.length ≤ names.length then
      some (items.map some ++ List.replicate (names.length - items.length) none)
    else none
  | j => do
    let members ← j.members?
    let known := (members.map Prod.fst).filter names.contains
    if (lenient || known.length == members.length) && known.eraseDups.length == known.length then
      return names.map fun name => members.lookup name
    else none

/-- The entries of an object whose keys are targets. A later entry for a target stands before an
earlier one, so that it is the one found. -/
def perTarget? {α : Type} (decode : Json → Option α) (j : Json) :
    Option (List (TargetKind × α)) := do
  let members ← j.members?
  let entries ← members.mapM fun (key, value) => do
    return (← TargetKind.ofName? key, ← decode value)
  return entries.reverse

/-- A field that must be there. -/
def required {α : Type} (decode : Json → Option α) (field : Option Json) : Option α :=
  field >>= decode

/-- A field with a value for where it is missing. -/
def optional {α : Type} (default : α) (decode : Json → Option α) : Option Json → Option α
  | none => some default
  | some j => decode j

end Json

/-- The output form that a document names, by a string or as the one key of an object over
null. -/
def OutputForm.ofJson? : Json → Option OutputForm
  | .object [(key, .null)] => JsonString.text? key >>= OutputForm.ofText?
  | j => j.text? >>= OutputForm.ofText?

/-- The output form that the options of a fixture ask for. -/
def OutputForm.ofOptions? (j : Json) : Option OutputForm := do
  match ← j.fields? ["form"] true with
  | [form] => Json.optional .fragment OutputForm.ofJson? form
  | _ => none

/-- The case that a document holds. -/
def Case.ofJson? (j : Json) : Option Case := do
  match ← j.fields? ["source", "expect", "errors", "helpers"] false with
  | [source, expect, errors, helpers] =>
    return {
      source := ← Json.required Json.text? source
      expect := ← Json.optional [] (Json.perTarget? Json.text?) expect
      errors := ← Json.optional [] (Json.perTarget? Json.text?) errors
      helpers := ← Json.optional [] (Json.perTarget? Json.texts?) helpers }
  | _ => none

/-- The fixture that a document holds. -/
def Fixture.ofJson? (j : Json) : Option Fixture := do
  match ← j.fields? ["name", "options", "cases"] false with
  | [name, options, cases] =>
    return {
      name := ← Json.required Json.text? name
      form := ← Json.optional .fragment OutputForm.ofOptions? options
      cases := ← Json.required (fun j => j.items? >>= fun items => items.mapM Case.ofJson?) cases }
  | _ => none

/-- The fixture at the start of a text. -/
def Fixture.ofText? (text : String) : Option Fixture := Json.read? text >>= Fixture.ofJson?

end Retarget
