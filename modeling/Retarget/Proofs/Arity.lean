import Mathlib
import Retarget.Compile
import Retarget.Proofs.Grouping.Form

set_option autoImplicit false

/-!
# Dispatch by name and number of arguments

A registry may have forms for some types of the arguments only. Where it has, beside each of them, a
form for arguments of any type, the types choose the form of a call but not whether there is one. The
registries of all targets are such, and they can be compared by the names and the numbers of arguments
that they support.

## Main definitions

* `Retarget.Registry.supports` — a registry has a form for calls of a name with that many arguments.
* `Retarget.Registry.widens` — every signature stands beside one that is `any` throughout.
* `Retarget.Registry.isWithin` — another registry supports what a registry supports.
* `Retarget.TargetKind.supports`, `Retarget.TargetKind.dispatches` — the same for the targets, and
  whether a call with arguments of the given tags finds a form.

## Main results

* `Retarget.Registry.isOk_lookup` — a lookup succeeds where the registry supports the call.
* `Retarget.TargetKind.dispatches_congr` — dispatch succeeds by name and number of arguments, and what
  the targets have in common.
-/

namespace Retarget

namespace Registry

variable {ε δ : Type} {r : Registry ε} {s : Registry δ} {name : String} {count : Nat}
  {tags : List Tag}

/-! ## Supported calls -/

/-- The registry has a form for calls of the name with that many arguments: a signature of the name
has that length, or the name takes any number of arguments from a lesser one up. -/
def supports (r : Registry ε) (name : String) (count : Nat) : Bool :=
  (r.signatures.any fun e => e.1.1 == name && e.1.2.length == count) ||
    (r.variadic? name count).isSome

/-- The registry has a form for calls of the name with that many arguments of any type. -/
def takesAny (r : Registry ε) (name : String) (count : Nat) : Bool :=
  r.signatures.any fun e => e.1.2 == List.replicate count .any && e.1.1 == name

/-- Every signature that is not `any` throughout stands beside one of its length that is. -/
def widens (r : Registry ε) : Bool :=
  r.signatures.all fun e => e.1.2.all (· == .any) || r.takesAny e.1.1 e.1.2.length

/-- A name and a number of arguments are supported where the name has a signature of that length or
takes any number of arguments from some least one on. -/
lemma supports_iff : r.supports name count = true ↔
    (∃ signature form, ((name, signature), form) ∈ r.signatures ∧ signature.length = count) ∨
      (r.variadic? name count).isSome = true := by
  simp only [supports, Bool.or_eq_true, List.any_eq_true, Bool.and_eq_true, beq_iff_eq]
  constructor
  · rintro (⟨⟨⟨_, signature⟩, form⟩, hmem, rfl, hlength⟩ | hvariadic)
    · exact .inl ⟨signature, form, hmem, hlength⟩
    · exact .inr hvariadic
  · rintro (⟨signature, form, hmem, hlength⟩ | hvariadic)
    · exact .inl ⟨_, hmem, rfl, hlength⟩
    · exact .inr hvariadic

/-- Arguments of any type are taken where the name has the signature that is `any` throughout. -/
lemma takesAny_iff : r.takesAny name count = true ↔
    ∃ form, ((name, List.replicate count .any), form) ∈ r.signatures := by
  simp only [takesAny, List.any_eq_true, Bool.and_eq_true, beq_iff_eq]
  constructor
  · rintro ⟨⟨⟨_, _⟩, form⟩, hmem, rfl, rfl⟩
    exact ⟨form, hmem⟩
  · rintro ⟨form, hmem⟩
    exact ⟨_, hmem, rfl, rfl⟩

/-- What a registry supports, it supports for arguments of any type. -/
lemma supports_iff_takesAny (hwidens : r.widens = true) : r.supports name count = true ↔
    r.takesAny name count = true ∨ (r.variadic? name count).isSome = true := by
  rw [supports_iff]
  refine or_congr_left ⟨?_, fun h => ?_⟩
  · rintro ⟨signature, form, hmem, rfl⟩
    rcases Bool.or_eq_true_iff.mp (List.all_eq_true.mp hwidens _ hmem) with hany | hbeside
    · have hall : signature = List.replicate signature.length .any :=
        List.eq_replicate_iff.mpr ⟨rfl, fun tag htag => by simpa using List.all_eq_true.mp hany tag htag⟩
      exact takesAny_iff.mpr ⟨form, hall ▸ hmem⟩
    · exact hbeside
  · obtain ⟨form, hmem⟩ := takesAny_iff.mp h
    exact ⟨_, form, hmem, List.length_replicate⟩

/-- The form of a call is that of a signature that covers the tags, or the one for any number of
arguments. -/
lemma form_of_lookup (hfallback : r.fallback = none) {form : ε} (h : r.lookup name tags = .ok form) :
    (∃ signature, r.form? name signature = some form ∧ Covers signature tags) ∨
      r.variadic? name tags.length = some form := by
  simp only [lookup, hfallback, Option.or_none] at h
  split at h
  · rename_i found hfound
    cases h
    rcases Option.or_eq_some_iff.mp hfound with hsignature | ⟨-, hvariadic⟩
    · obtain ⟨signature, hmem, hform⟩ := List.exists_of_findSome?_eq_some hsignature
      exact .inl ⟨signature, hform, (mem_generalizations.mp hmem).1⟩
    · exact .inr hvariadic
  · cases h

/-- A form that is found for a signature is listed under it. -/
lemma mem_signatures {signature : List Tag} {form : ε} (h : r.form? name signature = some form) :
    ((name, signature), form) ∈ r.signatures := by
  obtain ⟨before, after, heq, -⟩ := List.lookup_eq_some_iff.mp h
  simp [heq]

/-- A form for any number of arguments is listed with a least number that the count reaches. -/
lemma exists_of_variadic {form : ε} (h : r.variadic? name count = some form) :
    ∃ least, (name, least, form) ∈ r.variadics ∧ least ≤ count := by
  unfold variadic? at h
  split at h
  · rename_i least found hlookup
    split_ifs at h with hle
    cases h
    obtain ⟨before, after, heq, -⟩ := List.lookup_eq_some_iff.mp hlookup
    exact ⟨least, by simp [heq], hle⟩
  · cases h

/-- A form that a lookup finds is one of a supported call. -/
lemma supports_of_lookup (hfallback : r.fallback = none) {form : ε}
    (h : r.lookup name tags = .ok form) : r.supports name tags.length = true := by
  rw [supports_iff]
  rcases form_of_lookup hfallback h with ⟨signature, hform, hcovers⟩ | hvariadic
  · exact .inl ⟨signature, form, mem_signatures hform, hcovers.length_eq⟩
  · exact .inr (Option.isSome_of_eq_some hvariadic)

/-- A call that the registry supports finds a form, if only the one for arguments of any type. -/
lemma exists_form_of_supports (hwidens : r.widens = true)
    (h : r.supports name tags.length = true) : ∃ form, r.lookup name tags = .ok form := by
  rcases (supports_iff_takesAny hwidens).mp h with hany | hvariadic
  · obtain ⟨form, hmem⟩ := takesAny_iff.mp hany
    have hdefined : (r.form? name (List.replicate tags.length .any)).isSome = true := by
      rw [form?, List.lookup_isSome_iff]
      exact ⟨_, hmem, beq_self_eq_true _⟩
    obtain ⟨found, -, hlookup, -⟩ := r.exists_lookup name tags hdefined
    exact ⟨found, hlookup⟩
  · obtain ⟨form, hform⟩ := Option.isSome_iff_exists.mp hvariadic
    unfold lookup
    rw [hform]
    cases (tags :: generalizations tags).findSome? (r.form? name) with
    | none => exact ⟨form, rfl⟩
    | some found => exact ⟨found, rfl⟩

/-- A lookup succeeds where the registry supports the call, whatever the types of its arguments. -/
theorem isOk_lookup (hfallback : r.fallback = none) (hwidens : r.widens = true) (name : String)
    (tags : List Tag) : (r.lookup name tags).isOk = r.supports name tags.length := by
  rw [Bool.eq_iff_iff]
  constructor
  · intro h
    cases hlookup : r.lookup name tags with
    | error e => rw [hlookup] at h; cases h
    | ok form => exact supports_of_lookup hfallback hlookup
  · intro h
    obtain ⟨form, hlookup⟩ := exists_form_of_supports hwidens h
    rw [hlookup]
    rfl

/-! ## Comparing registries -/

/-- The other registry supports every call that this one supports for arguments of any type. -/
def isWithin (r : Registry ε) (s : Registry δ) : Bool :=
  (r.signatures.all fun e => !e.1.2.all (· == .any) || s.takesAny e.1.1 e.1.2.length) &&
    r.variadics.all fun e => (s.variadics.lookup e.1).any fun d => d.1 ≤ e.2.1

/-- A registry that supports the calls of another one for arguments of any type supports all its
calls. -/
lemma supports_of_isWithin (hwidens : r.widens = true) (hother : s.widens = true)
    (hwithin : r.isWithin s = true) (h : r.supports name count = true) :
    s.supports name count = true := by
  simp only [isWithin, Bool.and_eq_true, List.all_eq_true] at hwithin
  rw [supports_iff_takesAny hother]
  rcases (supports_iff_takesAny hwidens).mp h with hany | hvariadic
  · obtain ⟨form, hmem⟩ := takesAny_iff.mp hany
    exact .inl (by simpa using hwithin.1 _ hmem)
  · obtain ⟨form, hform⟩ := Option.isSome_iff_exists.mp hvariadic
    obtain ⟨least, hmem, hle⟩ := exists_of_variadic hform
    obtain ⟨⟨least', form'⟩, hlookup, hle'⟩ := (Option.any_eq_true _ _).mp (hwithin.2 _ hmem)
    have hcount : least' ≤ count := Nat.le_trans (of_decide_eq_true hle') hle
    right
    simp only [variadic?, hlookup, if_pos hcount, Option.isSome_some]

end Registry

/-! ## The targets -/

namespace TargetKind

/-- The target has a form for calls of the name with that many arguments. -/
def supports : TargetKind → String → Nat → Bool
  | .ruby => Ruby.registry.supports
  | .javaScript => JavaScript.registry.supports
  | .sql => Sql.registry.supports

/-- A call of the name with arguments of the given tags finds a form. -/
def dispatches : TargetKind → String → List Tag → Bool
  | .ruby, name, tags => (Ruby.registry.lookup name tags).isOk
  | .javaScript, name, tags => (JavaScript.registry.lookup name tags).isOk
  | .sql, name, tags => (Sql.registry.lookup name tags).isOk

/-- Every signature of every target stands beside one that is `any` throughout. Ruby and JavaScript
support the same calls, and all those that SQL supports. -/
lemma registries_pass :
    ((Ruby.registry.widens && JavaScript.registry.widens && Sql.registry.widens) &&
      (Ruby.registry.isWithin JavaScript.registry && JavaScript.registry.isWithin Ruby.registry &&
        Sql.registry.isWithin Ruby.registry)) = true := by
  decide +kernel

/-- Whether a call finds a form depends on its name and its number of arguments only. -/
lemma dispatches_eq_supports (kind : TargetKind) (name : String) (tags : List Tag) :
    kind.dispatches name tags = kind.supports name tags.length := by
  have hpass := registries_pass
  simp only [Bool.and_eq_true] at hpass
  obtain ⟨⟨⟨hruby, hjavaScript⟩, hsql⟩, -⟩ := hpass
  cases kind with
  | ruby => exact Registry.isOk_lookup rfl hruby name tags
  | javaScript => exact Registry.isOk_lookup rfl hjavaScript name tags
  | sql => exact Registry.isOk_lookup rfl hsql name tags

/-- Whether a call finds a form depends on its name and on the number of its arguments. Ruby and
JavaScript have forms for the same calls, and for all those that SQL has forms for.

**Proof sketch.** Dispatch succeeds where the registry supports the name and the number
(`dispatches_eq_supports`), which no longer mentions the tags; what the registries support is compared
entry by entry (`registries_pass`). -/
theorem dispatches_congr (kind : TargetKind) (name : String) {tags tags' : List Tag}
    (h : tags.length = tags'.length) :
    kind.dispatches name tags = kind.dispatches name tags' ∧
      TargetKind.ruby.dispatches name tags = TargetKind.javaScript.dispatches name tags ∧
      (TargetKind.sql.dispatches name tags = true → TargetKind.ruby.dispatches name tags = true) := by
  have hpass := registries_pass
  simp only [Bool.and_eq_true] at hpass
  obtain ⟨⟨⟨hruby, hjavaScript⟩, hsql⟩, hwithin⟩ := hpass
  simp only [dispatches_eq_supports, h, true_and]
  refine ⟨?_, Registry.supports_of_isWithin hsql hruby hwithin.2⟩
  rw [Bool.eq_iff_iff]
  exact ⟨Registry.supports_of_isWithin hruby hjavaScript hwithin.1.1,
    Registry.supports_of_isWithin hjavaScript hruby hwithin.1.2⟩

/-- A sum of a date and an array finds a form as one of two integers does. -/
theorem dispatches_congr_sum :
    TargetKind.sql.dispatches "add" [.int, .int] = true ∧
      TargetKind.sql.dispatches "add" [.int, .int] =
        TargetKind.sql.dispatches "add" [.date, .array] :=
  ⟨rfl, (dispatches_congr .sql "add" rfl).1⟩

end TargetKind

end Retarget
