import Retarget.Proofs.Types.Rules

set_option autoImplicit false

/-!
# Calls with less known about their arguments

A type loses precision where it becomes `any`, or where it is an array and its items become unknown.
The type of a call never gains by that: with less precise arguments it stays the same or loses precision
itself. For arithmetic the reason is that a type which is still known has the shape it had, and that an
unknown operand makes the result unknown.

## Main definitions

* `Retarget.Ty.Looser` — a type is less precise than another one, or the same.

## Main results

* `Retarget.Ty.looser_of_tags` — a rule that knows nothing of unknown operands need only be looked at
  where the shapes stay.
* `Retarget.looser_resultType` — the type of a call with less precise arguments.
-/

namespace Retarget

namespace Ty

/-- The first type says no more than the second one: it is the same type, or `any`, or it is an array of
unknown items where the second one is an array. -/
inductive Looser : Ty → Ty → Prop
  | same {u t : Ty} : u.same t = true → Looser u t
  | any {t : Ty} : Looser .any t
  | unknownItem {item : Option Ty} : Looser (.array none) (.array item)

/-- A type says no more than itself. -/
lemma Looser.refl {t : Ty} (ht : t.Distinct) : t.Looser t := .same (same_refl ht)

/-- A type that says less is unknown or has the shape it had. -/
lemma Looser.any_or_tag {u t : Ty} (h : u.Looser t) : u = .any ∨ u.tag = t.tag := by
  cases h with
  | same h => exact .inr (tag_of_same h)
  | any => exact .inl rfl
  | unknownItem => exact .inr rfl

/-- What says no more than an array is unknown or an array. -/
lemma Looser.array_cases {u : Ty} {x : Option Ty} (h : u.Looser (.array x)) :
    u = .any ∨ u = .array none ∨ ∃ item, u = .array item ∧ u.same (.array x) = true := by
  cases h with
  | same h =>
    obtain ⟨y, rfl⟩ := Below.eq_array h
    exact .inr (.inr ⟨y, rfl, h⟩)
  | any => exact .inl rfl
  | unknownItem => exact .inr (.inl rfl)

section Pairs

variable {a a' b b' : Ty}

/-- A rule that knows nothing of unknown operands gives no more for operands that say less, if it does so
where the shapes stay. -/
lemma looser_of_tags {rule : Ty → Ty → Ty} (hleft : ∀ b, rule .any b = .any)
    (hright : ∀ a, rule a .any = .any) (ha : a'.Looser a) (hb : b'.Looser b)
    (h : a'.tag = a.tag → b'.tag = b.tag → (rule a' b').Looser (rule a b)) :
    (rule a' b').Looser (rule a b) := by
  rcases ha.any_or_tag with rfl | ha
  · rw [hleft]
    exact .any
  rcases hb.any_or_tag with rfl | hb
  · rw [hright]
    exact .any
  exact h ha hb

/-- A rule that looks at shapes only says no more of types that say no more. -/
lemma ShapeRule.looser {rule : Ty → Ty → Ty} (h : ShapeRule rule) (ha : a'.Looser a)
    (hb : b'.Looser b) : (rule a' b').Looser (rule a b) :=
  looser_of_tags h.any_left h.any_right ha hb fun hta htb => by
    rw [h.congr hta htb]
    exact .refl (h.distinct a b)

/-- Arrays that say less join to an array that says no more: an array whose items were known before the
join was the same as the other one, and stays so or loses its items.

**Proof sketch.** By cases on the join of the looser arrays. It is either the first of them, when
they are the same, or an array of unknown items, which is looser than every array. In the first case
the arrays on the right are the same too, unless items have been lost. -/
lemma looser_join_array {x y x' y' : Option Ty} (hdx : (Ty.array x).Distinct)
    (hdx' : (Ty.array x').Distinct) (hx : (Ty.array x').Looser (.array x))
    (hy : (Ty.array y').Looser (.array y)) :
    ((Ty.array x').join (.array y')).Looser ((Ty.array x).join (.array y)) := by
  obtain ⟨z, hz⟩ := exists_array_join x y
  rcases join_cases (.array x') (.array y') with ⟨hsame, h⟩ | ⟨h, -⟩ | ⟨h, -⟩ | ⟨_, _, -, -, h⟩ | h
  · rw [h]
    rcases hx.array_cases with hnone | hnone | ⟨-, -, hx⟩
    · cases hnone
    · rw [hnone, hz]
      exact .unknownItem
    rcases hy.array_cases with hnone | hnone | ⟨-, -, hy⟩
    · cases hnone
    · -- The first array is the same as an array with unknown items, and so is one.
      rw [hnone] at hsame
      rw [unknownItem_same_iff.mp (same_symm hdx' .unknownItem hsame), hz]
      exact .unknownItem
    · have hxy : (Ty.array x).same (.array y) = true :=
        same_trans hdx (same_symm hdx' hdx hx) (same_trans hdx' hsame hy)
      rw [join_of_same hxy]
      exact .same hx
  · cases h
  · cases h
  · rw [h, hz]
    exact .unknownItem
  · obtain ⟨z', hz'⟩ := exists_array_join x' y'
    rw [hz'] at h
    cases h

/-- Sums of types that say no more say no more. -/
lemma looser_sumType (hda : a.Distinct) (hdb : b.Distinct) (hda' : a'.Distinct) (ha : a'.Looser a)
    (hb : b'.Looser b) : (sumType a' b').Looser (sumType a b) := by
  refine looser_of_tags sumType_any_left sumType_any_right ha hb fun hta htb => ?_
  by_cases harrays : a.tag = .array ∧ b.tag = .array
  · match a, b, a', b', harrays with
    | .array x, .array y, .array x', .array y', _ =>
      exact looser_join_array hda hda' ha hb
  · rw [sumType_shape harrays, sumType_shape (a := a') (by rwa [hta, htb]), hta, htb,
      ← sumType_shape harrays]
    exact .refl (distinct_sumType hda hdb)

end Pairs

section One

variable {a a' : Ty}

/-- Signs of types that say no more say no more. -/
lemma looser_signedType (ha : a'.Looser a) : (signedType a').Looser (signedType a) := by
  rcases ha.any_or_tag with rfl | htag
  · exact .any
  · rw [signedType_shape a', htag, ← signedType_shape]
    exact .refl (distinct_signedType a)

/-- The absolute value of a number has its type. -/
lemma looser_absolute (ha : a'.Looser a) :
    (if a'.isNumeric then a' else .any).Looser (if a.isNumeric then a else .any) := by
  rcases ha.any_or_tag with rfl | htag
  · exact .any
  · rw [isNumeric_shape a', htag, ← isNumeric_shape]
    split_ifs
    · exact ha
    · exact .any

/-- Items of types that say no more say no more. -/
lemma looser_element (ha : a'.Looser a) : a'.element.Looser a.element := by
  cases ha with
  | any => exact .any
  | unknownItem => exact .any
  | same h =>
    cases a' with
    | array item' =>
      cases item' with
      | none => exact .any
      | some item' =>
        obtain ⟨item, rfl, hitem⟩ := array_same_iff.mp h
        exact .same hitem
    | _ => exact .any

/-- Arrays of types that say no more say no more. -/
lemma looser_arrayOrAny (ha : a'.Looser a) : (arrayOrAny a').Looser (arrayOrAny a) := by
  rcases ha.any_or_tag with rfl | htag
  · exact .any
  · cases a' with
    | array item' =>
      cases a with
      | array item => exact ha
      | _ => cases htag
    | _ => exact .any

end One

end Ty

open Ty

/-! ## Calls -/

/-- Calls of one argument say no more of types that say no more. -/
lemma looser_unaryType (name : String) {a a' : Ty} (ha : a'.Looser a) :
    (unaryType name a').Looser (unaryType name a) := by
  unfold unaryType
  split
  · exact looser_signedType ha
  split
  · exact looser_absolute ha
  split
  · exact looser_element ha
  · exact .any

/-- Calls of two arguments say no more of types that say no more. -/
lemma looser_binaryType (name : String) {a a' b b' : Ty} (hda : a.Distinct) (hdb : b.Distinct)
    (hda' : a'.Distinct) (ha : a'.Looser a) (hb : b'.Looser b) :
    (binaryType name a' b').Looser (binaryType name a b) := by
  unfold binaryType
  split
  · exact looser_sumType hda hdb hda' ha hb
  split
  · exact shapeRule_differenceType.looser ha hb
  split
  · exact shapeRule_productType.looser ha hb
  split
  · exact shapeRule_quotientType.looser ha hb
  split
  · exact shapeRule_numericType.looser ha hb
  · exact .any

/-- **Less known about the arguments never makes the type of a call more precise.** For every name, and
argument types of which the second ones say no more than the first ones, one by one, the type of the call
with the second ones says no more than with the first ones.

**Proof sketch.** By the name and the number of arguments. Names whose calls always have one type are
settled at once; all other rules look at shapes, at the items of an array or at the join of two
arrays. -/
theorem looser_resultType (name : String) {args args' : List Ty} (hargs : ∀ t ∈ args, t.Distinct)
    (hargs' : ∀ t ∈ args', t.Distinct) (h : List.Forall₂ Ty.Looser args' args) :
    (resultType name args').Looser (resultType name args) := by
  have hfilter {a a' other other' : Ty} (ha : a'.Looser a) (hother : other'.Looser other) :
      (if name = "filter" then arrayOrAny a' else other').Looser
        (if name = "filter" then arrayOrAny a else other) := by
    split
    · exact looser_arrayOrAny ha
    · exact hother
  unfold resultType
  split
  · exact .refl distinct_bool
  split
  · exact .refl distinct_string
  split
  · exact .refl distinct_int
  split
  · exact .refl .unknownItem
  match args, args', h with
  | [], [], _ => exact .refl (distinct_constantType name)
  | [a], [a'], .cons ha _ => exact hfilter ha (looser_unaryType name ha)
  | [a, b], [a', b'], .cons ha (.cons hb _) =>
    exact hfilter ha (looser_binaryType name (hargs a (by simp)) (hargs b (by simp))
      (hargs' a' (by simp)) ha hb)
  | a :: _ :: _ :: _, a' :: _ :: _ :: _, .cons ha _ => exact hfilter ha .any

/-- The type of a record with two fields, in either order. -/
def pairType (swapped : Bool) : Ty :=
  .record (if swapped then [("b", .bool), ("a", .int)] else [("a", .int), ("b", .bool)])

/-- Two arrays of records are added, with the fields of the first one in the other order and the items of
the second one unknown. -/
theorem looser_resultType_sum :
    let args := [Ty.array (some (pairType false)), .array (some (pairType false))]
    let args' := [Ty.array (some (pairType true)), .array none]
    (∀ t ∈ args, t.Distinct) ∧ (∀ t ∈ args', t.Distinct) ∧ List.Forall₂ Ty.Looser args' args ∧
      resultType "add" args = .array (some (pairType false)) ∧
      resultType "add" args' = .array none ∧
      (resultType "add" args').Looser (resultType "add" args) := by
  intro args args'
  have hpair : ∀ swapped, (pairType swapped).Distinct := by
    intro swapped
    cases swapped with
    | false => exact .record (by decide) (by simpa using ⟨distinct_int, distinct_bool⟩)
    | true => exact .record (by decide) (by simpa using ⟨distinct_bool, distinct_int⟩)
  have hargs : ∀ t ∈ args, t.Distinct := by simpa [args] using Distinct.array (hpair false)
  have hargs' : ∀ t ∈ args', t.Distinct := by
    simpa [args'] using ⟨Distinct.array (hpair true), Distinct.unknownItem⟩
  have hlooser : List.Forall₂ Ty.Looser args' args :=
    .cons (.same (by rfl)) (.cons .unknownItem .nil)
  exact ⟨hargs, hargs', hlooser, by rfl, by rfl, looser_resultType "add" hargs hargs' hlooser⟩

end Retarget
