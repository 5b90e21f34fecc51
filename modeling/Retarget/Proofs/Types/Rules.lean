import Retarget.Proofs.Types.Join
import Retarget.Ty.Result

set_option autoImplicit false

/-!
# The rules for types of calls

Arithmetic looks at nothing but the shapes of its operands, and where one of them is unknown so is the
result; only a sum of arrays looks at their items. Whatever the arguments of a call, its type names the
fields of records once if theirs do.

## Main definitions

* `Retarget.Ty.ShapeRule` — a rule that looks at the shapes of two types.

## Main results

* `Retarget.shapeRule_numericType`, `Retarget.shapeRule_differenceType`,
  `Retarget.shapeRule_productType`, `Retarget.shapeRule_quotientType` — arithmetic is such a rule.
* `Retarget.distinct_resultType` — the type of a call.
-/

namespace Retarget

/-- The type of a shape about whose parts nothing is known. -/
def Tag.ty : Tag → Ty
  | .int => .int
  | .float => .float
  | .bool => .bool
  | .string => .string
  | .date => .date
  | .dateTime => .dateTime
  | .duration => .duration
  | .array => .array none
  | .record => .record []
  | .function => .function
  | .null => .null
  | .any => .any

namespace Ty

/-! ## Rules on shapes -/

/-- A rule that looks at the shapes of two types only, and knows nothing of the result where one of them
is unknown. -/
structure ShapeRule (rule : Ty → Ty → Ty) : Prop where
  shape : ∀ a b, rule a b = rule a.tag.ty b.tag.ty
  any_left : ∀ b, rule .any b = .any
  any_right : ∀ a, rule a .any = .any
  distinct : ∀ a b, (rule a b).Distinct

/-- Types of the same shapes have one result. -/
lemma ShapeRule.congr {rule : Ty → Ty → Ty} (h : ShapeRule rule) {a a' b b' : Ty}
    (ha : a'.tag = a.tag) (hb : b'.tag = b.tag) : rule a' b' = rule a b := by
  rw [h.shape, ha, hb, ← h.shape]

/-- The type of integers has no records. -/
lemma distinct_int : Distinct .int := .single nofun nofun

/-- The type of floats has no records. -/
lemma distinct_float : Distinct .float := .single nofun nofun

/-- The type of strings has no records. -/
lemma distinct_string : Distinct .string := .single nofun nofun

/-- The type of dates has no records. -/
lemma distinct_date : Distinct .date := .single nofun nofun

/-- The type of datetimes has no records. -/
lemma distinct_dateTime : Distinct .dateTime := .single nofun nofun

/-- The type of durations has no records. -/
lemma distinct_duration : Distinct .duration := .single nofun nofun

end Ty

open Ty

/-- Arithmetic on numbers gives no records. -/
lemma distinct_numericType (a b : Ty) : (numericType a b).Distinct := by
  unfold numericType
  split
  · exact distinct_int
  · split_ifs
    · exact distinct_float
    · exact distinct_any

/-- Arithmetic on numbers looks at shapes only. -/
lemma shapeRule_numericType : ShapeRule numericType where
  shape a b := by cases a <;> cases b <;> rfl
  any_left b := by cases b <;> rfl
  any_right a := by cases a <;> rfl
  distinct := distinct_numericType

/-- A difference looks at shapes only. -/
lemma shapeRule_differenceType : ShapeRule differenceType where
  shape a b := by cases a <;> cases b <;> rfl
  any_left b := by cases b <;> rfl
  any_right a := by cases a <;> rfl
  distinct a b := by
    unfold differenceType
    split <;> first
      | exact distinct_date
      | exact distinct_dateTime
      | exact distinct_duration
      | exact distinct_numericType _ _

/-- A product looks at shapes only. -/
lemma shapeRule_productType : ShapeRule productType where
  shape a b := by cases a <;> cases b <;> rfl
  any_left b := by cases b <;> rfl
  any_right a := by cases a <;> rfl
  distinct a b := by
    unfold productType
    split <;> first
      | exact distinct_duration
      | exact distinct_numericType _ _

/-- A quotient looks at shapes only. -/
lemma shapeRule_quotientType : ShapeRule quotientType where
  shape a b := by cases a <;> cases b <;> rfl
  any_left b := by cases b <;> rfl
  any_right a := by cases a <;> rfl
  distinct a b := by
    unfold quotientType
    split <;> first
      | exact distinct_duration
      | exact distinct_numericType _ _

/-- A sum looks at the shapes of its operands unless both are arrays. -/
lemma sumType_shape {a b : Ty} (h : ¬ (a.tag = .array ∧ b.tag = .array)) :
    sumType a b = sumType a.tag.ty b.tag.ty := by
  cases a <;> cases b <;> first | rfl | exact absurd ⟨rfl, rfl⟩ h

/-- A sum with an unknown left operand is unknown. -/
lemma sumType_any_left (b : Ty) : sumType .any b = .any := by
  cases b <;> rfl

/-- A sum with an unknown right operand is unknown. -/
lemma sumType_any_right (a : Ty) : sumType a .any = .any := by
  cases a <;> rfl

/-- A sum names fields once where its operands do. -/
lemma distinct_sumType {a b : Ty} (ha : a.Distinct) (hb : b.Distinct) : (sumType a b).Distinct := by
  unfold sumType
  split <;> first
    | exact distinct_string
    | exact ha.join hb
    | exact distinct_date
    | exact distinct_dateTime
    | exact distinct_duration
    | exact distinct_numericType _ _

/-- A sign looks at the shape of its operand. -/
lemma signedType_shape (a : Ty) : signedType a = signedType a.tag.ty := by
  cases a <;> rfl

/-- A sign gives no records. -/
lemma distinct_signedType (a : Ty) : (signedType a).Distinct := by
  unfold signedType
  split
  · exact distinct_int
  · exact distinct_float
  · exact distinct_duration
  · exact distinct_any

/-- Whether a type is one of numbers is told by its shape. -/
lemma isNumeric_shape (a : Ty) : a.isNumeric = a.tag.ty.isNumeric := by
  cases a <;> rfl

/-! ## Calls -/

/-- An item names fields once where its array does. -/
lemma distinct_element {a : Ty} (ha : a.Distinct) : a.element.Distinct := by
  unfold element
  split
  · exact distinct_array_iff.mp ha
  · exact distinct_any

/-- What is an array or unknown names fields once where the type does. -/
lemma distinct_arrayOrAny {a : Ty} (ha : a.Distinct) : (arrayOrAny a).Distinct := by
  unfold arrayOrAny
  split
  · exact ha
  · exact distinct_any

/-- Calls without arguments give no records. -/
lemma distinct_constantType (name : String) : (constantType name).Distinct := by
  unfold constantType
  split_ifs
  · exact distinct_date
  · exact distinct_dateTime
  · exact distinct_any

/-- Calls of one argument name fields once where the argument does. -/
lemma distinct_unaryType (name : String) {a : Ty} (ha : a.Distinct) :
    (unaryType name a).Distinct := by
  unfold unaryType
  split_ifs
  · exact distinct_signedType a
  · exact ha
  · exact distinct_any
  · exact distinct_element ha
  · exact distinct_any

/-- Calls of two arguments name fields once where both of them do. -/
lemma distinct_binaryType (name : String) {a b : Ty} (ha : a.Distinct) (hb : b.Distinct) :
    (binaryType name a b).Distinct := by
  unfold binaryType
  split_ifs
  · exact distinct_sumType ha hb
  · exact shapeRule_differenceType.distinct a b
  · exact shapeRule_productType.distinct a b
  · exact shapeRule_quotientType.distinct a b
  · exact distinct_numericType a b
  · exact distinct_any

/-- The type of a call names the fields of records once if the types of its arguments do.

**Proof sketch.** The rules are tried in the order of `resultType`, each with its lemma. -/
lemma distinct_resultType (name : String) {args : List Ty} (h : ∀ t ∈ args, t.Distinct) :
    (resultType name args).Distinct := by
  have hfilter {a : Ty} (ha : a.Distinct) {other : Ty} (hother : other.Distinct) :
      (if name = "filter" then arrayOrAny a else other).Distinct := by
    split_ifs
    · exact distinct_arrayOrAny ha
    · exact hother
  unfold resultType
  split
  · exact distinct_bool
  split
  · exact distinct_string
  split
  · exact distinct_int
  split
  · exact .unknownItem
  match args, h with
  | [], _ => exact distinct_constantType name
  | [a], h => exact hfilter (h a (by simp)) (distinct_unaryType name (h a (by simp)))
  | [a, b], h =>
    exact hfilter (h a (by simp)) (distinct_binaryType name (h a (by simp)) (h b (by simp)))
  | a :: _ :: _ :: _, h => exact hfilter (h a (by simp)) distinct_any

end Retarget
