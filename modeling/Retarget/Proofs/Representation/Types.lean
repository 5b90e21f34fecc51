import Retarget.Proofs.Lowered
import Retarget.Proofs.Representation.Expression
import Retarget.Proofs.Types.Join

set_option autoImplicit false

/-!
# Representations of values in SQL

The type that the database gives to an expression, and whether it is the one that a static type stands
for: `jsonb` for values of unknown type and records, a native array for arrays, and the column type for
all other types. The types of the helpers are those that the calls they stand for have.

## Main definitions

* `Retarget.Sql.Base`, `Retarget.Sql.Representation` — the types of the database, up to the widths of
  numbers.
* `Retarget.Sql.Prelude` — what helpers return.
* `Retarget.Sql.Expression.representation` — the type that the database gives to an expression.
* `Retarget.Sql.Fits` — the representation is the one that the static type stands for.

## Main results

* `Retarget.Sql.FitsIn.join` — branches in one representation each have the one of their common type.
* `Retarget.Sql.FitsIn.joinAll` — the same for a row of branches.
-/

namespace Retarget.Sql

/-! ## Types of the database -/

/-- The types of single values. Integers of all widths are one type here, and so are numbers that need
not be whole. -/
inductive Base
  | integer | number | boolean | text | date | timestamptz | interval | jsonb
  /-- The type of a null constant, which takes on any other type. -/
  | null
  /-- Any type that is none of these, and that of code which the database refuses. -/
  | other
deriving DecidableEq, Repr

/-- The type of a value: a single one, or an array. Arrays of arrays are arrays of their items. -/
inductive Representation
  | single (base : Base)
  | array (base : Base)
deriving DecidableEq, Repr

namespace Base

/-- The common type of two branches or items. -/
def common : Base → Base → Base
  | .null, b => b
  | a, .null => a
  | .integer, .number | .number, .integer => .number
  | a, b => if a = b then a else .other

/-- The type of an operation on two single values; `jsonb` has no arithmetic. -/
def operation (op : String) : Base → Base → Base
  | .text, .text => if op = "||" then .text else .other
  | .integer, .integer =>
    if op ∈ ["+", "-", "*", "/", "%"] then .integer else if op = "^" then .number else .other
  | .integer, .number | .number, .integer | .number, .number =>
    if op ∈ ["+", "-", "*", "/", "%", "^"] then .number else .other
  | .date, .integer => if op ∈ ["+", "-"] then .date else .other
  | .timestamptz, .interval => if op ∈ ["+", "-"] then .timestamptz else .other
  | .interval, .timestamptz => if op = "+" then .timestamptz else .other
  | .timestamptz, .timestamptz => if op = "-" then .interval else .other
  | .interval, .interval => if op ∈ ["+", "-"] then .interval else .other
  | .interval, .integer | .interval, .number => if op ∈ ["*", "/"] then .interval else .other
  | .integer, .interval | .number, .interval => if op = "*" then .interval else .other
  | _, _ => .other

/-- The type of a minus sign in front of a value. -/
def negated : Base → Base
  | .integer => .integer
  | .number => .number
  | .interval => .interval
  | _ => .other

/-- The type of null goes with any type. -/
@[simp] lemma common_null_left (b : Base) : Base.null.common b = b := by
  cases b <;> rfl

/-- Any type goes with that of null. -/
@[simp] lemma common_null_right (b : Base) : b.common .null = b := by
  cases b <;> rfl

/-- A type goes with itself. -/
@[simp] lemma common_self (b : Base) : b.common b = b := by
  cases b <;> rfl

/-- No operator gives `jsonb` or a null constant. -/
lemma operation_ne (op : String) (a b : Base) :
    operation op a b ≠ .jsonb ∧ operation op a b ≠ .null := by
  cases a <;> cases b <;> simp only [operation] <;> (try split_ifs) <;> decide

end Base

/-- The operators that give truth values. -/
def truthOperators : List String :=
  ["<", "<=", ">", ">=", "=", "IS", "IS NOT DISTINCT FROM", "IS DISTINCT FROM", "NOT", "AND", "OR"]

namespace Representation

/-- The type of single values, or of the items of an array. -/
def base : Representation → Base
  | .single b | .array b => b

/-- The common type of two branches or items. -/
def common : Representation → Representation → Representation
  | .single a, .single b => .single (a.common b)
  | .array a, .array b => .array (a.common b)
  | .single .null, .array b => .array b
  | .array a, .single .null => .array a
  | _, _ => .single .other

/-- The common type of a row of branches or items. -/
def commonAll (rs : List Representation) : Representation := rs.foldl common (.single .null)

/-- The type of an operation. -/
def operation (op : String) (a b : Representation) : Representation :=
  if op ∈ truthOperators then .single .boolean
  else
    match a, b with
    | .single x, .single y => .single (Base.operation op x y)
    | .array x, .array y => if op = "||" then .array (x.common y) else .single .other
    | _, _ => .single .other

/-- The type of a minus sign in front of a value. -/
def negated : Representation → Representation
  | .single b => .single b.negated
  | .array _ => .single .other

/-- The type of an item of an array. -/
def item : Representation → Representation
  | .array b => .single b
  | .single _ => .single .other

/-- A null goes with any representation. -/
@[simp] lemma common_null_left (r : Representation) : (Representation.single .null).common r = r := by
  cases r with
  | single b => exact congrArg _ (Base.common_null_left b)
  | array b => rfl

/-- Any representation goes with a null. -/
@[simp] lemma common_null_right (r : Representation) : r.common (.single .null) = r := by
  cases r with
  | single b => exact congrArg _ (Base.common_null_right b)
  | array b => rfl

/-- A comparison gives a truth value. -/
lemma operation_truth {op : String} (h : op ∈ truthOperators) (a b : Representation) :
    operation op a b = .single .boolean := by
  unfold operation
  exact if_pos h

/-- An operation on single values other than a comparison gives what it gives for their types. -/
lemma operation_single {op : String} (h : op ∉ truthOperators) (a b : Base) :
    operation op (.single a) (.single b) = .single (Base.operation op a b) := by
  unfold operation
  exact if_neg h

/-- No operator but one of truth gives `jsonb`. -/
lemma operation_ne_jsonb {op : String} (h : op ∉ truthOperators) (r s : Representation) :
    operation op r s ≠ .single .jsonb := by
  unfold operation
  rw [if_neg h]
  cases r with
  | single a =>
    cases s with
    | single b => exact fun heq => (Base.operation_ne op a b).1 (Representation.single.inj heq)
    | array b => simp
  | array a =>
    cases s with
    | single b => simp
    | array b =>
      dsimp only
      split_ifs <;> simp

/-- A minus sign gives no `jsonb` value. -/
lemma negated_ne_jsonb (r : Representation) : r.negated ≠ .single .jsonb := by
  cases r with
  | single b => cases b <;> decide
  | array b => simp [negated]

/-- The last of a row of branches comes to what is common before it. -/
lemma commonAll_append_singleton (rs : List Representation) (r : Representation) :
    commonAll (rs ++ [r]) = (commonAll rs).common r := by
  simp [commonAll]

/-- What is common to a row of branches starts with the first one. -/
lemma commonAll_cons (r : Representation) (rs : List Representation) :
    commonAll (r :: rs) = rs.foldl common r := by
  rw [commonAll, List.foldl_cons, common_null_left]

end Representation

/-- The type of a constant. -/
def literalBase : Literal → Base
  | .int _ => .integer
  | .float _ => .number
  | .bool _ => .boolean
  | .string _ => .text
  | .date _ => .date
  | .dateTime _ => .timestamptz
  | .duration _ => .interval
  | .null => .null

/-- A column type as a type of single values. -/
def Column.base : Column → Base
  | .bigint => .integer
  | .numeric | .doublePrecision => .number
  | .boolean => .boolean
  | .text => .text
  | .date => .date
  | .timestamp => .other
  | .timestamptz => .timestamptz
  | .interval => .interval
  | .jsonb => .jsonb

/-- The type of single values that types of a tag stand for. -/
def tagBase? : Tag → Option Base
  | .int => some .integer
  | .float => some .number
  | .bool => some .boolean
  | .string => some .text
  | .date => some .date
  | .dateTime => some .timestamptz
  | .duration => some .interval
  | .record | .any => some .jsonb
  | .null => some .null
  | .array | .function => none

/-- The type of single values that a static type stands for. -/
def base? (ty : Ty) : Option Base := tagBase? ty.tag

/-- The types of fixed code: truth, the clock, and the days of the current period. -/
def fixedTypes : List (String × Base) :=
  [("TRUE", .boolean), ("CURRENT_DATE", .date), ("CURRENT_DATE + 1", .date),
   ("CURRENT_DATE - 1", .date), ("CURRENT_TIMESTAMP", .timestamptz),
   ("date_trunc('day', CURRENT_TIMESTAMP)", .timestamptz),
   ("date_trunc('day', CURRENT_TIMESTAMP) + INTERVAL '1 day' - INTERVAL '1 microsecond'",
    .timestamptz)] ++
  (["week", "month", "quarter", "year"].map fun unit =>
    (cast ("date_trunc('" ++ unit ++ "', CURRENT_DATE)") .date, .date)) ++
  ([("week", "1 week"), ("month", "1 month"), ("quarter", "3 months"), ("year", "1 year")].map
    fun (unit, length) =>
      (cast ("date_trunc('" ++ unit ++ "', CURRENT_DATE)" ++ " + INTERVAL '" ++ length ++
        "' - INTERVAL '1 day'") .date, .date))

/-- The types of functions whose arguments do not matter for them. -/
def functionTypes : List (String × Base) :=
  [("TRIM", .text), ("UPPER", .text), ("LOWER", .text), ("array_to_string", .text),
   ("starts_with", .boolean), ("LENGTH", .integer), ("cardinality", .integer),
   ("make_interval", .interval), ("jsonb_build_object", .jsonb), ("to_jsonb", .jsonb)]

/-- The calls of helpers whose type is not known. -/
def untypedCalls : List String :=
  ["add", "sub", "mul", "div", "mod", "pow", "neg", "abs", "first", "last", "fail"]

/-- What helpers return: the type of the call that they stand for, and `jsonb` where that is not
known. -/
structure Prelude where
  /-- The type of the helper that stands for a call of the name. -/
  returns : String → Base
  truth : ∀ name ∈ truthCalls, returns name = .boolean
  string : ∀ name ∈ stringCalls, returns name = .text
  integer : ∀ name ∈ integerCalls, returns name = .integer
  selector : ∀ s ∈ selectables, ∀ name ∈ s.valueCalls, base? s.ty = some (returns name)
  check : ∀ s ∈ selectables, returns ("is_" ++ s.stem) = .boolean
  untyped : ∀ name ∈ untypedCalls, returns name = .jsonb

namespace Expression

mutual

/-- The type that the database gives to an expression. -/
def representation (prelude : Prelude) : Expression → Representation
  | .code _ op => .single (if op.any (· ∈ truthOperators) then .boolean else .other)
  | .input _ => .single .jsonb
  | .constant value => .single (literalBase value)
  | .fixed text _ => .single ((fixedTypes.lookup text).getD .other)
  | .operation op lhs rhs => .operation op (lhs.representation prelude) (rhs.representation prelude)
  | .negated operand => (operand.representation prelude).negated
  | .call function args =>
    -- An absolute value has the type of its argument.
    if function = "ABS" then .commonAll (representations prelude args)
    else .single ((functionTypes.lookup function).getD .other)
  | .helper name _ => .single (prelude.returns name)
  | .failure ty _ => .single (((column? ty).map Column.base).getD (prelude.returns "fail"))
  | .coalesce parts => .commonAll (representations prelude parts)
  | .cast _ column => .single column.base
  | .member _ _ => .single .jsonb
  | .memberText _ _ => .single .text
  | .array items => .array (Representation.commonAll (representations prelude items)).base
  | .parens inner => inner.representation prelude
  | .firstItem items | .lastItem items => (items.representation prelude).item
  | .choice _ yes no => (yes.representation prelude).common (no.representation prelude)

/-- The types that the database gives to a row of expressions. -/
def representations (prelude : Prelude) : List Expression → List Representation
  | [] => []
  | e :: es => e.representation prelude :: representations prelude es

end

variable (prelude : Prelude)

/-- A row of expressions has its representations one by one. -/
lemma representations_eq_map (es : List Expression) :
    representations prelude es = es.map (representation prelude) := by
  induction es with
  | nil => rfl
  | cons e es ih => exact congrArg _ ih

/-- Parentheses do not matter for the representation. -/
@[simp] lemma representation_wrapped (e : Expression) (outer : String) (side : Side) :
    (e.wrapped outer side).representation prelude = e.representation prelude := by
  unfold wrapped
  split_ifs
  · rw [representation]
  · rfl

/-- An operator gives the type of its operation. -/
lemma representation_infixed (op : String) (lhs rhs : Expression) :
    (infixed op lhs rhs).representation prelude =
      .operation op (lhs.representation prelude) (rhs.representation prelude) := by
  rw [infixed, representation, representation_wrapped, representation_wrapped]

/-- A failure of a type without a column type is `jsonb`. -/
lemma representation_failure {ty : Ty} (h : column? ty = none) (message : String) :
    (failure ty message).representation prelude = .single .jsonb := by
  rw [representation, h, Option.map_none, Option.getD_none, prelude.untyped "fail" (by decide)]

end Expression

/-! ## Static types -/

/-- The representation is the one that the static type stands for; functions have none. Nothing is asked
of the items of arrays that have no common type or are arrays themselves. -/
def Fits (ty : Ty) (r : Representation) : Prop :=
  match ty with
  | .array item => ∃ b, r = .array b ∧ ∀ t ∈ item, ∀ c ∈ base? t, b = c
  | _ => (base? ty).map .single = some r

/-- The same, where a candidate that another one follows may also be null. -/
def FitsIn (recovered : Bool) (ty : Ty) (r : Representation) : Prop :=
  Fits ty r ∨ (recovered = true ∧ r = .single .null)

/-- A candidate that nothing follows fits as any expression. -/
@[simp] lemma fitsIn_false {ty : Ty} {r : Representation} : FitsIn false ty r ↔ Fits ty r := by
  simp [FitsIn]

/-- What fits does so as a candidate. -/
lemma Fits.fitsIn {ty : Ty} {r : Representation} (h : Fits ty r) (recovered : Bool) :
    FitsIn recovered ty r :=
  .inl h

/-- What fits does so where more may be null. -/
lemma FitsIn.mono {ty : Ty} {r : Representation} {recovered recovered' : Bool}
    (h : FitsIn recovered ty r) (hle : recovered = true → recovered' = true) :
    FitsIn recovered' ty r :=
  h.imp id fun ⟨hrecovered, hnull⟩ => ⟨hle hrecovered, hnull⟩

/-- A type that stands for single values of one type fits these only. -/
lemma fits_iff_of_base {ty : Ty} {r : Representation} {c : Base} (h : base? ty = some c) :
    Fits ty r ↔ r = .single c := by
  cases ty with
  | array | function => cases h
  | int | float | bool | string | date | dateTime | duration | record | null | any =>
    simp only [Fits, h, Option.map_some, Option.some.injEq, eq_comm]

/-- Nothing fits the type of functions. -/
lemma not_fits_function (r : Representation) : ¬Fits .function r := nofun

/-- Among what is represented as its type says, values of unknown type and records are `jsonb`. -/
lemma Fits.eq_jsonb_iff {ty : Ty} {r : Representation} (h : Fits ty r) :
    r = .single .jsonb ↔ ty.tag ∈ [.any, .record] := by
  cases ty with
  | array item =>
    obtain ⟨b, rfl, -⟩ := h
    simp [Ty.tag]
  | function => exact (not_fits_function r h).elim
  | int | float | bool | string | date | dateTime | duration | record | null | any =>
    rw [(fits_iff_of_base rfl).mp h]
    simp [Ty.tag]

/-- The type of a constant stands for the type of its value. -/
lemma base_literal (value : Literal) : base? value.ty = some (literalBase value) := by
  cases value <;> rfl

section Same

variable {a b : Ty}

/-- Equal types stand for the same type of single values. -/
lemma base_of_same (h : a.same b = true) : base? a = base? b :=
  congrArg tagBase? (Ty.tag_of_same h)

/-- Types that are the same stand for one representation.

**Proof sketch.** By cases on the type. An array needs its items compared; every other type has a
base, which the check for being the same keeps. -/
lemma Fits.of_same {r : Representation} (h : a.same b = true) (hb : Fits b r) : Fits a r := by
  have htag := Ty.tag_of_same h
  cases a with
  | array x =>
    cases b with
    | array y =>
      obtain ⟨base, rfl, hitems⟩ := hb
      refine ⟨base, rfl, fun t ht c hc => ?_⟩
      cases ht
      cases y with
      | none => simp [Ty.same] at h
      | some u =>
        have hsame : t.same u = true := by simpa [Ty.same] using h
        exact hitems u rfl c (base_of_same hsame ▸ hc)
    | int | float | bool | string | date | dateTime | duration | record | function | null | any =>
      cases htag
  | function =>
    cases b with
    | function => exact (not_fits_function r hb).elim
    | int | float | bool | string | date | dateTime | duration | array | record | null | any =>
      cases htag
  | int | float | bool | string | date | dateTime | duration | record | null | any =>
    have hbase := base_of_same h
    rw [fits_iff_of_base rfl]
    exact (fits_iff_of_base hbase.symm).mp hb

end Same

/-! ## Common types -/

/-- Two branches in the representation of one type. -/
lemma Fits.common {ty : Ty} {r s : Representation} (hr : Fits ty r) (hs : Fits ty s) :
    Fits ty (r.common s) := by
  cases ty with
  | array item =>
    obtain ⟨b, rfl, hb⟩ := hr
    obtain ⟨c, rfl, hc⟩ := hs
    refine ⟨b.common c, rfl, fun t ht base hbase => ?_⟩
    rw [hb t ht base hbase, hc t ht base hbase, Base.common_self]
  | function => exact (not_fits_function r hr).elim
  | int | float | bool | string | date | dateTime | duration | record | null | any =>
    rw [fits_iff_of_base rfl] at hr hs ⊢
    rw [hr, hs]
    exact congrArg _ (Base.common_self _)

/-- The same where one of them may be null. -/
lemma FitsIn.common_right {recovered : Bool} {ty : Ty} {r s : Representation}
    (hr : FitsIn recovered ty r) (hs : Fits ty s) : Fits ty (r.common s) := by
  rcases hr with hr | ⟨-, rfl⟩
  · exact hr.common hs
  · rwa [Representation.common_null_left]

/-- What is common to two branches that fit a type fits it. -/
lemma FitsIn.common {recovered : Bool} {ty : Ty} {r s : Representation}
    (hr : FitsIn recovered ty r) (hs : FitsIn recovered ty s) : FitsIn recovered ty (r.common s) := by
  rcases hs with hs | ⟨hrecovered, rfl⟩
  · exact .inl (hr.common_right hs)
  · rwa [Representation.common_null_right]

/-- A row of branches of one type, each of which may be null. -/
lemma FitsIn.commonAll {ty : Ty} {rs : List Representation} (h : ∀ r ∈ rs, FitsIn true ty r) :
    FitsIn true ty (.commonAll rs) := by
  have hfold : ∀ r, FitsIn true ty r → FitsIn true ty (rs.foldl Representation.common r) := by
    induction rs with
    | nil => exact fun r hr => hr
    | cons s rs ih =>
      obtain ⟨hs, hrest⟩ := List.forall_mem_cons.mp h
      exact fun r hr => ih hrest _ (hr.common hs)
  exact hfold _ (.inr ⟨rfl, rfl⟩)

section Join

variable {a b : Ty} {r s : Representation} {recovered : Bool}

/-- Two branches in the representations of their types have the one of the common type. -/
lemma Fits.join (ha : Fits a r) (hb : Fits b s) (hany : a.join b ≠ .any) :
    Fits (a.join b) (r.common s) := by
  rcases Ty.join_cases a b with ⟨hsame, hjoin⟩ | ⟨rfl, hjoin⟩ | ⟨rfl, hjoin⟩ |
    ⟨x, y, rfl, rfl, hjoin⟩ | hjoin
  · rw [hjoin]
    exact ha.common (hb.of_same hsame)
  · rw [fits_iff_of_base rfl] at ha
    rwa [hjoin, ha, Representation.common_null_left]
  · rw [fits_iff_of_base rfl] at hb
    rwa [hjoin, hb, Representation.common_null_right]
  · obtain ⟨base, rfl, -⟩ := ha
    obtain ⟨base', rfl, -⟩ := hb
    rw [hjoin]
    exact ⟨base.common base', rfl, nofun⟩
  · exact absurd hjoin hany

/-- A branch in the representation of its type has the one of the common type, or is null. -/
lemma Fits.join_left (ha : Fits a r) (hany : a.join b ≠ .any) : FitsIn true (a.join b) r := by
  rcases Ty.join_cases a b with ⟨-, hjoin⟩ | ⟨rfl, -⟩ | ⟨rfl, hjoin⟩ | ⟨x, y, rfl, rfl, hjoin⟩ |
    hjoin
  · rw [hjoin]
    exact .inl ha
  · exact .inr ⟨rfl, (fits_iff_of_base rfl).mp ha⟩
  · rw [hjoin]
    exact .inl ha
  · obtain ⟨base, rfl, -⟩ := ha
    rw [hjoin]
    exact .inl ⟨base, rfl, nofun⟩
  · exact absurd hjoin hany

/-- What fits one of two types that go together fits their common type as a candidate. -/
lemma Fits.join_right (hb : Fits b s) (hany : a.join b ≠ .any) : FitsIn true (a.join b) s := by
  rcases Ty.join_cases a b with ⟨hsame, hjoin⟩ | ⟨rfl, hjoin⟩ | ⟨rfl, -⟩ |
    ⟨x, y, rfl, rfl, hjoin⟩ | hjoin
  · rw [hjoin]
    exact .inl (hb.of_same hsame)
  · rw [hjoin]
    exact .inl hb
  · exact .inr ⟨rfl, (fits_iff_of_base rfl).mp hb⟩
  · obtain ⟨base, rfl, -⟩ := hb
    rw [hjoin]
    exact .inl ⟨base, rfl, nofun⟩
  · exact absurd hjoin hany

/-- What is common to two candidates fits the common type of their types, if there is one. -/
lemma FitsIn.join (ha : FitsIn recovered a r) (hb : FitsIn recovered b s) (hany : a.join b ≠ .any) :
    FitsIn recovered (a.join b) (r.common s) := by
  rcases ha with ha | ⟨rfl, rfl⟩
  · rcases hb with hb | ⟨rfl, rfl⟩
    · exact .inl (ha.join hb hany)
    · rw [Representation.common_null_right]
      exact ha.join_left hany
  · rw [Representation.common_null_left]
    rcases hb with hb | ⟨-, rfl⟩
    · exact hb.join_right hany
    · exact .inr ⟨rfl, rfl⟩

end Join

/-- The unknown type takes in every other one. -/
lemma Ty.any_join (b : Ty) : Ty.any.join b = .any := by
  unfold Ty.join
  split_ifs
  · rfl
  · cases b <;> rfl

/-- The unknown type takes in a row of others. -/
lemma Ty.foldl_any_join (ts : List Ty) : ts.foldl Ty.join .any = .any := by
  induction ts with
  | nil => rfl
  | cons t ts ih => rw [List.foldl_cons, Ty.any_join, ih]

/-- Branches in the representations of their types have the one of the common type of all. -/
lemma FitsIn.joinAll {recovered : Bool} {ts : List Ty} {rs : List Representation}
    (h : List.Forall₂ (FitsIn recovered) ts rs) (hany : Ty.joinAll ts ≠ .any) :
    FitsIn recovered (Ty.joinAll ts) (.commonAll rs) := by
  cases h with
  | nil => exact absurd rfl hany
  | @cons t r ts rs hhead htail =>
    rw [Representation.commonAll_cons]
    rw [Ty.joinAll] at hany ⊢
    induction htail generalizing t r with
    | nil => exact hhead
    | @cons u s ts rs hu _ ih =>
      rw [List.foldl_cons] at hany ⊢
      rw [List.foldl_cons]
      refine ih (hhead.join hu fun hjoin => hany ?_) hany
      rw [hjoin, Ty.foldl_any_join]

end Retarget.Sql
