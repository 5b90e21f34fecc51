import Retarget.Proofs.Representation.Calls

set_option autoImplicit false

/-!
# Calls represented as their types say

Each call whose arguments are represented as their types say, name by name: those whose name settles the
type, arithmetic, signs and absolute values, items of arrays, members and failures, and what is made of
its arguments. What a form gives is decided by the types of the arguments, and what is expected of it by
the type of the call, so each case compares the two.

## Main definitions

* `Retarget.Sql.PartsFit` — the arguments that a call writes are represented as their types say.
* `Retarget.Sql.columnless` — the types that have no column type and are not `jsonb`.

## Main results

* `Retarget.Sql.fits_arithmetic_iff` — arithmetic fits unless operands of known types give a result of
  unknown type.
* `Retarget.Sql.fits_call_iff` — a call fits exactly where it is not odd.
-/

namespace Retarget.Sql

/-- The type of a call whose name settles it.

**Proof sketch.** The lists of names are asked in the order in which `resultType` asks them.
Constants of dates and datetimes have no arguments, or they would take a type from these. -/
lemma base_resultType {name : String} {c : Base} (h : settledBase? name = some c) {types : List Ty}
    (htypes : name ∈ dateCalls ++ dateTimeCalls → types = []) :
    base? (resultType name types) = some c := by
  have hmap : ∀ name ∈ dateCalls ++ dateTimeCalls, name ≠ "map" := by decide
  unfold settledBase? at h
  split_ifs at h with htruth hstring hinteger hdate hdateTime
  · unfold resultType
    rw [if_pos htruth]
    exact h
  · unfold resultType
    rw [if_neg htruth, if_pos hstring]
    exact h
  · unfold resultType
    rw [if_neg htruth, if_neg hstring, if_pos hinteger]
    exact h
  · have hmem := List.mem_append_left dateTimeCalls hdate
    rw [htypes hmem, resultType, if_neg htruth, if_neg hstring, if_neg hinteger,
      if_neg (hmap name hmem), constantType, if_pos hdate]
    exact h
  · have hmem := List.mem_append_right dateCalls hdateTime
    rw [htypes hmem, resultType, if_neg htruth, if_neg hstring, if_neg hinteger,
      if_neg (hmap name hmem), constantType, if_neg hdate, if_pos hdateTime]
    exact h

/-! ## Calls by name -/

/-- The representation of a call in a form. -/
def callRepresentation (prelude : Prelude) (env : Expressions) (name : String) (irs : List Ir) (ty : Ty)
    (form : CallForm) : Representation :=
  (callExpression name (irs.map Ir.ty) ty (arguments env irs) form).representation prelude

/-- The arguments that a call in a form writes are represented as their types say. -/
def PartsFit (prelude : Prelude) (env : Expressions) (name : String) (irs : List Ir) (ty : Ty)
    (form : CallForm) : Prop :=
  ∀ a ∈ irs, target.operand a ∈
    form.written ⟨name, Target.operands target irs, irs.map Ir.ty, ty⟩ →
      Fits a.ty ((expression env a).representation prelude)

section Calls

variable (prelude : Prelude) {env : Expressions} {name : String} {irs : List Ir} {ty : Ty}
  {form : CallForm}

/-- A call whose name settles its type.

**Proof sketch.** The name settles a base type `c`. The entry of the registry that was found has
been checked to give `c`, by its form or through a helper that the prelude declares so, and the type
of the call has the base `c` by the rule for results (`base_resultType`). -/
lemma fits_settled (hlookup : registry.lookup name ((irs.map Ir.ty).map Ty.tag) = .ok form)
    (hrule : CallRule name (irs.map Ir.ty) ty) {c : Base} (hname : settledBase? name = some c) :
    Fits ty (callRepresentation prelude env name irs ty form) := by
  have hsettled : ∀ name ∈ truthCalls ++ stringCalls ++ integerCalls ++ dateCalls ++ dateTimeCalls,
      name ∉ ["array", "record"] ∧ name ∉ builtCalls := by
    decide
  have hmem : name ∈ truthCalls ++ stringCalls ++ integerCalls ++ dateCalls ++ dateTimeCalls := by
    unfold settledBase? at hname
    split_ifs at hname <;> simp [*]
  obtain ⟨signature, hcovers, hpasses, -⟩ := entry_of_lookup hlookup (hsettled name hmem).1
  simp only [settledPasses, hname, Option.all_some, Bool.and_eq_true, Bool.or_eq_true,
    decide_eq_true_eq, beq_iff_eq, Bool.not_eq_true'] at hpasses
  obtain ⟨hgives, hconstant⟩ := hpasses
  have hbase : base? ty = some c := by
    rw [hrule.eq_resultType (hsettled name hmem).2]
    refine base_resultType hname fun hdate => ?_
    obtain ⟨rfl, -⟩ := hconstant.resolve_left (not_not.mpr hdate)
    cases irs with
    | nil => rfl
    | cons => cases hcovers
  have hreturns (hform : form.callsHelper = true) : prelude.returns name = c := by
    unfold settledBase? at hname
    split_ifs at hname with htruth hstring hinteger hdate hdateTime
    · cases hname
      exact prelude.truth name htruth
    · cases hname
      exact prelude.string name hstring
    · cases hname
      exact prelude.integer name hinteger
    · obtain ⟨-, hnone⟩ := hconstant.resolve_left (not_not.mpr (List.mem_append_left _ hdate))
      rw [hform] at hnone
      cases hnone
    · obtain ⟨-, hnone⟩ := hconstant.resolve_left (not_not.mpr (List.mem_append_right _ hdateTime))
      rw [hform] at hnone
      cases hnone
  rw [fits_iff_of_base hbase]
  exact representation_gives prelude hgives hreturns

/-- A type with the tag of arrays is that of an array. -/
lemma exists_array {t : Ty} (h : t.tag = .array) : ∃ item, t = .array item := by
  cases t <;> first | exact ⟨_, rfl⟩ | cases h

/-- Two types of arrays have a common type. -/
lemma join_array_ne_any (x y : Option Ty) : (Ty.array x).join (.array y) ≠ .any := by
  unfold Ty.join
  split_ifs <;> simp

/-- Arithmetic whose type is not known takes an operator on all operands.

**Proof sketch.** The check of the registry leaves three cases: an operator on all operands, a row
of the table of operators, and the one for arrays. In the last two the operands have the types of
the signature, and the type of the call is known. -/
lemma operator_of_any (hname : name ∈ arithmeticCalls) {a b : Ir} {signature : List Tag}
    (hcovers : Covers signature [a.ty.tag, b.ty.tag])
    (hpasses : arithmeticPasses name signature form = true)
    (hany : binaryType name a.ty b.ty = .any) : ∃ op, form = .operator op ∧ op ∉ truthOperators := by
  simp only [arithmeticPasses, hname, not_true_eq_false, decide_false, Bool.false_or, Bool.or_eq_true,
    Bool.and_eq_true, beq_iff_eq, List.any_eq_true] at hpasses
  rcases hpasses with (⟨-, hform⟩ | ⟨⟨name', s, t, r⟩, hrow, rfl, rfl⟩) | ⟨rfl, rfl⟩
  · cases form <;> first | cases hform | exact ⟨_, rfl, of_decide_eq_true hform⟩
  · have hrow := rowPasses_of_mem hrow
    unfold rowPasses at hrow
    split at hrow
    · simp only [Bool.and_eq_true, Bool.not_eq_true', List.all_eq_true, decide_eq_true_eq] at hrow
      obtain ⟨⟨-, hknown⟩, hscalar⟩ := hrow
      have hsame := hcovers.eq fun tag htag heq => hscalar tag htag (by simp [heq])
      simp only [List.cons.injEq, and_true] at hsame
      obtain ⟨rfl, rfl⟩ := hsame
      rw [← eq_ofTag (hscalar a.ty.tag (by simp)), ← eq_ofTag (hscalar b.ty.tag (by simp)), hany]
        at hknown
      cases hknown
    · cases hrow
  · have hsame := hcovers.eq (by decide)
    simp only [List.cons.injEq, and_true] at hsame
    obtain ⟨ha, hb⟩ := hsame
    obtain ⟨x, hx⟩ := exists_array ha.symm
    obtain ⟨y, hy⟩ := exists_array hb.symm
    rw [hx, hy] at hany
    exact (join_array_ne_any x y hany).elim

/-- The type of arithmetic on two operands. -/
lemma resultType_arithmetic (hname : name ∈ arithmeticCalls) (a b : Ty) :
    resultType name [a, b] = binaryType name a b := by
  simp only [arithmeticCalls, List.mem_cons, List.not_mem_nil, or_false] at hname
  rcases hname with rfl | rfl | rfl | rfl | rfl | rfl <;> rfl

/-- Arithmetic has two operands. -/
lemma length_of_arithmeticPasses {signature : List Tag} (hname : name ∈ arithmeticCalls)
    (h : arithmeticPasses name signature form = true) : signature.length = 2 := by
  simp only [arithmeticPasses, hname, not_true_eq_false, decide_false, Bool.false_or, Bool.or_eq_true,
    Bool.and_eq_true, beq_iff_eq, List.any_eq_true] at h
  rcases h with (⟨rfl, -⟩ | ⟨_, -, -, rfl⟩) | ⟨-, rfl⟩ <;> rfl

/-- Operands that go together are represented as their type says. -/
lemma fits_row {a b : Ir}
    (hlookup : registry.lookup name [a.ty.tag, b.ty.tag] = .ok form)
    (hrow : (name, a.ty.tag, b.ty.tag, ty.tag) ∈ arithmeticRows)
    (hparts : PartsFit prelude env name [a, b] ty form) :
    Fits ty (callRepresentation prelude env name [a, b] ty form) := by
  have hpasses := rowPasses_of_mem hrow
  simp only [rowPasses, hlookup] at hpasses
  split at hpasses
  · rename_i c d hform hc hd
    cases hform
    simp only [Bool.and_eq_true, beq_iff_eq, List.all_eq_true, decide_eq_true_eq] at hpasses
    obtain ⟨⟨⟨hsome, hnative⟩, -⟩, hscalar⟩ := hpasses
    obtain ⟨e, he⟩ := Option.isSome_iff_exists.mp hsome
    have hany : [a.ty, b.ty].any Ty.isAny = false := by
      have hknown {t : Ty} (h : t.tag ∉ [.array, .record, .any]) : t.isAny = false := by
        cases t <;> first | rfl | simp [Ty.tag] at h
      simp [hknown (hscalar a.ty.tag (by simp)), hknown (hscalar b.ty.tag (by simp))]
    have hbase : base? ty = some e := hnative.symm.trans he
    rw [fits_iff_of_base hbase]
    exact representation_native prelude he hc hd hany hparts
  · cases hpasses

/-- Two arrays in a row are an array.

**Proof sketch.** The operator `||` gives the common type of two arrays, and the type of the call is
their join, which is an array still and so never unknown. -/
lemma fits_arrays {a b : Ir} {x y : Option Ty} (ha : a.ty = .array x) (hb : b.ty = .array y)
    (hlookup : registry.lookup "add" [a.ty.tag, b.ty.tag] = .ok form)
    (hparts : PartsFit prelude env "add" [a, b] ty form) :
    Fits (binaryType "add" a.ty b.ty) (callRepresentation prelude env "add" [a, b] ty form) := by
  have hfound : registry.lookup "add" [.array, .array] = .ok (.shared (.infixOp "||")) := rfl
  rw [ha, hb] at hlookup
  cases hfound.symm.trans hlookup
  have hleft := hparts a List.mem_cons_self List.mem_cons_self
  have hright := hparts b (by simp) (List.mem_cons_of_mem _ List.mem_cons_self)
  have hjoin : binaryType "add" a.ty b.ty = a.ty.join b.ty := by
    rw [ha, hb]
    rfl
  have hcommon : callRepresentation prelude env "add" [a, b] ty (.shared (.infixOp "||")) =
      ((expression env a).representation prelude).common
        ((expression env b).representation prelude) := by
    change (Expression.infixed "||" (expression env a) (expression env b)).representation prelude = _
    rw [ha] at hleft
    rw [hb] at hright
    obtain ⟨c, hc, -⟩ := hleft
    obtain ⟨d, hd, -⟩ := hright
    rw [Expression.representation_infixed, hc, hd]
    rfl
  rw [hjoin, hcommon]
  refine hleft.join hright ?_
  rw [ha, hb]
  exact join_array_ne_any x y

/-- An operator of arithmetic.

**Proof sketch.** The call has two operands and the type that `binaryType` gives these. If this type
is unknown the call fits only when the untyped helper is called, that is when an operand is of type
`any`, and this is what not being odd says. Else the type is the one of a row of the table of
operators (`fits_row`) or a joined array (`fits_arrays`), and both fit. -/
lemma fits_arithmetic_iff (hname : name ∈ arithmeticCalls)
    (hlookup : registry.lookup name ((irs.map Ir.ty).map Ty.tag) = .ok form)
    (hrule : CallRule name (irs.map Ir.ty) ty) (hparts : PartsFit prelude env name irs ty form) :
    Fits ty (callRepresentation prelude env name irs ty form) ↔
      ¬IsOddCall prelude name (arguments env irs) ty := by
  have hnames : ∀ name ∈ arithmeticCalls, name ∉ ["array", "record"] ∧ name ∉ builtCalls ∧
      name ∈ untypedCalls := by
    decide
  obtain ⟨hvariadic, hbuilt, huntyped⟩ := hnames name hname
  obtain ⟨signature, hcovers, -, hpasses, -, -⟩ := entry_of_lookup hlookup hvariadic
  obtain ⟨a, b, rfl⟩ : ∃ a b, irs = [a, b] := by
    refine List.length_eq_two.mp ?_
    simpa [length_of_arithmeticPasses hname hpasses] using hcovers.length_eq.symm
  have hty : ty = binaryType name a.ty b.ty :=
    (hrule.eq_resultType hbuilt).trans (resultType_arithmetic hname _ _)
  rw [isOddCall_arithmetic (List.mem_cons_of_mem _ hname)]
  -- Only an unknown type can make the call odd.
  by_cases hany : ty = .any
  · obtain ⟨op, rfl, hop⟩ := operator_of_any hname hcovers hpasses (hty.symm.trans hany)
    rw [hany, fits_iff_of_base rfl, callRepresentation, callExpression]
    split_ifs with hmixed
    · simp only [Expression.representation, prelude.untyped name huntyped, true_iff]
      intro hodd
      simp only [List.map_cons, List.map_nil, List.any_cons, List.any_nil, Bool.or_false,
        Bool.or_eq_true] at hmixed
      simp only [arguments, List.forall_mem_cons] at hodd
      rcases hmixed with hmixed | hmixed <;> simp [hmixed] at hodd
    · rw [Expression.representation_infixed]
      refine iff_of_false (Representation.operation_ne_jsonb hop _ _) (not_not.mpr ⟨rfl, ?_⟩)
      simpa [arguments, List.forall_mem_cons] using hmixed
  · refine iff_of_true ?_ fun hodd => hany ?_
    · rcases binaryType_cases hname a.ty b.ty with hresult | hrow | ⟨rfl, x, y, ha, hb⟩
      · exact absurd (hty.trans hresult) hany
      · rw [← hty] at hrow
        exact fits_row prelude hlookup hrow hparts
      · have harrays := fits_arrays prelude ha hb hlookup hparts
        rwa [← hty] at harrays
    · cases ty <;> first | rfl | simp [Ty.isAny] at hodd

/-! ### Calls of one argument -/

/-- A signature of one tag covers one argument. -/
lemma exists_one {signature : List Tag} {tag : Tag} (hsignature : signature = [tag])
    (hcovers : Covers signature ((irs.map Ir.ty).map Ty.tag)) : ∃ a, irs = [a] := by
  subst hsignature
  exact List.length_eq_one_iff.mp (by simpa using hcovers.length_eq.symm)

/-- A sign keeps a type, the values of which stay what they are, or forgets it. -/
lemma signedType_cases (t : Ty) :
    (signedType t = t ∧ ∃ c, base? t = some c ∧ c.negated = c) ∨ signedType t = .any := by
  cases t with
  | int => exact .inl ⟨rfl, .integer, rfl, rfl⟩
  | float => exact .inl ⟨rfl, .number, rfl, rfl⟩
  | duration => exact .inl ⟨rfl, .interval, rfl, rfl⟩
  | bool | string | date | dateTime | array | record | function | null | any => exact .inr rfl

/-- A minus sign.

**Proof sketch.** The one entry of the registry calls the untyped helper on an operand of type `any`
and writes a minus sign else. The sign keeps the representation of a number or a duration, and is
never `jsonb`, which an unknown type asks for. -/
lemma fits_neg_iff (hlookup : registry.lookup "neg" ((irs.map Ir.ty).map Ty.tag) = .ok form)
    (hrule : CallRule "neg" (irs.map Ir.ty) ty) (hparts : PartsFit prelude env "neg" irs ty form) :
    Fits ty (callRepresentation prelude env "neg" irs ty form) ↔
      ¬IsOddCall prelude "neg" (arguments env irs) ty := by
  obtain ⟨signature, hmem, hcovers⟩ := mem_entriesOf hlookup (by decide)
  have hentries : entriesOf "neg" = [([.any], .negation)] := rfl
  obtain ⟨hsignature, rfl⟩ : signature = [.any] ∧ form = .negation := by simpa [hentries] using hmem
  obtain ⟨a, rfl⟩ := exists_one hsignature hcovers
  have hty : ty = signedType a.ty := hrule.eq_resultType (by decide)
  rw [isOddCall_arithmetic List.mem_cons_self]
  simp only [arguments, List.forall_mem_singleton]
  by_cases hany : a.ty.isAny = true
  · have hreturns := prelude.untyped "neg" (by decide)
    refine iff_of_true ?_ (by simp [hany])
    have hunknown : ty = .any := by
      rw [hty]
      cases hoperand : a.ty <;> first | rfl | simp [hoperand, Ty.isAny] at hany
    rw [hunknown, fits_iff_of_base rfl, callRepresentation, callExpression, if_pos (by simpa using hany),
      Expression.representation, hreturns]
  · rw [callRepresentation, callExpression, if_neg (by simpa using hany), Expression.representation,
      Expression.representation_wrapped]
    have hfits := hparts a List.mem_cons_self (by simp [CallForm.written, Site.argType, hany, Site.operand,
      Target.operands, Target.operand])
    change Fits ty ((expression env a).representation prelude).negated ↔ _
    rcases signedType_cases a.ty with ⟨hsame, c, hbase, hsigned⟩ | hunknown
    · rw [hty, hsame, fits_iff_of_base hbase, (fits_iff_of_base hbase).mp hfits]
      exact iff_of_true (congrArg _ hsigned) (by simp [hany])
    · rw [hty, hunknown, fits_iff_of_base rfl]
      exact iff_of_false (Representation.negated_ne_jsonb _) (not_not.mpr ⟨rfl, by simpa using hany⟩)

/-- A plus sign.

**Proof sketch.** The sign is left out, so the call has the representation of its operand. A signed
type is kept; an unknown one fits only where the operand is `jsonb` already. -/
lemma fits_pos_iff (hlookup : registry.lookup "pos" ((irs.map Ir.ty).map Ty.tag) = .ok form)
    (hrule : CallRule "pos" (irs.map Ir.ty) ty) (hparts : PartsFit prelude env "pos" irs ty form) :
    Fits ty (callRepresentation prelude env "pos" irs ty form) ↔
      ¬IsOddCall prelude "pos" (arguments env irs) ty := by
  obtain ⟨signature, hmem, hcovers⟩ := mem_entriesOf hlookup (by decide)
  have hentries : entriesOf "pos" = [([.any], .shared .identity)] := rfl
  obtain ⟨hsignature, rfl⟩ : signature = [.any] ∧ form = .shared .identity := by
    simpa [hentries] using hmem
  obtain ⟨a, rfl⟩ := exists_one hsignature hcovers
  have hty : ty = signedType a.ty := hrule.eq_resultType (by decide)
  have hfits := hparts a List.mem_cons_self List.mem_cons_self
  have hodd : IsOddCall prelude "pos" (arguments env [a]) ty ↔
      ty.isAny = true ∧ a.ty.tag ∉ [.any, .record] := by
    rw [IsOddCall, if_neg (by decide), if_pos rfl]
    simp only [arguments, List.forall_mem_singleton]
  rw [hodd]
  change Fits ty ((expression env a).representation prelude) ↔ _
  rcases signedType_cases a.ty with ⟨hsame, c, hbase, hsigned⟩ | hunknown
  · rw [hty, hsame]
    refine iff_of_true hfits fun hodd => hodd.2 ?_
    have hany := hodd.1
    cases htype : a.ty <;> first | (simp [htype, Ty.isAny] at hany; done) | decide
  · rw [hty, hunknown, fits_iff_of_base rfl, hfits.eq_jsonb_iff]
    exact ⟨fun htag hodd => hodd.2 htag, fun hodd => by_contra fun htag => hodd ⟨rfl, htag⟩⟩

/-- An absolute value.

**Proof sketch.** A numeric operand finds the function `ABS`, which gives the type of its operand
back; any other one finds the untyped helper, and the type of the call is unknown. -/
lemma fits_abs (hlookup : registry.lookup "abs" ((irs.map Ir.ty).map Ty.tag) = .ok form)
    (hrule : CallRule "abs" (irs.map Ir.ty) ty) (hparts : PartsFit prelude env "abs" irs ty form) :
    Fits ty (callRepresentation prelude env "abs" irs ty form) := by
  obtain ⟨signature, hmem, hcovers⟩ := mem_entriesOf hlookup (by decide)
  have hentries : entriesOf "abs" = [([.any], .untyped), ([.float], .shared (.function "ABS")),
    ([.int], .shared (.function "ABS"))] := rfl
  have hint : registry.lookup "abs" [.int] = .ok (.shared (.function "ABS")) := rfl
  have hfloat : registry.lookup "abs" [.float] = .ok (.shared (.function "ABS")) := rfl
  simp only [hentries, List.mem_cons, Prod.mk.injEq, List.not_mem_nil, or_false] at hmem
  obtain ⟨a, rfl⟩ : ∃ a, irs = [a] := by
    rcases hmem with ⟨hsignature, -⟩ | ⟨hsignature, -⟩ | ⟨hsignature, -⟩ <;>
      exact exists_one hsignature hcovers
  have hty : ty = if a.ty.isNumeric then a.ty else .any := hrule.eq_resultType (by decide)
  by_cases hnumeric : a.ty.isNumeric = true
  · have hform : form = .shared (.function "ABS") := by
      cases htype : a.ty with
      | int =>
        simp only [List.map_cons, List.map_nil, htype] at hlookup
        exact Except.ok.inj (hlookup.symm.trans hint)
      | float =>
        simp only [List.map_cons, List.map_nil, htype] at hlookup
        exact Except.ok.inj (hlookup.symm.trans hfloat)
      | bool | string | date | dateTime | duration | array | record | function | null | any =>
        simp [htype, Ty.isNumeric] at hnumeric
    subst hform
    have hfits := hparts a List.mem_cons_self List.mem_cons_self
    have hrepresentation : callRepresentation prelude env "abs" [a] ty (.shared (.function "ABS")) =
        (expression env a).representation prelude := by
      change Representation.commonAll [(expression env a).representation prelude] = _
      rw [Representation.commonAll_cons]
      rfl
    rw [hty, if_pos hnumeric] at hrepresentation ⊢
    rwa [hrepresentation]
  · have hform : form = .untyped := by
      rcases hmem with ⟨-, hform⟩ | ⟨rfl, -⟩ | ⟨rfl, -⟩
      · exact hform
      · have htag := hcovers.eq (by decide)
        cases htype : a.ty <;> simp [htype, Ty.tag, Ty.isNumeric] at htag hnumeric
      · have htag := hcovers.eq (by decide)
        cases htype : a.ty <;> simp [htype, Ty.tag, Ty.isNumeric] at htag hnumeric
    subst hform
    rw [hty, if_neg hnumeric, fits_iff_of_base rfl, callRepresentation, callExpression,
      Expression.representation, prelude.untyped "abs" (by decide)]

/-- The read of an item is odd for arrays whose items have no type of single values, unless they are
`jsonb` values of an unknown type. -/
lemma isOddCall_item (hname : name ∈ ["first", "last"]) {a : Ir} :
    IsOddCall prelude name (arguments env [a]) ty ↔
      (a.ty = .array none ∧
        ((expression env a).representation prelude).item ≠ .single .jsonb) ∨
      ∃ t, a.ty = .array (some t) ∧ base? t = none := by
  have hother : ∀ name ∈ ["first", "last"], name ∉ "neg" :: arithmeticCalls ∧ name ≠ "pos" := by
    decide
  rw [IsOddCall, if_neg (hother name hname).1, if_neg (hother name hname).2, if_pos hname]
  simp [arguments]

/-- An item of an array, in the form that the name has for arrays.

**Proof sketch.** By cases on the type of the items. An array of unknown items gives `jsonb` only
when its base is that. A known type with a base gives this base; one without a base is an array or a
function, whose value no item has. -/
lemma fits_element_iff (hname : name ∈ ["first", "last"]) {a : Ir} {item : Option Ty}
    (ha : a.ty = .array item) (hfits : Fits a.ty ((expression env a).representation prelude)) :
    Fits a.ty.element ((expression env a).representation prelude).item ↔
      ¬IsOddCall prelude name (arguments env [a]) ty := by
  rw [isOddCall_item prelude hname]
  rw [ha] at hfits
  obtain ⟨b, hb, hitems⟩ := hfits
  rw [hb, ha]
  cases item with
  | none =>
    change Fits .any (.single b) ↔ _
    rw [fits_iff_of_base rfl]
    simp [Representation.item]
  | some t =>
    change Fits t (.single b) ↔ _
    cases hbase : base? t with
    | some c =>
      obtain rfl := hitems t rfl c hbase
      rw [fits_iff_of_base hbase]
      simp [hbase]
    | none =>
      refine iff_of_false (fun hfits => ?_) (not_not.mpr (.inr ⟨t, rfl, hbase⟩))
      cases t with
      | array inner =>
        obtain ⟨_, hsingle, -⟩ := hfits
        cases hsingle
      | function => exact not_fits_function _ hfits
      | int | float | bool | string | date | dateTime | duration | record | null | any => cases hbase

/-- An item of an array.

**Proof sketch.** An array finds the form that reads an item, which fits unless the item is odd
(`fits_element_iff`). Any other operand finds the untyped helper, and then the type of the call is
unknown too. -/
lemma fits_item_iff (hname : name ∈ ["first", "last"])
    (hlookup : registry.lookup name ((irs.map Ir.ty).map Ty.tag) = .ok form)
    (hrule : CallRule name (irs.map Ir.ty) ty) (hparts : PartsFit prelude env name irs ty form) :
    Fits ty (callRepresentation prelude env name irs ty form) ↔
      ¬IsOddCall prelude name (arguments env irs) ty := by
  have hnames : ∀ name ∈ ["first", "last"], name ∉ ["array", "record"] ∧ name ∉ builtCalls ∧
      name ∈ untypedCalls := by
    decide
  obtain ⟨hvariadic, hbuilt, huntyped⟩ := hnames name hname
  -- What the two names have in common.
  obtain ⟨f, hentries, hexact, hwritten, hitem⟩ : ∃ f, entriesOf name = [([.array], f), ([.any], .untyped)] ∧
      registry.lookup name [.array] = .ok f ∧
      (∀ a : Ir, target.operand a ∈ f.written ⟨name, Target.operands target [a], [a.ty], ty⟩) ∧
      ∀ a : Ir, callRepresentation prelude env name [a] ty f =
        ((expression env a).representation prelude).item := by
    simp only [List.mem_cons, List.not_mem_nil, or_false] at hname
    rcases hname with rfl | rfl
    · exact ⟨_, rfl, rfl, fun a => List.mem_cons_self, fun a => rfl⟩
    · exact ⟨_, rfl, rfl, fun a => List.mem_cons_self, fun a => rfl⟩
  obtain ⟨signature, hmem, hcovers⟩ := mem_entriesOf hlookup hvariadic
  simp only [hentries, List.mem_cons, Prod.mk.injEq, List.not_mem_nil, or_false] at hmem
  obtain ⟨a, rfl⟩ : ∃ a, irs = [a] := by
    rcases hmem with ⟨hsignature, -⟩ | ⟨hsignature, -⟩ <;> exact exists_one hsignature hcovers
  have hty : ty = a.ty.element := by
    rw [hrule.eq_resultType hbuilt]
    simp only [List.mem_cons, List.not_mem_nil, or_false] at hname
    rcases hname with rfl | rfl <;> rfl
  by_cases harray : a.ty.tag = .array
  · obtain ⟨item, ha⟩ := exists_array harray
    simp only [List.map_cons, List.map_nil, harray] at hlookup
    obtain rfl := Except.ok.inj (hlookup.symm.trans hexact)
    rw [hitem, hty]
    exact fits_element_iff prelude hname ha (hparts a List.mem_cons_self (hwritten a))
  · have hform : form = .untyped := by
      rcases hmem with ⟨rfl, -⟩ | ⟨-, hform⟩
      · have htag := hcovers.eq (by decide)
        simp only [List.map_cons, List.map_nil, List.cons.injEq, and_true] at htag
        exact absurd htag.symm harray
      · exact hform
    have hunknown : ty = .any := by
      rw [hty]
      cases htype : a.ty <;> first | rfl | simp [htype, Ty.tag] at harray
    subst hform
    refine iff_of_true ?_ ?_
    · rw [hunknown, fits_iff_of_base rfl, callRepresentation, callExpression,
        Expression.representation, prelude.untyped name huntyped]
    · rw [isOddCall_item prelude hname]
      rintro (⟨ha, -⟩ | ⟨t, ha, -⟩) <;> exact harray (by rw [ha]; rfl)

/-! ### Members and failures -/

/-- The types without a column type, other than the unknown one. -/
def columnless : List Tag := [.array, .null, .function]

/-- A member read fits unless its type has no column type. -/
lemma fits_memberRead_iff (ty : Ty) (object key : String) :
    Fits ty ((memberRead ty object key).representation prelude) ↔ ty.tag ∉ columnless := by
  cases ty with
  | array item =>
    refine iff_of_false ?_ (by simp [Ty.tag, columnless])
    rintro ⟨_, hsingle, -⟩
    cases hsingle
  | function => exact iff_of_false (not_fits_function _) (by simp [Ty.tag, columnless])
  | null =>
    refine iff_of_false (fun h => ?_) (by simp [Ty.tag, columnless])
    cases h
  | int | float | bool | string | date | dateTime | duration | record | any =>
    exact iff_of_true rfl (by simp [Ty.tag, columnless])

/-- A failure fits unless its type has no column type. -/
lemma fits_failure_iff (ty : Ty) (message : String) :
    Fits ty ((Expression.failure ty message).representation prelude) ↔ ty.tag ∉ columnless := by
  cases ty with
  | array item =>
    refine iff_of_false ?_ (by simp [Ty.tag, columnless])
    rintro ⟨_, hsingle, -⟩
    cases hsingle
  | function => exact iff_of_false (not_fits_function _) (by simp [Ty.tag, columnless])
  | null =>
    refine iff_of_false ?_ (by simp [Ty.tag, columnless])
    rw [fits_iff_of_base rfl, Expression.representation_failure prelude rfl]
    decide
  | any =>
    refine iff_of_true ?_ (by simp [Ty.tag, columnless])
    rw [fits_iff_of_base rfl, Expression.representation_failure prelude rfl]
  | int | float | bool | string | date | dateTime | duration | record =>
    exact iff_of_true rfl (by simp [Ty.tag, columnless])

/-- A member read or a failure. -/
lemma fits_read_iff (hname : name ∈ ["field", "fail"])
    (hlookup : registry.lookup name ((irs.map Ir.ty).map Ty.tag) = .ok form) :
    Fits ty (callRepresentation prelude env name irs ty form) ↔
      ¬IsOddCall prelude name (arguments env irs) ty := by
  have hother : ∀ name ∈ ["field", "fail"], name ∉ "neg" :: arithmeticCalls ∧ name ≠ "pos" ∧
      name ∉ ["first", "last"] ∧ name ∉ ["array", "record"] := by
    decide
  obtain ⟨harithmetic, hpos, hitem, hvariadic⟩ := hother name hname
  have hodd : IsOddCall prelude name (arguments env irs) ty ↔ ty.tag ∈ columnless := by
    rw [IsOddCall, if_neg harithmetic, if_neg hpos, if_neg hitem, if_pos hname, columnless]
  obtain ⟨signature, hmem, -⟩ := mem_entriesOf hlookup hvariadic
  have hfield : entriesOf "field" = [([.any, .any], .field)] := rfl
  have hfail : entriesOf "fail" = [([.any], .fail)] := rfl
  rw [hodd]
  simp only [List.mem_cons, List.not_mem_nil, or_false] at hname
  rcases hname with rfl | rfl
  · obtain ⟨-, rfl⟩ : signature = [.any, .any] ∧ form = .field := by simpa [hfield] using hmem
    exact fits_memberRead_iff prelude ty _ _
  · obtain ⟨-, rfl⟩ : signature = [.any] ∧ form = .fail := by simpa [hfail] using hmem
    exact fits_failure_iff prelude ty _

/-! ### Arrays, records and selectors -/

/-- A name that takes any number of arguments only has one form. -/
lemma form_of_variadic {f : CallForm} (hentries : entriesOf name = [])
    (hvariadic : ∀ e ∈ registry.variadics, e.1 = name → e.2.2 = f) {tags : List Tag}
    (hlookup : registry.lookup name tags = .ok form) : form = f := by
  rcases Registry.exists_of_lookup rfl hlookup with ⟨signature, hmem, -⟩ | ⟨least, hmem⟩
  · have hentry : (signature, form) ∈ entriesOf name :=
      List.mem_filterMap.mpr ⟨_, hmem, if_pos rfl⟩
    rw [hentries] at hentry
    cases hentry
  · exact hvariadic _ hmem rfl

/-- An array.

**Proof sketch.** The representation is the array over the common type of the items. It never is
`jsonb`, so an unknown type does not fit, and this is the odd case. A typed array has the join of
the item types as its element, and items that fit their types have the common type of that join
(`FitsIn.joinAll`). -/
lemma fits_array_iff (hlookup : registry.lookup "array" ((irs.map Ir.ty).map Ty.tag) = .ok form)
    (hrule : CallRule "array" (irs.map Ir.ty) ty) (hparts : PartsFit prelude env "array" irs ty form) :
    Fits ty (callRepresentation prelude env "array" irs ty form) ↔
      ¬IsOddCall prelude "array" (arguments env irs) ty := by
  obtain rfl : form = .shared (.sequence "ARRAY[" "]") :=
    form_of_variadic rfl (by decide) hlookup
  rw [isOddCall_constructed (by decide)]
  have hrepresentation : callRepresentation prelude env "array" irs ty
      (.shared (.sequence "ARRAY[" "]")) = .array (Representation.commonAll
        (irs.map fun a => (expression env a).representation prelude)).base := by
    change (Expression.array ((arguments env irs).map Prod.snd)).representation prelude = _
    rw [Expression.representation, Expression.representations_eq_map, arguments_eq_map, List.map_map,
      List.map_map]
    rfl
  rw [hrepresentation]
  rcases hrule.array_cases rfl with rfl | rfl
  · refine iff_of_false ?_ (not_not.mpr rfl)
    rw [fits_iff_of_base rfl]
    simp
  · have hitems : List.Forall₂ (FitsIn false) (irs.map Ir.ty)
        (irs.map fun a => (expression env a).representation prelude) := by
      rw [List.forall₂_map_left_iff, List.forall₂_map_right_iff, List.forall₂_same]
      intro a ha
      refine fitsIn_false.mpr (hparts a ha ?_)
      rw [CallForm.written, Form.written, Target.operands_eq_map]
      exact List.mem_map_of_mem ha
    unfold arrayType
    split
    · refine iff_of_true ⟨_, rfl, ?_⟩ (by simp [Ty.isAny])
      intro t ht
      cases ht
    · rename_i hany
      have hcommon := fitsIn_false.mp (FitsIn.joinAll hitems hany)
      refine iff_of_true ⟨_, rfl, fun t ht c hc => ?_⟩ (by simp [Ty.isAny])
      cases ht
      rw [(fits_iff_of_base hc).mp hcommon]
      rfl

/-- A record. -/
lemma fits_record (hlookup : registry.lookup "record" ((irs.map Ir.ty).map Ty.tag) = .ok form)
    (hrule : CallRule "record" (irs.map Ir.ty) ty) :
    Fits ty (callRepresentation prelude env "record" irs ty form) := by
  obtain rfl : form = .shared (.function "jsonb_build_object") :=
    form_of_variadic rfl (by decide) hlookup
  rcases hrule.record_cases rfl with rfl | ⟨fields, rfl⟩ <;> rw [fits_iff_of_base rfl] <;> rfl

/-- A selector gives values of the type that it selects.

**Proof sketch.** The entry that was found has been checked against the selector: either its form
gives the type, through the declared type of a helper if it calls one, or it writes the operand as
it is, which has the type of the selector already. -/
lemma representation_selector {s : Selectable} (hs : s ∈ selectables) (hname : name ∈ s.valueCalls)
    (hlookup : registry.lookup name ((irs.map Ir.ty).map Ty.tag) = .ok form)
    (hparts : PartsFit prelude env name irs ty form) :
    ∃ c, base? s.ty = some c ∧ c ≠ .jsonb ∧
      callRepresentation prelude env name irs ty form = .single c := by
  have hvariadic : ∀ s ∈ selectables, ∀ name ∈ s.valueCalls, name ∉ ["array", "record"] := by decide
  have hbases : ∀ s ∈ selectables, s.ty.tag = s.tag ∧ s.tag ≠ .any ∧
      ∃ c ∈ [Base.integer, .number, .boolean, .text, .date, .timestamptz, .interval],
        tagBase? s.tag = some c := by
    decide
  obtain ⟨htag, hany, c, hc, hbase⟩ := hbases s hs
  have hselected : base? s.ty = some c := by rwa [base?, htag]
  refine ⟨c, hselected, fun heq => by subst heq; exact absurd hc (by decide), ?_⟩
  obtain ⟨signature, hcovers, -, -, hpasses, -⟩ := entry_of_lookup hlookup (hvariadic s hs name hname)
  have hpasses := (Bool.and_eq_true_iff.mp (List.all_eq_true.mp hpasses s hs)).1
  simp only [hname, not_true_eq_false, decide_false, Bool.false_or, hselected, Option.any_some,
    Bool.or_eq_true, Bool.and_eq_true, beq_iff_eq] at hpasses
  rcases hpasses with ⟨-, hgives⟩ | ⟨rfl, hhead⟩
  · refine representation_gives prelude hgives fun _ => ?_
    exact Option.some.inj ((prelude.selector s hs name hname).symm.trans hselected)
  · cases irs with
    | nil =>
      cases hcovers
      cases hhead
    | cons a rest =>
      cases signature with
      | nil => cases hhead
      | cons tag signature =>
        obtain rfl : tag = s.tag := Option.some.inj hhead
        obtain ⟨hfirst, -⟩ := covers_cons.mp hcovers
        have hsame : base? a.ty = some c := by rwa [base?, ← hfirst.resolve_right hany]
        have hfits := hparts a List.mem_cons_self List.mem_cons_self
        exact (fits_iff_of_base hsame).mp hfits

/-- The calls of selectors that give or check a value are constructed. -/
lemma mem_constructedCalls : ∀ s ∈ selectables,
    (∀ name ∈ s.valueCalls, name ∈ constructedCalls) ∧ "is_" ++ s.stem ∈ constructedCalls := by
  decide

/-- A selector that gives a value. -/
lemma fits_selector_iff {s : Selectable} (hs : s ∈ selectables) (hname : name ∈ s.valueCalls)
    (hlookup : registry.lookup name ((irs.map Ir.ty).map Ty.tag) = .ok form)
    (hrule : CallRule name (irs.map Ir.ty) ty) (hparts : PartsFit prelude env name irs ty form) :
    Fits ty (callRepresentation prelude env name irs ty form) ↔
      ¬IsOddCall prelude name (arguments env irs) ty := by
  rw [isOddCall_constructed ((mem_constructedCalls s hs).1 name hname)]
  rcases hrule.selector_cases hs hname with rfl | ⟨t, ht, hmem, rfl⟩
  · obtain ⟨c, -, hc, hsingle⟩ := representation_selector prelude hs hname hlookup hparts
    rw [fits_iff_of_base rfl, hsingle]
    exact iff_of_false (fun heq => hc (Representation.single.inj heq)) (not_not.mpr rfl)
  · have hknown : ∀ t ∈ selectables, t.ty.isAny = false := by decide
    obtain ⟨c, hbase, -, hsingle⟩ := representation_selector prelude ht hmem hlookup hparts
    rw [fits_iff_of_base hbase, hknown t ht]
    exact iff_of_true hsingle (by decide)

/-- A selector that tests. -/
lemma fits_check_iff {s : Selectable} (hs : s ∈ selectables) (hname : name = "is_" ++ s.stem)
    (hlookup : registry.lookup name ((irs.map Ir.ty).map Ty.tag) = .ok form)
    (hrule : CallRule name (irs.map Ir.ty) ty) :
    Fits ty (callRepresentation prelude env name irs ty form) ↔
      ¬IsOddCall prelude name (arguments env irs) ty := by
  have hvariadic : ∀ s ∈ selectables, "is_" ++ s.stem ∉ ["array", "record"] := by decide
  have hconstructed : name ∈ constructedCalls := hname ▸ (mem_constructedCalls s hs).2
  obtain ⟨signature, -, -, -, hpasses, -⟩ := entry_of_lookup hlookup (hname ▸ hvariadic s hs)
  have hpasses := (Bool.and_eq_true_iff.mp (List.all_eq_true.mp hpasses s hs)).2
  have hgives : form.gives .boolean = true := by simpa [hname] using hpasses
  have hsingle : callRepresentation prelude env name irs ty form = .single .boolean :=
    representation_gives prelude hgives fun _ => hname ▸ prelude.check s hs
  rw [isOddCall_constructed hconstructed, hsingle]
  rcases hrule.check_cases hs hname with rfl | rfl
  · exact iff_of_false (by rw [fits_iff_of_base rfl]; decide) (not_not.mpr rfl)
  · exact iff_of_true (by rw [fits_iff_of_base rfl]) (by decide)

/-! ### All calls -/

/-- A call whose arguments are represented as their types say is itself unless it is odd.

**Proof sketch.** Arrays and records apart, the name of a call is in one of the lists that the
registry was checked for, and the list says which lemma applies: a name that settles its type, an
operator of arithmetic, one of the seven functions of one operand with a rule of their own, or a
call of a selector. -/
theorem fits_call_iff (hlookup : registry.lookup name ((irs.map Ir.ty).map Ty.tag) = .ok form)
    (hrule : CallRule name (irs.map Ir.ty) ty) (hparts : PartsFit prelude env name irs ty form) :
    Fits ty (callRepresentation prelude env name irs ty form) ↔
      ¬IsOddCall prelude name (arguments env irs) ty := by
  by_cases harray : name = "array"
  · subst harray
    exact fits_array_iff prelude hlookup hrule hparts
  by_cases hrecord : name = "record"
  · subst hrecord
    exact iff_of_true (fits_record prelude hlookup hrule) (not_isOddCall (by decide))
  -- Every other name of the registry is in one of the checked lists.
  obtain ⟨-, -, -, -, -, hformed⟩ := entry_of_lookup hlookup (by simp [harray, hrecord])
  have hregular : ∀ name ∈ truthCalls ++ stringCalls ++ integerCalls ++ dateCalls ++ dateTimeCalls,
      name ∉ oddNames ∧ (settledBase? name).isSome = true := by
    decide
  rcases List.mem_append.mp hformed with hformed | hselector
  · rcases List.mem_append.mp hformed with hformed | hunary
    · rcases List.mem_append.mp hformed with hsettled | harithmetic
      · obtain ⟨hodd, hsome⟩ := hregular name hsettled
        obtain ⟨c, hc⟩ := Option.isSome_iff_exists.mp hsome
        exact iff_of_true (fits_settled prelude hlookup hrule hc) (not_isOddCall hodd)
      · exact fits_arithmetic_iff prelude harithmetic hlookup hrule hparts
    · simp only [List.mem_cons, List.not_mem_nil, or_false] at hunary
      rcases hunary with rfl | rfl | rfl | hname | hname | hname | hname
      · exact fits_neg_iff prelude hlookup hrule hparts
      · exact fits_pos_iff prelude hlookup hrule hparts
      · exact iff_of_true (fits_abs prelude hlookup hrule hparts) (not_isOddCall (by decide))
      · exact fits_item_iff prelude (by simp [hname]) hlookup hrule hparts
      · exact fits_item_iff prelude (by simp [hname]) hlookup hrule hparts
      · exact fits_read_iff prelude (by simp [hname]) hlookup
      · exact fits_read_iff prelude (by simp [hname]) hlookup
  · obtain ⟨s, hs, hcall⟩ := List.mem_flatMap.mp hselector
    simp only [Helper.selectorCalls, List.mem_cons, List.not_mem_nil, or_false] at hcall
    rcases hcall with hname | hname | hname | hname
    · exact fits_selector_iff prelude hs (by simp [Selectable.valueCalls, hname]) hlookup hrule hparts
    · exact fits_selector_iff prelude hs (by simp [Selectable.valueCalls, hname]) hlookup hrule hparts
    · exact fits_check_iff prelude hs hname hlookup hrule
    · exact fits_selector_iff prelude hs (by simp [Selectable.valueCalls, hname]) hlookup hrule hparts

end Calls

end Retarget.Sql
