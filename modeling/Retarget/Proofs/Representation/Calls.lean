import Retarget.Proofs.Representation.Types

set_option autoImplicit false

/-!
# Representations of calls

The form of a call settles its representation, alone or together with those of the arguments. It is the
one that the type of the call stands for, but for a few calls: operators on operands of known type that
do not go together, members and failures of the types of arrays and of null, items of arrays about whose
items too little is known, and selectors and arrays that are called by name.

## Main definitions

* `Retarget.Sql.CallForm.gives` — the form settles the representation of a call.
* `Retarget.Sql.IsOddCall` — the calls whose representation is not that of their type.

## Main results

* `Retarget.Sql.fits_call_iff` — a call is represented as its type says unless it is one of these.
-/

namespace Retarget.Sql

/-! ## Calls whose form settles the representation -/

/-- The form calls the helper of the call, or may do so. -/
def CallForm.callsHelper : CallForm → Bool
  | .untyped | .operator _ | .negation | .nullTest _ _ | .asserted => true
  | _ => false

/-- The function returns values of the type, whatever its arguments. -/
def isFunctionOf (c : Base) (function : String) : Bool :=
  function != "ABS" && functionTypes.lookup function == some c

/-- The form gives values of the type, whatever the arguments, if the helper of the call does. -/
def CallForm.gives (c : Base) : CallForm → Bool
  | .untyped | .asserted => true
  | .operator op | .connective op => c == .boolean && op ∈ truthOperators
  | .complement | .nullTest _ _ | .endsWith | .containsText | .containsItem => c == .boolean
  | .coerced function _ => isFunctionOf c function
  | .integerOf _ | .extract _ => c == .integer
  | .joined => c == .text
  | .shared (.constant code _) => fixedTypes.lookup code == some c
  | .shared (.sequence opening closing) =>
    opening != "ARRAY[" && closing == ")" &&
      (sequenceFunctions.find? (· ++ "(" == opening)).any (isFunctionOf c)
  | .shared (.enclosed opening .identity closing none) =>
    opening == "CAST(" && ((castColumn? closing).map Column.base == some c)
  | _ => false

section Settled

variable (prelude : Prelude) {name : String} {argTypes : List Ty} {ty : Ty} {args : List Argument}
  {form : CallForm} {c : Base}

/-- A function that returns values of one type does so in code. -/
lemma representation_function {function : String} (h : isFunctionOf c function = true)
    (args : List Expression) : (Expression.call function args).representation prelude = .single c := by
  simp only [isFunctionOf, Bool.and_eq_true, bne_iff_ne, ne_eq, beq_iff_eq] at h
  rw [Expression.representation, if_neg h.1, h.2]
  rfl

/-- A form that gives values of a type does so.

**Proof sketch.** By cases on the form. The type is the one that the column of a cast, the function
of a sequence, the table of fixed types or the prelude names; an operator gives it by
`operation_truth` whatever its operands are. -/
lemma representation_gives (h : form.gives c = true)
    (hreturns : form.callsHelper = true → prelude.returns name = c) :
    (callExpression name argTypes ty args form).representation prelude = .single c := by
  -- A form that calls a helper has the type that the prelude declares for it.
  have hhelper (hform : form.callsHelper = true) (args : List Expression) :
      (Expression.helper name args).representation prelude = .single c := by
    rw [Expression.representation, hreturns hform]
  cases form with
  | untyped | asserted => exact hhelper rfl _
  | operator op =>
    simp only [CallForm.gives, Bool.and_eq_true, beq_iff_eq, decide_eq_true_eq] at h
    rw [callExpression]
    split_ifs
    · exact hhelper rfl _
    · rw [Expression.representation_infixed, Representation.operation_truth h.2, h.1]
  | nullTest place test =>
    obtain rfl : c = .boolean := by simpa [CallForm.gives] using h
    rw [callExpression]
    split_ifs
    · exact hhelper rfl _
    · rfl
  | connective op =>
    simp only [CallForm.gives, Bool.and_eq_true, beq_iff_eq, decide_eq_true_eq] at h
    rw [callExpression, Expression.representation_infixed, Representation.operation_truth h.2, h.1]
  | complement | endsWith | containsText | containsItem =>
    obtain rfl : c = .boolean := by simpa [CallForm.gives] using h
    rfl
  | coerced function column => exact representation_function prelude h _
  | integerOf | extract =>
    obtain rfl : c = .integer := by simpa [CallForm.gives] using h
    rfl
  | joined =>
    obtain rfl : c = .text := by simpa [CallForm.gives] using h
    rfl
  | shared form =>
    cases form with
    | constant code op =>
      have hlookup : fixedTypes.lookup code = some c := by simpa [CallForm.gives] using h
      simp only [callExpression, sharedExpression, Option.getD_some, Expression.representation, hlookup]
    | sequence opening closing =>
      simp only [CallForm.gives, Bool.and_eq_true, bne_iff_ne, ne_eq, beq_iff_eq] at h
      obtain ⟨⟨hopening, hclosing⟩, hfound⟩ := h
      cases hfunction : sequenceFunctions.find? (· ++ "(" == opening) with
      | none =>
        rw [hfunction] at hfound
        cases hfound
      | some function =>
        rw [hfunction] at hfound
        simp only [callExpression, sharedExpression, sequenced, hopening, hclosing, false_and,
          ↓reduceIte, hfunction, Option.map_some, Option.getD_some]
        exact representation_function prelude hfound _
    | enclosed opening inner closing op =>
      cases inner with
      | identity =>
        cases op with
        | some op => cases h
        | none =>
          simp only [CallForm.gives, Bool.and_eq_true, beq_iff_eq] at h
          obtain ⟨rfl, hcolumn⟩ := h
          obtain ⟨column, hclosing, rfl⟩ := Option.map_eq_some_iff.mp hcolumn
          simp only [callExpression, sharedExpression, Option.bind_some, enclosed, hclosing,
            String.reduceEq, false_and, ↓reduceIte, Option.map_some, Option.getD_some,
            Expression.representation]
      | constant | infixOp | prefixOp | sequence | helper | method | suffix | enclosed | exchanged
      | record => cases h
    | identity | infixOp | prefixOp | helper | method | suffix | exchanged | record => cases h
  | wide | negation | dateShift | lastItem | field | fail => cases h

end Settled

/-! ## Arithmetic -/

/-- The calls of arithmetic on two operands. -/
def arithmeticCalls : List String := ["add", "sub", "mul", "div", "mod", "pow"]

/-- The type of a call on two single values of known types, where its form settles it by them. -/
def CallForm.nativeBase? (a b : Base) : CallForm → Option Base
  | .operator op | .shared (.infixOp op) =>
    if op ∈ truthOperators then none else some (Base.operation op a b)
  | .wide op => if op ∈ truthOperators ∨ a ≠ .integer then none else some (Base.operation op a b)
  | .dateShift dateFirst op =>
    if (if dateFirst then a else b) = .date ∧ op ∈ ["+", "-"] then some .date else none
  | .shared (.enclosed opening (.infixOp _) closing none) =>
    if opening = "CAST(" then (castColumn? closing).map Column.base
    else if opening = "make_interval(days => " ∧ closing = ")" then some .interval
    else none
  | _ => none

section Native

variable (prelude : Prelude) {env : Expressions} {name : String} {ty : Ty} {form : CallForm} {a b : Ir}
  {c d e : Base}

/-- A shift of a date is a date. -/
lemma representation_shifted {op : String} (hop : op ∈ ["+", "-"]) {date duration : Argument}
    (hdate : date.2.representation prelude = .single .date) :
    (shifted op date duration).representation prelude = .single .date := by
  unfold shifted
  split
  · rw [Expression.representation, Expression.representation_wrapped, hdate]
    simp only [List.mem_cons, List.not_mem_nil, or_false] at hop
    rcases hop with rfl | rfl <;> rfl
  · rfl

/-- A call on operands in the representations of their types has the type that its form settles.

**Proof sketch.** By cases on the form. Its operands are written, so they have the types `c` and
`d`, and the type of an operator between them is the one that `Base.operation` computes. A widened
operand has the type `bigint`, which is the type that its own had to be. A form that casts its
result has the type of the column. -/
lemma representation_native (hform : form.nativeBase? c d = some e) (hc : base? a.ty = some c)
    (hd : base? b.ty = some d) (hany : [a.ty, b.ty].any Ty.isAny = false)
    (hparts : ∀ x ∈ [a, b], target.operand x ∈
      form.written ⟨name, Target.operands target [a, b], [a.ty, b.ty], ty⟩ →
        Fits x.ty ((expression env x).representation prelude)) :
    (callExpression name [a.ty, b.ty] ty (arguments env [a, b]) form).representation prelude =
      .single e := by
  have hleft (hwritten : target.operand a ∈
      form.written ⟨name, Target.operands target [a, b], [a.ty, b.ty], ty⟩) :
      (expression env a).representation prelude = .single c :=
    (fits_iff_of_base hc).mp (hparts a List.mem_cons_self hwritten)
  have hright (hwritten : target.operand b ∈
      form.written ⟨name, Target.operands target [a, b], [a.ty, b.ty], ty⟩) :
      (expression env b).representation prelude = .single d :=
    (fits_iff_of_base hd).mp (hparts b (by simp) hwritten)
  -- An operator between the two operands.
  have hinfixed {op : String} (hop : op ∉ truthOperators)
      (hl : (expression env a).representation prelude = .single c)
      (hr : (expression env b).representation prelude = .single d) :
      (Expression.infixed op (expression env a) (expression env b)).representation prelude =
        .single (Base.operation op c d) := by
    rw [Expression.representation_infixed, hl, hr, Representation.operation_single hop]
  cases form with
  | operator op =>
    simp only [CallForm.nativeBase?] at hform
    split_ifs at hform with hop
    cases hform
    simp only [CallForm.written, hany, Bool.false_eq_true, ↓reduceIte] at hleft hright
    rw [callExpression, if_neg (by simp [hany])]
    exact hinfixed hop (hleft List.mem_cons_self) (hright (List.mem_cons_of_mem _ List.mem_cons_self))
  | wide op =>
    simp only [CallForm.nativeBase?] at hform
    split_ifs at hform with hsome
    cases hform
    obtain ⟨hop, hinteger⟩ := not_or.mp hsome
    rw [not_not] at hinteger
    have hl := hleft List.mem_cons_self
    have hr := hright (List.mem_cons_of_mem _ List.mem_cons_self)
    -- The cast to `bigint` keeps the type, as it is put on integers only.
    have hwidened : (if isNarrow a && isNarrow b then Expression.cast (expression env a) .bigint
        else (expression env a).wrapped op .left).representation prelude = .single c := by
      split_ifs
      · rw [hinteger]
        rfl
      · rwa [Expression.representation_wrapped]
    rw [callExpression, Expression.representation, Expression.representation_wrapped,
      ← Representation.operation_single hop, ← hr, ← hwidened]
    rfl
  | dateShift dateFirst op =>
    cases dateFirst with
    | true =>
      simp only [CallForm.nativeBase?, ↓reduceIte] at hform
      split_ifs at hform with hsome
      cases hform
      obtain ⟨rfl, hop⟩ := hsome
      refine representation_shifted prelude hop (hleft ?_)
      simp only [CallForm.written]
      split <;> exact List.mem_cons_self
    | false =>
      simp only [CallForm.nativeBase?, Bool.false_eq_true, ↓reduceIte] at hform
      split_ifs at hform with hsome
      cases hform
      obtain ⟨rfl, hop⟩ := hsome
      refine representation_shifted prelude hop (hright ?_)
      simp only [CallForm.written]
      split <;> exact List.mem_cons_self
  | shared form =>
    cases form with
    | infixOp op =>
      simp only [CallForm.nativeBase?] at hform
      split_ifs at hform with hop
      cases hform
      exact hinfixed hop (hleft List.mem_cons_self) (hright (List.mem_cons_of_mem _ List.mem_cons_self))
    | enclosed opening inner closing op =>
      cases inner with
      | infixOp inner =>
        cases op with
        | some op => cases hform
        | none =>
          simp only [CallForm.nativeBase?] at hform
          split_ifs at hform with hcast hinterval
          · obtain ⟨column, hclosing, rfl⟩ := Option.map_eq_some_iff.mp hform
            simp only [callExpression, sharedExpression, Option.bind_some, enclosed, hcast, hclosing,
              String.reduceEq, false_and, ↓reduceIte, Option.map_some, Option.getD_some,
              Expression.representation]
          · cases hform
            obtain ⟨rfl, rfl⟩ := hinterval
            rfl
      | constant | identity | prefixOp | sequence | helper | method | suffix | enclosed | exchanged
      | record => cases hform
    | constant | identity | prefixOp | sequence | helper | method | suffix | exchanged | record =>
      cases hform
  | untyped | negation | connective | complement | nullTest | asserted | coerced | integerOf | extract
  | endsWith | containsText | containsItem | joined | lastItem | field | fail => cases hform

end Native

/-- The types of arithmetic on operands that go together, but for arrays. -/
def arithmeticRows : List (String × Tag × Tag × Tag) :=
  (arithmeticCalls.flatMap fun name =>
    ([(name, .int, .int, .int), (name, .int, .float, .float), (name, .float, .int, .float),
      (name, .float, .float, .float)] : List (String × Tag × Tag × Tag))) ++
  ([("add", .string, .string, .string), ("add", .date, .duration, .date),
    ("add", .duration, .date, .date), ("add", .dateTime, .duration, .dateTime),
    ("add", .duration, .dateTime, .dateTime), ("add", .duration, .duration, .duration),
    ("sub", .date, .duration, .date), ("sub", .dateTime, .duration, .dateTime),
    ("sub", .date, .date, .duration), ("sub", .dateTime, .dateTime, .duration),
    ("sub", .duration, .duration, .duration), ("mul", .duration, .int, .duration),
    ("mul", .duration, .float, .duration), ("mul", .int, .duration, .duration),
    ("mul", .float, .duration, .duration), ("div", .duration, .int, .duration),
    ("div", .duration, .float, .duration)] : List (String × Tag × Tag × Tag))

section Results

variable {name : String} {a b : Ty}

/-- Arithmetic on numbers has no known type or one that is in the table. -/
lemma numericType_cases (hname : name ∈ arithmeticCalls) (a b : Ty) :
    numericType a b = .any ∨ (name, a.tag, b.tag, (numericType a b).tag) ∈ arithmeticRows := by
  have hrow {s t r : Tag} (h : (s, t, r) ∈ [(Tag.int, Tag.int, Tag.int), (.int, .float, .float),
      (.float, .int, .float), (.float, .float, .float)]) : (name, s, t, r) ∈ arithmeticRows := by
    refine List.mem_append_left _ (List.mem_flatMap.mpr ⟨name, hname, ?_⟩)
    simpa using h
  cases a with
  | int => cases b <;> first | exact .inr (hrow (by decide)) | exact .inl rfl
  | float => cases b <;> first | exact .inr (hrow (by decide)) | exact .inl rfl
  | bool | string | date | dateTime | duration | array | record | function | null | any =>
    exact .inl rfl

/-- Arithmetic has a type only on operands that go together.

**Proof sketch.** By cases on the name, and on the pairs of types that its rule lists: each pair is
a row of the table, two arrays, or a pair of numbers (`numericType_cases`). -/
lemma binaryType_cases (hname : name ∈ arithmeticCalls) (a b : Ty) :
    binaryType name a b = .any ∨ (name, a.tag, b.tag, (binaryType name a b).tag) ∈ arithmeticRows ∨
      (name = "add" ∧ ∃ x y, a = .array x ∧ b = .array y) := by
  have hnumeric {r : Ty} (h : r = numericType a b) :
      r = .any ∨ (name, a.tag, b.tag, r.tag) ∈ arithmeticRows ∨
        (name = "add" ∧ ∃ x y, a = .array x ∧ b = .array y) := by
    rw [h]
    exact (numericType_cases hname a b).imp_right .inl
  simp only [arithmeticCalls, List.mem_cons, List.not_mem_nil, or_false] at hname
  rcases hname with rfl | rfl | rfl | rfl | rfl | rfl
  · rw [show binaryType "add" a b = sumType a b from rfl]
    unfold sumType
    split <;> first
      | exact .inr (.inl (by decide))
      | exact .inr (.inr ⟨rfl, _, _, rfl, rfl⟩)
      | exact hnumeric rfl
  · rw [show binaryType "sub" a b = differenceType a b from rfl]
    unfold differenceType
    split <;> first | exact .inr (.inl (by decide)) | exact hnumeric rfl
  · rw [show binaryType "mul" a b = productType a b from rfl]
    unfold productType
    split <;> first | exact .inr (.inl (by decide)) | exact hnumeric rfl
  · rw [show binaryType "div" a b = quotientType a b from rfl]
    unfold quotientType
    split <;> first | exact .inr (.inl (by decide)) | exact hnumeric rfl
  · exact hnumeric rfl
  · exact hnumeric rfl

end Results

/-! ## The registry -/

/-- One type of the tag. -/
def ofTag : Tag → Ty
  | .int => .int
  | .float => .float
  | .bool => .bool
  | .string => .string
  | .date => .date
  | .dateTime => .dateTime
  | .duration => .duration
  | .array => .array none
  | .record => .record []
  | .function => .function
  | .null => .null
  | .any => .any

/-- A type whose tag leaves nothing open. -/
lemma eq_ofTag {t : Ty} (h : t.tag ∉ [.array, .record, .any]) : t = ofTag t.tag := by
  cases t <;> first | rfl | simp [Ty.tag] at h

/-- The form of the operands of a row gives the type of the row, which is known. -/
def rowPasses (row : String × Tag × Tag × Tag) : Bool :=
  match registry.lookup row.1 [row.2.1, row.2.2.1], tagBase? row.2.1, tagBase? row.2.2.1 with
  | .ok form, some a, some b =>
    (form.nativeBase? a b).isSome && form.nativeBase? a b == tagBase? row.2.2.2 &&
      !(binaryType row.1 (ofTag row.2.1) (ofTag row.2.2.1)).isAny &&
      [row.2.1, row.2.2.1].all (· ∉ [.array, .record, .any])
  | _, _, _ => false

/-- The type of a call that follows from its name. -/
def settledBase? (name : String) : Option Base :=
  if name ∈ truthCalls then some .boolean
  else if name ∈ stringCalls then some .text
  else if name ∈ integerCalls then some .integer
  else if name ∈ dateCalls then some .date
  else if name ∈ dateTimeCalls then some .timestamptz
  else none

/-- Calls of names whose type settles the name have forms that give it; those without arguments call no
helper. -/
def settledPasses (name : String) (signature : List Tag) (form : CallForm) : Bool :=
  (settledBase? name).all fun c =>
    form.gives c && (name ∉ dateCalls ++ dateTimeCalls || (signature == [] && !form.callsHelper))

/-- An operator that compares nothing. -/
def CallForm.isArithmetic : CallForm → Bool
  | .operator op => op ∉ truthOperators
  | _ => false

/-- Arithmetic has a form for all operands, and others for operands that go together. -/
def arithmeticPasses (name : String) (signature : List Tag) (form : CallForm) : Bool :=
  name ∉ arithmeticCalls || (signature == [.any, .any] && form.isArithmetic) ||
    arithmeticRows.any (fun row => row.1 == name && signature == [row.2.1, row.2.2.1]) ||
    (name == "add" && signature == [.array, .array])

/-- The forms of selectors give the types that they select, or the value as it is if it has the type. -/
def selectorPasses (name : String) (signature : List Tag) (form : CallForm) : Bool :=
  selectables.all fun s =>
    (name ∉ s.valueCalls || (base? s.ty).any (fun c => c != .jsonb && form.gives c) ||
      (form == .shared .identity && signature.head? == some s.tag)) &&
    (name != "is_" ++ s.stem || form.gives .boolean)

/-- The calls that have a form, but for those of any number of arguments. -/
def formedCalls : List String :=
  truthCalls ++ stringCalls ++ integerCalls ++ dateCalls ++ dateTimeCalls ++ arithmeticCalls ++
    ["neg", "pos", "abs", "first", "last", "field", "fail"] ++ Helper.selectorFunctions

/-- The forms of all calls give the types that the tables say. -/
lemma registry_represents : (arithmeticRows.all rowPasses && registry.signatures.all fun e =>
    settledPasses e.1.1 e.1.2 e.2 && arithmeticPasses e.1.1 e.1.2 e.2 &&
      selectorPasses e.1.1 e.1.2 e.2 && e.1.1 ∈ formedCalls) = true := by
  decide +kernel

/-- The form of a row of the table gives the type of the row. -/
lemma rowPasses_of_mem {row : String × Tag × Tag × Tag} (h : row ∈ arithmeticRows) :
    rowPasses row = true :=
  List.all_eq_true.mp (Bool.and_eq_true_iff.mp registry_represents).1 row h

/-- The form of a call of a name that does not take any number of arguments stands under a signature. -/
lemma signature_of_lookup {name : String} {tags : List Tag} {form : CallForm}
    (h : registry.lookup name tags = .ok form) (hname : name ∉ ["array", "record"]) :
    ∃ signature, ((name, signature), form) ∈ registry.signatures ∧ Covers signature tags := by
  rcases Registry.exists_of_lookup rfl h with hsignature | ⟨least, hmem⟩
  · exact hsignature
  · have hvariadics : registry.variadics = [("record", 0, .shared (.function "jsonb_build_object")),
        ("array", 0, .shared (.sequence "ARRAY[" "]"))] := rfl
    rw [hvariadics] at hmem
    simp only [List.mem_cons, Prod.mk.injEq, List.not_mem_nil, or_false] at hmem
    rcases hmem with ⟨rfl, -⟩ | ⟨rfl, -⟩ <;> simp at hname

/-- What the registry says about the form of a call. -/
lemma entry_of_lookup {name : String} {tags : List Tag} {form : CallForm}
    (h : registry.lookup name tags = .ok form) (hname : name ∉ ["array", "record"]) :
    ∃ signature, Covers signature tags ∧ settledPasses name signature form = true ∧
      arithmeticPasses name signature form = true ∧ selectorPasses name signature form = true ∧
      name ∈ formedCalls := by
  obtain ⟨signature, hmem, hcovers⟩ := signature_of_lookup h hname
  have hpasses := List.all_eq_true.mp (Bool.and_eq_true_iff.mp registry_represents).2 _ hmem
  simp only [Bool.and_eq_true, decide_eq_true_eq] at hpasses
  obtain ⟨⟨⟨hsettled, harithmetic⟩, hselector⟩, hformed⟩ := hpasses
  exact ⟨signature, hcovers, hsettled, harithmetic, hselector, hformed⟩

/-- The forms of the calls of a name, by their signatures. -/
def entriesOf (name : String) : List (List Tag × CallForm) :=
  registry.signatures.filterMap fun e => if e.1.1 = name then some (e.1.2, e.2) else none

/-- A form that is found, other than for arrays and records, stands under a signature that covers
the tags. -/
lemma mem_entriesOf {name : String} {tags : List Tag} {form : CallForm}
    (h : registry.lookup name tags = .ok form) (hname : name ∉ ["array", "record"]) :
    ∃ signature, (signature, form) ∈ entriesOf name ∧ Covers signature tags := by
  obtain ⟨signature, hmem, hcovers⟩ := signature_of_lookup h hname
  exact ⟨signature, List.mem_filterMap.mpr ⟨_, hmem, if_pos rfl⟩, hcovers⟩

/-! ## Odd calls -/

/-- The calls of selectors and of arrays, which have a type where they are not called by name. -/
def constructedCalls : List String := "array" :: Helper.selectorFunctions

/-- The calls whose representation is not that of their type, given their arguments. -/
def IsOddCall (prelude : Prelude) (name : String) (args : List Argument) (ty : Ty) : Prop :=
  if name ∈ "neg" :: arithmeticCalls then
    -- An operator on operands of known type that do not go together.
    ty.isAny = true ∧ ∀ a ∈ args, a.1.ty.isAny = false
  else if name = "pos" then
    -- A value that stays what it is while its type is forgotten.
    ty.isAny = true ∧ ∀ a ∈ args, a.1.ty.tag ∉ [.any, .record]
  else if name ∈ ["first", "last"] then
    -- An item of an array whose items have no common type and are not `jsonb`, or are arrays.
    ∃ a ∈ args, (a.1.ty = .array none ∧ (a.2.representation prelude).item ≠ .single .jsonb) ∨
      ∃ t, a.1.ty = .array (some t) ∧ base? t = none
  else if name ∈ ["field", "fail"] then
    -- A type without a column type, other than the unknown one.
    ty.tag ∈ [.array, .null, .function]
  else name ∈ constructedCalls ∧ ty.isAny = true

/-- The calls that can be odd. -/
def oddNames : List String :=
  ["neg", "pos", "first", "last", "field", "fail"] ++ arithmeticCalls ++ constructedCalls

section Odd

variable {prelude : Prelude} {name : String} {args : List Argument} {ty : Ty}

/-- A call of another name is not odd. -/
lemma not_isOddCall (h : name ∉ oddNames) : ¬IsOddCall prelude name args ty := by
  simp only [oddNames, List.mem_append, List.mem_cons, List.not_mem_nil, or_false, not_or] at h
  obtain ⟨⟨⟨hneg, hpos, hfirst, hlast, hfield, hfail⟩, harithmetic⟩, hconstructed⟩ := h
  simp [IsOddCall, hneg, hpos, hfirst, hlast, hfield, hfail, harithmetic, hconstructed]

/-- Arithmetic is odd on operands of known types that do not go together. -/
lemma isOddCall_arithmetic (h : name ∈ "neg" :: arithmeticCalls) :
    IsOddCall prelude name args ty ↔ ty.isAny = true ∧ ∀ a ∈ args, a.1.ty.isAny = false := by
  rw [IsOddCall, if_pos h]

/-- The call of a selector or of an array is odd where its type is not known. -/
lemma isOddCall_constructed (h : name ∈ constructedCalls) :
    IsOddCall prelude name args ty ↔ ty.isAny = true := by
  have hother : ∀ name ∈ constructedCalls, name ∉ "neg" :: arithmeticCalls ∧ name ≠ "pos" ∧
      name ∉ ["first", "last"] ∧ name ∉ ["field", "fail"] := by
    decide
  obtain ⟨harithmetic, hpos, hitem, hread⟩ := hother name h
  rw [IsOddCall, if_neg harithmetic, if_neg hpos, if_neg hitem, if_neg hread, and_iff_right h]

end Odd

end Retarget.Sql
