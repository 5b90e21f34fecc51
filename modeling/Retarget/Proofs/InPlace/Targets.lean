import Retarget.Proofs.Arity
import Retarget.Proofs.InPlace.Step

set_option autoImplicit false

/-!
# The targets in place

The steps in which each target writes, construct by construct. Only SQL binds names: it writes the
values of bindings one after the other, each with the names before it bound, and then undoes the
bindings, whether the body or one of the values fails or not.

## Main definitions

* `Retarget.Ruby.steps`, `Retarget.JavaScript.steps`, `Retarget.Sql.steps` — the targets as they write in
  place.
* `Retarget.TargetKind.steps` — the same by kind.

## Main results

* `Retarget.TargetKind.follows_steps` — each of them writes what the target writes.
-/

namespace Retarget

open Step

variable {stop : Option CompileError}

/-! ## Registries -/

namespace Registry

variable {ε : Type} {r : Registry ε} {least : ε → Nat}

/-- Every form of the registry stands for calls with as many arguments as it reads. -/
def reaches (r : Registry ε) (least : ε → Nat) : Bool :=
  (r.signatures.all fun e => least e.2 ≤ e.1.2.length) &&
    r.variadics.all fun e => least e.2.2 ≤ e.2.1

/-- A call that finds a form has as many arguments as the form reads. -/
lemma least_le_of_lookup (hfallback : r.fallback = none) (hreaches : r.reaches least = true)
    {name : String} {tags : List Tag} {form : ε} (h : r.lookup name tags = .ok form) :
    least form ≤ tags.length := by
  simp only [reaches, Bool.and_eq_true, List.all_eq_true, decide_eq_true_eq] at hreaches
  rcases form_of_lookup hfallback h with ⟨signature, hform, hcovers⟩ | hvariadic
  · exact hcovers.length_eq ▸ hreaches.1 _ (mem_signatures hform)
  · obtain ⟨_, hmem, hle⟩ := exists_of_variadic hvariadic
    exact Nat.le_trans (hreaches.2 _ hmem) hle

/-- Calls are written in place as their forms are, by the forms that they find. -/
lemma callSteps_eq (hfallback : r.fallback = none) (hreaches : r.reaches least = true)
    {steps : ε → Step.Site → Step Fragment} {emit : ε → Site → Emit Fragment}
    (hsteps : ∀ (form : ε) {site : Site}, site.Has stop (least form) →
      steps form site.steps = ofEmit (emit form site))
    {site : Site} (hlength : stop.isSome = true → site.argTypes.length = site.operands.length) :
    r.callSteps steps site.steps = ofEmit (r.call emit site) := by
  have htags : site.steps.tags = site.tags := rfl
  rw [callSteps, call, Site.steps_name, htags]
  cases hlookup : r.lookup site.name site.tags with
  | error e => simp
  | ok form =>
    refine hsteps form fun hstop => ?_
    have hle := least_le_of_lookup hfallback hreaches hlookup
    rw [Site.tags, List.length_map] at hle
    exact ⟨hlength hstop ▸ hle, hle⟩

end Registry

/-! ## Ruby -/

namespace Ruby

/-- The steps that write a call. -/
def CallForm.steps (stop : Option CompileError) : CallForm → Step.Site → Step Fragment
  | .shared form, site => form.steps stop precedence site
  | .block text, site => do
    let receiver ← site.receiver stop precedence
    let rest ← Step.codes (← readRest stop site.operands)
    return .atom (receiver ++ text ++ "(" ++ commaSeparated (withBlock rest) ++ ")")
  | .dayShift op, site => do
    let lhs ← (← site.operand stop 0).wrapped precedence op .left
    let shift ← site.operand stop 1
    let rhs ←
      match shift.ir.literal?.bind Temporal.literalDays? with
      | some days => pure (toString days)
      | none => shift.wrapped precedence op .right
    return .operation (lhs ++ " " ++ op ++ " " ++ rhs) op
  | .index, site => do
    let receiver ← site.receiver stop precedence
    let key ← (← site.operand stop 1).code
    return .atom (receiver ++ "[" ++ key ++ "]")

/-- How many arguments a form reads by their index. -/
def CallForm.least : CallForm → Nat
  | .shared form => form.least
  | .block _ => 1
  | .dayShift _ | .index => 2

/-- A call with as many arguments as its form reads is written in place as it is written
otherwise. -/
lemma CallForm.steps_eq (form : CallForm) {site : Site} (h : site.Has stop form.least) :
    form.steps stop site.steps = ofEmit (form.emit site) := by
  cases form with
  | shared form => exact form.steps_eq precedence h
  | block text =>
    simp only [CallForm.steps, CallForm.emit, Site.steps_operands, h.receiver Nat.one_pos,
      h.readRest Nat.one_pos, pure_bind, codes_steps, ofEmit_bind, ofEmit_pure]
  | dayShift op =>
    have h : site.Has stop 2 := h
    simp only [CallForm.steps, CallForm.emit, h.operand, Nat.zero_lt_two, Nat.one_lt_two, pure_bind,
      Operand.steps_wrapped, Operand.steps_ir, ofEmit_bind]
    cases (site.operand 1).ir.literal?.bind Temporal.literalDays? with
    | none => simp
    | some days => simp
  | index =>
    have h : site.Has stop 2 := h
    simp [CallForm.steps, CallForm.emit, h.operand, h.receiver]

/-- Bindings around a code, which are functions called at once. The innermost is written first. -/
def bindAroundSteps : List (String × Step.Operand) → Step String → Step String
  | [], body => body
  | (name, value) :: rest, body => do
    let code ← bindAroundSteps rest body
    let value ← value.code
    return arrow (localName name) code ++ ".call(" ++ value ++ ")"

/-- Bindings around a code are written in place as they are written otherwise. -/
lemma bindAroundSteps_eq (bindings : List (String × Operand)) (body : Emit String) :
    bindAroundSteps (bindings.map (Prod.map id Operand.steps)) (ofEmit body) =
      ofEmit (bindAround bindings body) := by
  induction bindings with
  | nil => rfl
  | cons b bindings ih => simp [bindAroundSteps, bindAround, ih]

/-- Ruby as it writes in place. -/
def steps (stop : Option CompileError) : Step.Target where
  precedence := precedence
  literal value := return .atom (literalCode value)
  variableCode name := .atom (localName name)
  letIn bindings body := do return .atom (← bindAroundSteps bindings body.code)
  lambda params body := do
    let body ← body.code
    if params.isEmpty then return .atom (thunk body)
    return .atom (arrow (commaSeparated (params.map localName)) body)
  conditional test yes no _ := do
    let test ← test.wrapped precedence "?:" .left
    let yes ← yes.wrapped precedence "?:" .right
    let no ← no.wrapped precedence "?:" .right
    return .operation (test ++ " ? " ++ yes ++ " : " ++ no) "?:"
  alternative candidates _ := do
    let name := Helper.snake "alt"
    Step.require name
    let parts ← Step.codes candidates
    return .atom (name ++ "(" ++ commaSeparated (parts.map thunk) ++ ")")
  call := registry.callSteps (CallForm.steps stop)
  executable := target.executable

/-- Ruby writes every construct in place as it writes it otherwise. -/
lemma follows_steps (stop : Option CompileError) : (steps stop).Follows stop target where
  precedence := rfl
  literal value := by simp [steps, target]
  variableCode _ := rfl
  letIn bindings body := by simp [steps, target, bindAroundSteps_eq]
  lambda params body := by
    simp only [steps, target, Operand.steps_code, ofEmit_bind]
    split_ifs <;> simp
  conditional test yes no ty := by simp [steps, target]
  alternative candidates ty := by simp [steps, target]
  call site := Registry.callSteps_eq rfl (by decide) CallForm.steps_eq
  executable _ := rfl

end Ruby

/-! ## JavaScript -/

namespace JavaScript

/-- The steps that write a call. -/
def CallForm.steps (stop : Option CompileError) : CallForm → Step.Site → Step Fragment
  | .shared form, site => form.steps stop precedence site
  | .byTime op, site => do
    let a ← site.receiver stop precedence
    let b ← (← site.operand stop 1).wrapped precedence memberOp .left
    return .operation (a ++ ".getTime() " ++ op ++ " " ++ b ++ ".getTime()") op
  | .nullTest place op, site => do
    let value ← (← site.operand stop place).wrapped precedence op .left
    return .operation (value ++ " " ++ op ++ " null") op
  | .reduce, site => do
    let receiver ← site.receiver stop precedence
    let start ← (← site.operand stop 1).code
    let function ← (← site.operand stop 2).code
    return .atom (receiver ++ ".reduce(" ++ function ++ ", " ++ start ++ ")")
  | .field, site => do
    let receiver ← site.receiver stop precedence
    let member ← site.operand stop 1
    match member.ir.string?.filter isName with
    | some key => return .atom (receiver ++ "." ++ key)
    | none => return .atom (receiver ++ "[" ++ (← member.code) ++ "]")

/-- How many arguments a form reads by their index. -/
def CallForm.least : CallForm → Nat
  | .shared form => form.least
  | .byTime _ | .field => 2
  | .nullTest place _ => place + 1
  | .reduce => 3

/-- A call with as many arguments as its form reads is written in place as it is written
otherwise. -/
lemma CallForm.steps_eq (form : CallForm) {site : Site} (h : site.Has stop form.least) :
    form.steps stop site.steps = ofEmit (form.emit site) := by
  cases form with
  | shared form => exact form.steps_eq precedence h
  | byTime op =>
    have h : site.Has stop 2 := h
    simp [CallForm.steps, CallForm.emit, h.operand, h.receiver]
  | nullTest place op =>
    simp [CallForm.steps, CallForm.emit, h.operand (Nat.lt_succ_self place)]
  | reduce =>
    have h : site.Has stop 3 := h
    simp [CallForm.steps, CallForm.emit, h.operand, h.receiver]
  | field =>
    have h : site.Has stop 2 := h
    simp only [CallForm.steps, CallForm.emit, h.operand, h.receiver, Nat.zero_lt_two,
      Nat.one_lt_two, pure_bind, Operand.steps_code, Operand.steps_ir, ofEmit_bind]
    cases (site.operand 1).ir.string?.filter isName with
    | none => simp
    | some key => simp

/-- Bindings around a code, which are functions called at once. The innermost is written first. -/
def bindAroundSteps : List (String × Step.Operand) → Step String → Step String
  | [], body => body
  | (name, value) :: rest, body => do
    let code ← bindAroundSteps rest body
    let value ← value.code
    return "(" ++ arrow (localName name) code ++ ")(" ++ value ++ ")"

/-- Bindings around a code are written in place as they are written otherwise. -/
lemma bindAroundSteps_eq (bindings : List (String × Operand)) (body : Emit String) :
    bindAroundSteps (bindings.map (Prod.map id Operand.steps)) (ofEmit body) =
      ofEmit (bindAround bindings body) := by
  induction bindings with
  | nil => rfl
  | cons b bindings ih => simp [bindAroundSteps, bindAround, ih]

/-- JavaScript as it writes in place. -/
def steps (stop : Option CompileError) : Step.Target where
  precedence := precedence
  literal value := do
    Step.requireAll (literalHelpers value)
    return .atom (literalCode value)
  variableCode name := .atom (localName name)
  letIn bindings body := do return .atom (← bindAroundSteps bindings body.code)
  lambda params body := do
    let body ← body.code
    return .operation (arrow (commaSeparated (params.map localName)) body) "=>"
  conditional test yes no _ := do
    let test ← test.wrapped precedence "?:" .left
    let yes ← yes.wrapped precedence "?:" .right
    let no ← no.wrapped precedence "?:" .right
    return .operation (test ++ " ? " ++ yes ++ " : " ++ no) "?:"
  alternative candidates _ := do
    let name := Helper.camel "alt"
    Step.require name
    let parts ← Step.codes candidates
    return .atom (name ++ "(" ++ commaSeparated (parts.map (arrow "")) ++ ")")
  call := registry.callSteps (CallForm.steps stop)
  executable := target.executable

/-- JavaScript writes every construct in place as it writes it otherwise. -/
lemma follows_steps (stop : Option CompileError) : (steps stop).Follows stop target where
  precedence := rfl
  literal value := by simp [steps, target]
  variableCode _ := rfl
  letIn bindings body := by simp [steps, target, bindAroundSteps_eq]
  lambda params body := by simp [steps, target]
  conditional test yes no ty := by simp [steps, target]
  alternative candidates ty := by simp [steps, target]
  call site := Registry.callSteps_eq rfl (by decide) CallForm.steps_eq
  executable _ := rfl

end JavaScript

/-! ## SQL -/

namespace Sql

/-- An argument as a `jsonb` value. -/
def jsonbSteps (o : Step.Operand) : Step String :=
  match o.ir.ty with
  | .any => o.code
  | .record _ => o.code
  | .null => return "CAST(NULL AS JSONB)"
  | _ => do
    let code ← o.code
    if isStringLiteral o.ir.literal? then return "to_jsonb(" ++ cast code .text ++ ")"
    return "to_jsonb(" ++ code ++ ")"

/-- An argument becomes a `jsonb` value in place as it does otherwise. -/
@[simp] lemma jsonbSteps_eq (o : Operand) : jsonbSteps o.steps = ofEmit (jsonb o) := by
  simp only [jsonbSteps, jsonb, Operand.steps_ir, Operand.steps_code]
  cases o.ir.ty <;> simp only [ofEmit_bind, ofEmit_ite, ofEmit_pure] <;> rfl

/-- The arguments as `jsonb` values, from left to right. -/
def jsonbsSteps : List Step.Operand → Step (List String)
  | [] => pure []
  | o :: os => do
    let code ← jsonbSteps o
    let rest ← jsonbsSteps os
    return code :: rest

/-- Arguments become `jsonb` values in place as they do otherwise. -/
@[simp] lemma jsonbsSteps_eq (os : List Operand) :
    jsonbsSteps (os.map Operand.steps) = ofEmit (jsonbs os) := by
  induction os with
  | nil => simp [jsonbsSteps, jsonbs]
  | cons o os ih => simp [jsonbsSteps, jsonbs, ih]

/-- An argument read as a column type; only one of unknown type changes. -/
def coerceSteps (o : Step.Operand) (column : Column) : Step Fragment := do
  let fragment ← o.fragment
  if o.ir.ty.isAny then return .atom (readAs column fragment)
  return fragment

/-- An argument is read as a column type in place as it is otherwise. -/
@[simp] lemma coerceSteps_eq (o : Operand) (column : Column) :
    coerceSteps o.steps column = ofEmit (coerce o column) := by
  simp only [coerceSteps, coerce, Operand.steps_ir, Operand.steps_fragment, ofEmit_bind, ofEmit_ite,
    ofEmit_pure]
  rfl

/-- The codes of arguments read as a column type. -/
def coerceAllSteps (column : Column) : List Step.Operand → Step (List String)
  | [] => pure []
  | o :: os => do
    let fragment ← coerceSteps o column
    let rest ← coerceAllSteps column os
    return fragment.code :: rest

/-- Arguments are read as a column type in place as they are otherwise. -/
@[simp] lemma coerceAllSteps_eq (column : Column) (os : List Operand) :
    coerceAllSteps column (os.map Operand.steps) = ofEmit (coerceAll column os) := by
  induction os with
  | nil => simp [coerceAllSteps, coerceAll]
  | cons o os ih => simp [coerceAllSteps, coerceAll, ih]

/-- The helper of a call over `jsonb` arguments. -/
def untypedSteps (site : Step.Site) : Step Fragment := do
  let name := Helper.snake site.name
  Step.require name
  let args ← jsonbsSteps site.operands
  return .atom (name ++ "(" ++ commaSeparated args ++ ")")

/-- The helper of a call over `jsonb` arguments is written in place as it is otherwise. -/
@[simp] lemma untypedSteps_eq (site : Site) : untypedSteps site.steps = ofEmit (untyped site) := by
  simp [untypedSteps, untyped]

/-- A call of the failure helper, with the type of the value it stands for. -/
def failureSteps (ty : Ty) (message : String) : Step String := do
  let name := Helper.snake "fail"
  Step.require name
  match column? ty with
  | some column => return name ++ "(" ++ cast "NULL" column ++ ", " ++ message ++ ")"
  | none => return name ++ "(" ++ message ++ ")"

/-- A failure is written in place as it is otherwise. -/
@[simp] lemma failureSteps_eq (ty : Ty) (message : String) :
    failureSteps ty message = ofEmit (failure ty message) := by
  simp only [failureSteps, failure, ofEmit_bind, ofEmit_require]
  cases column? ty with
  | none => simp
  | some column => simp

/-- A branch of a conditional or alternative of a type; branches of unknown type are `jsonb`. -/
def branchSteps (ty : Ty) (o : Step.Operand) : Step String :=
  if ty.isAny then jsonbSteps o else o.code

/-- A branch is written in place as it is otherwise. -/
@[simp] lemma branchSteps_eq (ty : Ty) (o : Operand) :
    branchSteps ty o.steps = ofEmit (branch ty o) := by
  simp [branchSteps, branch]

/-- The branches of an alternative of a type. -/
def branchesSteps (ty : Ty) : List Step.Operand → Step (List String)
  | [] => pure []
  | o :: os => do
    let code ← branchSteps ty o
    let rest ← branchesSteps ty os
    return code :: rest

/-- The branches of an alternative are written in place as they are otherwise. -/
@[simp] lemma branchesSteps_eq (ty : Ty) (os : List Operand) :
    branchesSteps ty (os.map Operand.steps) = ofEmit (branches ty os) := by
  induction os with
  | nil => simp [branchesSteps, branches]
  | cons o os ih => simp [branchesSteps, branches, ih]

/-- The steps that write a call. -/
def CallForm.steps (stop : Option CompileError) : CallForm → Step.Site → Step Fragment
  | .shared form, site => form.steps stop precedence site
  | .untyped, site => untypedSteps site
  | .operator op, site =>
    if site.argTypes.any Ty.isAny then untypedSteps site
    else (Form.infixOp op).steps stop precedence site
  | .wide op, site => do
    let a ← site.operand stop 0
    let b ← site.operand stop 1
    let lhs ←
      if isNarrow a.ir && isNarrow b.ir then do pure (cast (← a.code) .bigint)
      else a.wrapped precedence op .left
    let rhs ← b.wrapped precedence op .right
    return .operation (lhs ++ " " ++ op ++ " " ++ rhs) op
  | .negation, site => do
    if (← site.argType stop 0).isAny then untypedSteps site
    else (Form.prefixOp "u-" "-").steps stop precedence site
  | .connective op, site => do
    let lhs ← coerceSteps (← site.operand stop 0) .boolean
    let rhs ← coerceSteps (← site.operand stop 1) .boolean
    return .operation
      (precedence.wrap lhs op .left ++ " " ++ op ++ " " ++ precedence.wrap rhs op .right) op
  | .complement, site => do
    let operand ← coerceSteps (← site.operand stop 0) .boolean
    return .operation ("NOT " ++ precedence.wrap operand "NOT" .right) "NOT"
  | .nullTest place test, site => do
    if (← site.argType stop place).isAny then untypedSteps site
    else do
      let value ← (← site.operand stop place).wrapped precedence "IS" .left
      return .operation (value ++ " " ++ test) "IS"
  | .dateShift dateFirst op, site => do
    let lhs ← (← site.operand stop (if dateFirst then 0 else 1)).wrapped precedence op .left
    let duration ← site.operand stop (if dateFirst then 1 else 0)
    match duration.ir.literal?.bind Temporal.literalDays? with
    | some days => return .operation (lhs ++ " " ++ op ++ " " ++ toString days) op
    | none =>
      let rhs ← duration.wrapped precedence op .right
      return .atom (cast (lhs ++ " " ++ op ++ " " ++ rhs) .date)
  | .asserted, site => do
    let name := Helper.snake site.name
    Step.require name
    let value ← jsonbSteps (← site.operand stop 0)
    let message ← coerceSteps (← site.operand stop 1) .text
    return .atom (name ++ "(" ++ value ++ ", " ++ message.code ++ ")")
  | .coerced function column, site => do
    let args ← coerceAllSteps column site.operands
    return .atom (function ++ "(" ++ commaSeparated args ++ ")")
  | .integerOf function, site => do
    let value ← coerceSteps (← site.operand stop 0) .numeric
    return .atom (cast (function ++ "(" ++ value.code ++ ")") .bigint)
  | .extract part, site => do
    let value ← coerceSteps (← site.operand stop 0) .timestamp
    let ty ← site.argType stop 0
    let source :=
      match ty with
      | .dateTime => precedence.wrap value "AT" .left ++ " AT TIME ZONE 'UTC'"
      | _ => value.code
    return .atom (cast ("EXTRACT(" ++ part ++ " FROM " ++ source ++ ")") .bigint)
  | .endsWith, site => do
    let text ← coerceSteps (← site.operand stop 0) .text
    let ending ← coerceSteps (← site.operand stop 1) .text
    return .operation
      ("RIGHT(" ++ text.code ++ ", LENGTH(" ++ ending.code ++ ")) = " ++ ending.code) "="
  | .containsText, site => do
    let text ← (← site.operand stop 0).code
    let part ← coerceSteps (← site.operand stop 1) .text
    return .operation ("POSITION(" ++ part.code ++ " IN " ++ text ++ ") > 0") ">"
  | .containsItem, site => do
    let item ← (← site.operand stop 1).wrapped precedence "=" .left
    let items ← (← site.operand stop 0).code
    return .operation (item ++ " = ANY(" ++ items ++ ")") "="
  | .joined, site => do
    let items ← (← site.operand stop 0).code
    let separator ← coerceSteps (← site.operand stop 1) .text
    return .atom ("array_to_string(" ++ items ++ ", " ++ separator.code ++ ")")
  | .lastItem, site => do
    let items ← (← site.operand stop 0).code
    return .atom ("(" ++ items ++ ")[cardinality(" ++ items ++ ")]")
  | .field, site => do
    let object ← (← site.operand stop 0).wrapped precedence "->" .left
    let key ← (← site.operand stop 1).code
    return .atom (fieldCode site.result object key)
  | .fail, site => do
    let message ← coerceSteps (← site.operand stop 0) .text
    return .atom (← failureSteps site.result message.code)

/-- How many arguments a form reads by their index. -/
def CallForm.least : CallForm → Nat
  | .shared form => form.least
  | .untyped | .coerced _ _ => 0
  | .negation | .complement | .integerOf _ | .extract _ | .lastItem | .fail => 1
  | .operator _ | .wide _ | .connective _ | .dateShift _ _ | .asserted | .endsWith | .containsText
  | .containsItem | .joined | .field => 2
  | .nullTest place _ => place + 1

/-- A call with as many arguments as its form reads is written in place as it is written otherwise.

**Proof sketch.** One case for each form. Every index that the form reads is in range, so that no read
stops the writing, and what is left are the same steps over the arguments. -/
lemma CallForm.steps_eq (form : CallForm) {site : Site} (h : site.Has stop form.least) :
    form.steps stop site.steps = ofEmit (form.emit site) := by
  cases form with
  | shared form => exact form.steps_eq precedence h
  | untyped | coerced => simp [CallForm.steps, CallForm.emit]
  | operator op =>
    simp only [CallForm.steps, CallForm.emit, (Form.infixOp op).steps_eq precedence h,
      Site.steps_argTypes, untypedSteps_eq, ofEmit_ite]
  | negation =>
    simp only [CallForm.steps, CallForm.emit, (Form.prefixOp "u-" "-").steps_eq precedence h,
      h.argType Nat.one_pos, pure_bind, untypedSteps_eq, ofEmit_ite]
  | complement | integerOf | lastItem | fail =>
    have h : site.Has stop 1 := h
    simp [CallForm.steps, CallForm.emit, h.operand]
  | extract part =>
    simp only [CallForm.steps, CallForm.emit, h.operand Nat.one_pos, h.argType Nat.one_pos, pure_bind,
      coerceSteps_eq, ofEmit_bind]
    exact bind_congr fun value => (ofEmit_pure _).symm
  | wide | connective | asserted | endsWith | containsText | containsItem | joined | field =>
    have h : site.Has stop 2 := h
    simp [CallForm.steps, CallForm.emit, h.operand]
  | dateShift dateFirst op =>
    have h : site.Has stop 2 := h
    have hdate : (if dateFirst then 0 else 1) < 2 := by split_ifs <;> decide
    have hduration : (if dateFirst then 1 else 0) < 2 := by split_ifs <;> decide
    simp only [CallForm.steps, CallForm.emit, h.operand hdate, h.operand hduration, pure_bind,
      Operand.steps_ir, Operand.steps_wrapped, ofEmit_bind]
    cases (site.operand _).ir.literal?.bind Temporal.literalDays? with
    | none => simp
    | some days => simp
  | nullTest place test =>
    have hplace := Nat.lt_succ_self place
    simp [CallForm.steps, CallForm.emit, h.operand hplace, h.argType hplace]

/-- Steps after whose failure the names are unbound to a depth. -/
def unbinding {α : Type} (depth : Nat) (p : Step α) : Step α :=
  tryCatch p fun e => do
    modify (·.unbindTo depth)
    throw e

/-- The values of bindings and the body, each with the names before it bound. The names are unbound to
a depth behind the body, and where a value fails. -/
def bindInSteps (depth : Nat) : List (String × Step.Operand) → Step.Operand → Step Fragment
  | [], body => do
    let fragment ← unbinding depth body.fragment
    modify (·.unbindTo depth)
    return fragment
  | (name, value) :: rest, body => do
    let fragment ← unbinding depth value.fragment
    modify (·.bind name (substituted value.ir fragment))
    bindInSteps depth rest body

/-- Bindings, which are undone to the depth before them. -/
def letInSteps (bindings : List (String × Step.Operand)) (body : Step.Operand) : Step Fragment := do
  bindInSteps (← get).depth bindings body

/-- Names are unbound where a computation fails, and stay as it left them where it does not. -/
lemma run_unbinding {α : Type} (m : Emit α) (depth : Nat) (s : Session) :
    (unbinding depth (ofEmit m)).run.run s =
      match s.run m with
      | (.error e, left) => (.error e, left.unbindTo depth)
      | (.ok a, left) => (.ok a, left) := by
  rw [unbinding, run_tryCatch, run_ofEmit]
  rcases s.run m with ⟨_ | a, left⟩
  · rfl
  · rfl

/-- Only the names behind those pushed are left. -/
lemma unbindTo_append (pushed names : Bindings) (helpers : List String) :
    (⟨pushed ++ names, helpers⟩ : Session).unbindTo names.length = ⟨names, helpers⟩ := by
  simp [Session.unbindTo]

/-- The names that are bound before and between the bindings are unbound, whatever fails. -/
lemma run_bindInSteps (bindings : List (String × Operand)) (body : Operand)
    (pushed names : Bindings) (helpers : List String) :
    (bindInSteps names.length (bindings.map (Prod.map id Operand.steps)) body.steps).run.run
        ⟨pushed ++ names, helpers⟩ =
      ((bindIn bindings body (pushed ++ names)).outcome,
        ⟨names, helpers ++ (bindIn bindings body (pushed ++ names)).helpers⟩) := by
  induction bindings generalizing pushed helpers with
  | nil =>
    rw [List.map_nil, bindInSteps, run_bind, Operand.steps_fragment, run_unbinding, Session.run, bindIn]
    cases (body.fragment (pushed ++ names)).outcome with
    | error e => exact congrArg (Prod.mk _) (unbindTo_append ..)
    | ok fragment => exact congrArg (Prod.mk _) (unbindTo_append ..)
  | cons b bindings ih =>
    rw [List.map_cons, Prod.map, bindInSteps, run_bind, Operand.steps_fragment, run_unbinding,
      Session.run, bindIn, Emit.bind_apply]
    rcases b.2.fragment (pushed ++ names) with ⟨_ | fragment, noted⟩
    · exact congrArg (Prod.mk _) (unbindTo_append ..)
    · rw [← List.append_assoc]
      exact ih ((b.1, substituted b.2.ir fragment) :: pushed) (helpers ++ noted)

/-- Bindings that are undone to the depth before them are written as the bindings are otherwise. -/
lemma letInSteps_eq (bindings : List (String × Operand)) (body : Operand) :
    letInSteps (bindings.map (Prod.map id Operand.steps)) body.steps =
      ofEmit (bindIn bindings body) :=
  ext_run fun s => run_bindInSteps bindings body [] s.names s.helpers

/-- SQL as it writes in place. -/
def steps (stop : Option CompileError) : Step.Target where
  precedence := precedence
  literal value := return .atom (literalCode value)
  variableCode name := .atom (identifier name)
  letIn := letInSteps
  lambda _ _ := throw (.unsupported name .lambda)
  conditional test yes no ty := do
    let test ← coerceSteps test .boolean
    let yes ← branchSteps ty yes
    let no ← branchSteps ty no
    return .atom ("CASE WHEN " ++ test.code ++ " THEN " ++ yes ++ " ELSE " ++ no ++ " END")
  alternative candidates ty := do
    if candidates.dropLast.any fun o => o.ir.mayRaise then
      throw (.unsupported name .raisingCandidate)
    else
      let parts ← branchesSteps ty candidates
      let last ← failureSteps ty (quote "no alternative matched")
      return .atom ("COALESCE(" ++ commaSeparated (parts ++ [last]) ++ ")")
  call := registry.callSteps (CallForm.steps stop)
  executable := target.executable

/-- SQL writes every construct in place as it writes it otherwise. -/
lemma follows_steps (stop : Option CompileError) : (steps stop).Follows stop target where
  precedence := rfl
  literal value := by simp [steps, target]
  variableCode _ := rfl
  letIn := letInSteps_eq
  lambda params body := by simp [steps, target]
  conditional test yes no ty := by simp [steps, target]
  alternative candidates ty := by
    have hraise : ((candidates.map Operand.steps).dropLast.any fun o => o.ir.mayRaise) =
        candidates.dropLast.any fun o => o.ir.mayRaise := by
      rw [← List.map_dropLast, List.any_map]
      rfl
    simp [steps, target, hraise, -List.any_eq_true]
  call site := Registry.callSteps_eq rfl (by decide) CallForm.steps_eq
  executable _ := rfl

end Sql

/-- The target of a kind as it writes in place; a read out of range stops it with the given error. -/
def TargetKind.steps (stop : Option CompileError) : TargetKind → Step.Target
  | .ruby => Ruby.steps stop
  | .javaScript => JavaScript.steps stop
  | .sql => Sql.steps stop

/-- The targets write in place what they write otherwise. -/
lemma TargetKind.follows_steps (kind : TargetKind) (stop : Option CompileError) :
    (kind.steps stop).Follows stop kind.target := by
  cases kind with
  | ruby => exact Ruby.follows_steps stop
  | javaScript => exact JavaScript.follows_steps stop
  | sql => exact Sql.follows_steps stop

end Retarget
