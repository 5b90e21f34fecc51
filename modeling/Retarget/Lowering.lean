import Retarget.Expr
import Retarget.Ir
import Retarget.Ty.Result

set_option autoImplicit false

/-!
# From expressions to the lowered form

Lowering gives every node its type and turns every operator, selector, guard and pipe into calls,
conditionals and bindings.

## Main definitions

* `Retarget.Ir.softened` — a candidate that fails by giving null.
* `Retarget.failFast`, `Retarget.allOf` — what a row of conditions becomes.
* `Retarget.dress` — the call of a selector.
* `Retarget.Expr.lower`, `Retarget.transform` — lowering, in a scope and of a whole expression.
-/

namespace Retarget

/-! ## Errors -/

/-- What is wrong with the names of an expression. -/
inductive TypeError
  | unboundVariable (name : String)
  | unknownType (name : String)
  | missingValue (typeName : String)
deriving DecidableEq, Repr

namespace TypeError

/-- What is wrong, in words. -/
def detail : TypeError → String
  | .unboundVariable name => s!"unbound variable `{name}`"
  | .unknownType name => s!"unknown type `{name}` in selector"
  | .missingValue typeName => s!"`{typeName}` selector needs a value"

/-- The wording of the error. -/
def message (e : TypeError) : String := "type error: " ++ e.detail

end TypeError

/-! ## Names -/

/-- The name of the input. -/
def inputName : String := "_"

/-- The name of the value that constraints and checks are about. -/
def itName : String := "it"

/-- The period constants and the calls they stand for. -/
def periods : List (String × String) :=
  [("TODAY", "today"), ("NOW", "now"), ("TOMORROW", "tomorrow"), ("YESTERDAY", "yesterday"),
   ("SOD", "start_of_day"), ("EOD", "end_of_day"), ("SOW", "start_of_week"),
   ("EOW", "end_of_week"), ("SOM", "start_of_month"), ("EOM", "end_of_month"),
   ("SOQ", "start_of_quarter"), ("EOQ", "end_of_quarter"), ("SOY", "start_of_year"),
   ("EOY", "end_of_year")]

/-- The names in scope with their types, innermost first. -/
abbrev Scope := List (String × Ty)

/-! ## Candidates of an alternative -/

/-- The same value, but null where evaluation ends in a raise: `fail` becomes null and a raising
selector its twin that gives null. -/
def Ir.soften : Ir → Ir
  | .call name args argTypes ty =>
    if name = "fail" then .literal .null ty
    else
      match raisingStem? name with
      | some stem => .apply ("as_" ++ stem ++ "_or_null") (args.take 1) ty
      | none => .call name args argTypes ty
  | .cond test yes no ty => .cond test yes.soften no.soften ty
  | .letIn bindings body ty => .letIn bindings body.soften ty
  | .literal value ty => .literal value ty
  | .var name ty => .var name ty
  | .lambda params body ty => .lambda params body ty
  | .alternative candidates ty => .alternative candidates ty

mutual

/-- The candidates that a candidate before the last one stands for: only the failure of the last
one is ever reported, so raises become nulls, and an alternative gives its own candidates. -/
def Ir.softened : Ir → List Ir
  | .alternative candidates _ => softenedAll candidates
  | .literal value ty => [(Ir.literal value ty).soften]
  | .var name ty => [(Ir.var name ty).soften]
  | .letIn bindings body ty => [(Ir.letIn bindings body ty).soften]
  | .lambda params body ty => [(Ir.lambda params body ty).soften]
  | .cond test yes no ty => [(Ir.cond test yes no ty).soften]
  | .call name args argTypes ty => [(Ir.call name args argTypes ty).soften]

/-- The candidates that a row of candidates stands for. -/
def softenedAll : List Ir → List Ir
  | [] => []
  | ir :: irs => ir.softened ++ softenedAll irs

end

/-! ## Conditions -/

/-- The body where all tests hold, and a failure with the label of the first test that does not. -/
def failFast (tests : List (Condition Ir)) (body : Ir) (defaultLabel : String) : Ir :=
  tests.foldr
    (fun c inner => .branch c.test inner (.fail (c.label.getD defaultLabel) body.ty)) body

/-- The conjunction of all tests, from left to right. -/
def allOf (tests : List (Condition Ir)) : Ir :=
  match tests with
  | [] => .ofLiteral (.bool true)
  | c :: cs => cs.foldl (fun a c => .apply "and" [a, c.test] .bool) c.test

/-! ## Calls and selectors -/

/-- A call whose type follows from its name and arguments. -/
def operator (name : String) (args : List Ir) : Ir :=
  .apply name args (resultType name (args.map Ir.ty))

/-- The call of a value that is a function. -/
def invoke (callee : Ir) (args : List Ir) : Ir := .apply "invoke" (callee :: args) .any

/-- The selector call of a policy. -/
def dress (s : Selectable) (policy : SelectPolicy) (value : Ir) (message : Option Ir) : Ir :=
  match policy with
  | .raise => .apply ("as_" ++ s.stem) [value] s.ty
  | .orNull => .apply ("as_" ++ s.stem ++ "_or_null") [value] s.ty
  | .check => .apply ("is_" ++ s.stem) [value] .bool
  | .assert =>
    .apply ("assert_" ++ s.stem) [value, message.getD (.ofString ("expected " ++ s.name))] s.ty

/-- A selector with constraints, whose tests call the dressed value `it`. -/
def constrained (s : Selectable) (policy : SelectPolicy) (tests : List (Condition Ir))
    (value : Ir) (message : Option Ir) : Ir :=
  let it : Ir := .var itName s.ty
  let null : Ir := .ofLiteral .null
  let raising : Ir :=
    .bind [(itName, dress s policy value message)]
      (failFast tests it (s.name ++ " constraint failed"))
  match policy with
  | .raise => raising
  | .assert => raising
  | .orNull =>
    .bind [(itName, dress s .orNull value none)]
      (.branch (.apply "eq" [it, null] .bool) null (.branch (allOf tests) it null))
  | .check =>
    .branch (dress s .check value none)
      (.bind [(itName, dress s .raise value none)] (allOf tests))
      (.ofLiteral (.bool false))

/-- A variable in scope, or else a period constant. -/
def lowerVariable (scope : Scope) (name : String) : Except TypeError Ir :=
  match scope.lookup name with
  | some ty => .ok (.var name ty)
  | none =>
    match periods.lookup name with
    | some function => .ok (operator function [])
    | none => .error (.unboundVariable name)

/-- The call of a name that stands for no value: neither in scope nor a period constant. -/
def isOperatorName (scope : Scope) (name : String) : Bool :=
  (scope.lookup name).isNone && (periods.lookup name).isNone

/-- The type of an array with items of the given types. -/
def arrayType (items : List Ty) : Ty :=
  match Ty.joinAll items with
  | .any => .array none
  | t => .array (some t)

/-- What a policy becomes in a candidate that another one follows: raising is of no use there. -/
def SelectPolicy.recoverable : SelectPolicy → SelectPolicy
  | .raise | .assert | .orNull => .orNull
  | .check => .check

/-! ## Lowering -/

mutual

/-- An expression in a scope. With `recover` it is a candidate that another one follows, and a
selector that raises is lowered to its twin that gives null, without its message. -/
def Expr.lower {α : Type} (scope : Scope) (recover : Bool) : Expr α → Except TypeError Ir
  | .literal _ value => .ok (.ofLiteral value)
  | .array _ items => do
    let items ← lowerAll scope items
    return .apply "array" items (arrayType (items.map Ir.ty))
  | .record _ fields => do
    let fields ← lowerFields scope fields
    return .apply "record" (fields.flatMap fun (name, value) => [.ofString name, value])
      (Ty.recordOf (fields.map fun (name, value) => (name, value.ty)))
  | .var _ name => lowerVariable scope name
  | .unary _ op operand => do
    let operand ← operand.lower scope false
    return operator op.function [operand]
  | .binary _ op lhs rhs => do
    let lhs ← lhs.lower scope false
    let rhs ← rhs.lower scope false
    return operator op.function [lhs, rhs]
  | .cond _ test yes no => do
    let test ← test.lower scope false
    let yes ← yes.lower scope false
    let no ← no.lower scope false
    return .branch test yes no
  | .letIn _ bindings body => do
    let (bindings, inner) ← lowerBindings scope bindings
    let body ← body.lower inner false
    return .bind bindings body
  | .lambda _ params body => do
    let body ← body.lower ((params.map fun p => (p, Ty.any)).reverse ++ scope) false
    return .lambda params body .function
  | .call _ callee args => do
    let args ← lowerAll scope args
    match callee.varName?.filter (isOperatorName scope) with
    | some name => return operator name args
    | none =>
      let callee ← callee.lower scope false
      return invoke callee args
  | .member _ object field => do
    let object ← object.lower scope false
    return .apply "field" [object, .ofString field] (object.ty.field field)
  | .pipe _ value function args => do
    let value ← value.lower scope false
    let args ← lowerAll scope args
    match selectable? function, args with
    | some s, [] => return dress s .raise value none
    | _, _ =>
      match scope.lookup function with
      | some ty => return invoke (.var function ty) (value :: args)
      | none => return operator function (value :: args)
  | .alternative _ candidates => do
    let candidates ← lowerCandidates scope candidates
    return .alternative candidates (Ty.joinAll (candidates.map Ir.ty))
  | .select _ typeName policy constraints args => do
    let silent := recover && policy != policy.recoverable
    let (value, message) ← lowerSelected scope typeName silent args
    match selectable? typeName with
    | none => throw (.unknownType typeName)
    | some s =>
      let policy := if silent then .orNull else policy
      match constraints with
      | [] => return dress s policy value message
      | _ =>
        let tests ← lowerConditions ((itName, s.ty) :: scope) constraints
        return constrained s policy tests value message
  | .guarded _ .guard conditions body => do
    let tests ← lowerConditions scope conditions
    let body ← body.lower scope false
    return failFast tests body "guard failed"
  | .guarded _ .check conditions body => do
    let value ← body.lower scope false
    let tests ← lowerConditions ((itName, value.ty) :: scope) conditions
    return .bind [(itName, value)] (failFast tests (.var itName value.ty) "check failed")

/-- A row of expressions from left to right. -/
def lowerAll {α : Type} (scope : Scope) : List (Expr α) → Except TypeError (List Ir)
  | [] => .ok []
  | e :: es => do
    let ir ← e.lower scope false
    let irs ← lowerAll scope es
    return ir :: irs

/-- The fields of a record. -/
def lowerFields {α : Type} (scope : Scope) :
    List (String × Expr α) → Except TypeError (List (String × Ir))
  | [] => .ok []
  | (name, e) :: es => do
    let ir ← e.lower scope false
    let irs ← lowerFields scope es
    return (name, ir) :: irs

/-- Bindings, each of which sees those before it, and the scope that their body sees. -/
def lowerBindings {α : Type} (scope : Scope) :
    List (String × Expr α) → Except TypeError (List (String × Ir) × Scope)
  | [] => .ok ([], scope)
  | (name, e) :: es => do
    let ir ← e.lower scope false
    let (irs, inner) ← lowerBindings ((name, ir.ty) :: scope) es
    return ((name, ir) :: irs, inner)

/-- Conditions in a scope. -/
def lowerConditions {α : Type} (scope : Scope) :
    List (Condition (Expr α)) → Except TypeError (List (Condition Ir))
  | [] => .ok []
  | ⟨label, test⟩ :: es => do
    let ir ← test.lower scope false
    let irs ← lowerConditions scope es
    return ⟨label, ir⟩ :: irs

/-- The candidates of an alternative; those before the last one are softened. -/
def lowerCandidates {α : Type} (scope : Scope) : List (Expr α) → Except TypeError (List Ir)
  | [] => .ok []
  | e :: es => do
    let ir ← e.lower scope (!es.isEmpty)
    let irs ← lowerCandidates scope es
    return if es.isEmpty then [ir] else ir.softened ++ irs

/-- The value and the message of a selector; a silent one has no use for its message. -/
def lowerSelected {α : Type} (scope : Scope) (typeName : String) (silent : Bool) :
    List (Expr α) → Except TypeError (Ir × Option Ir)
  | [] => .error (.missingValue typeName)
  | e :: es => do
    let value ← e.lower scope false
    if silent then return (value, none)
    let message ← lowerHead scope es
    return (value, message)

/-- The first of a row of expressions, if there is one. -/
def lowerHead {α : Type} (scope : Scope) : List (Expr α) → Except TypeError (Option Ir)
  | [] => .ok none
  | e :: _ => do
    let ir ← e.lower scope false
    return some ir

end

/-- The lowered form of a whole expression, which sees its input and nothing else. -/
def transform {α : Type} (e : Expr α) : Except TypeError Ir :=
  e.lower [(inputName, .any)] false

end Retarget
