import Retarget.Literal
import Retarget.Ty

set_option autoImplicit false

/-!
# The lowered form

What an expression is lowered to: typed, and with calls in place of all operators and constructs
that build a value. Every target writes this one form.

## Main definitions

* `Retarget.Ir` — the lowered form.
* `Retarget.Ir.mayRaise` — evaluation can raise.
-/

namespace Retarget

/-- The type of a constant. -/
def Literal.ty : Literal → Ty
  | .int _ => .int
  | .float _ => .float
  | .bool _ => .bool
  | .string _ => .string
  | .date _ => .date
  | .dateTime _ => .dateTime
  | .duration _ => .duration
  | .null => .null

/-- A lowered expression. Every node ends with its type. -/
inductive Ir
  | literal (value : Literal) (ty : Ty)
  | var (name : String) (ty : Ty)
  /-- Bindings in a row, each of which sees those before it. -/
  | letIn (bindings : List (String × Ir)) (body : Ir) (ty : Ty)
  | lambda (params : List String) (body : Ir) (ty : Ty)
  | cond (test yes no : Ir) (ty : Ty)
  /-- The first candidate that neither raises nor is null. -/
  | alternative (candidates : List Ir) (ty : Ty)
  | call (name : String) (args : List Ir) (argTypes : List Ty) (ty : Ty)
deriving Repr, Inhabited

namespace Ir

/-- The type of a node. -/
def ty : Ir → Ty
  | .literal _ t | .var _ t | .letIn _ _ t | .lambda _ _ t | .cond _ _ _ t | .alternative _ t
  | .call _ _ _ t => t

/-- A constant with its type. -/
def ofLiteral (value : Literal) : Ir := .literal value value.ty

/-- A string constant. -/
def ofString (text : String) : Ir := ofLiteral (.string text)

/-- A call of a known type; the types of the arguments are their own. -/
def apply (name : String) (args : List Ir) (ty : Ty) : Ir := .call name args (args.map Ir.ty) ty

/-- A conditional, which has the common type of its branches. -/
def branch (test yes no : Ir) : Ir := .cond test yes no (yes.ty.join no.ty)

/-- Bindings over a body, which have its type. -/
def bind (bindings : List (String × Ir)) (body : Ir) : Ir := .letIn bindings body body.ty

/-- A call of `fail`, with the type of the value it stands for. -/
def fail (message : String) (ty : Ty) : Ir := apply "fail" [ofString message] ty

/-- The constant of a node that is one. -/
def literal? : Ir → Option Literal
  | .literal value _ => some value
  | _ => none

/-- The text of a node that is a string constant. -/
def string? (ir : Ir) : Option String := ir.literal?.bind Literal.string?

end Ir

/-! ## Raising -/

/-- The names of the selector calls of a type that raise where the value does not fit. -/
def Selectable.raising (s : Selectable) : List String := ["as_" ++ s.stem, "assert_" ++ s.stem]

/-- The stem of a selector call that raises where the value does not fit. -/
def raisingStem? (name : String) : Option String :=
  (selectables.find? fun s => s.raising.contains name).map Selectable.stem

mutual

/-- Evaluation can raise, through `fail`, a raising selector or an alternative none of whose
candidates is left. The body of a function raises only when it is called. -/
def Ir.mayRaise : Ir → Bool
  | .literal _ _ | .var _ _ | .lambda _ _ _ => false
  | .call name args _ _ => name == "fail" || (raisingStem? name).isSome || anyMayRaise args
  | .cond test yes no _ => test.mayRaise || yes.mayRaise || no.mayRaise
  | .letIn bindings body _ => anyBindingMayRaise bindings || body.mayRaise
  | .alternative _ _ => true

/-- One of the nodes can raise. -/
def anyMayRaise : List Ir → Bool
  | [] => false
  | ir :: irs => ir.mayRaise || anyMayRaise irs

/-- One of the bound values can raise. -/
def anyBindingMayRaise : List (String × Ir) → Bool
  | [] => false
  | (_, ir) :: rest => ir.mayRaise || anyBindingMayRaise rest

end

end Retarget
