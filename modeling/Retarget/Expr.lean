import Retarget.Literal

set_option autoImplicit false

/-!
# Expressions

The tree that a source text denotes. Every node carries a note of the type `α`: the bytes it takes
where the tree was parsed, nothing where it was built by hand.

## Main definitions

* `Retarget.Expr` — the tree.
* `Retarget.UnaryOp.function`, `Retarget.BinaryOp.function` — the call that an operator stands for.
-/

namespace Retarget

/-- The operators in front of an operand. -/
inductive UnaryOp
  | neg | pos | not
deriving DecidableEq, Repr

/-- The operators between two operands. -/
inductive BinaryOp
  | add | sub | mul | div | mod | pow | eq | neq | lt | lte | gt | gte | and | or
deriving DecidableEq, Repr

/-- The name of the call that the operator stands for. -/
def UnaryOp.function : UnaryOp → String
  | .neg => "neg"
  | .pos => "pos"
  | .not => "not"

/-- The name of the call that the operator stands for. -/
def BinaryOp.function : BinaryOp → String
  | .add => "add"
  | .sub => "sub"
  | .mul => "mul"
  | .div => "div"
  | .mod => "mod"
  | .pow => "pow"
  | .eq => "eq"
  | .neq => "neq"
  | .lt => "lt"
  | .lte => "lte"
  | .gt => "gt"
  | .gte => "gte"
  | .and => "and"
  | .or => "or"

/-- What a selector does with a value that does not fit its type. -/
inductive SelectPolicy
  /-- `Int(x)` raises. -/
  | raise
  /-- `Int??(x)` gives null. -/
  | orNull
  /-- `Int?(x)` tells whether the value fits. -/
  | check
  /-- `Int!(x, 'message')` raises the message. -/
  | assert
deriving DecidableEq, Repr

/-- Which conditions a guard holds. -/
inductive GuardKind
  /-- Conditions to be met before the body. -/
  | guard
  /-- Conditions on the value of the body, which they call `it`. -/
  | check
deriving DecidableEq, Repr

/-- A test with an optional label. -/
structure Condition (ε : Type) where
  label : Option String
  test : ε
deriving DecidableEq, Repr

/-- An expression whose nodes carry notes of the type `α`. -/
inductive Expr (α : Type)
  | literal (note : α) (value : Literal)
  | array (note : α) (items : List (Expr α))
  | record (note : α) (fields : List (String × Expr α))
  | var (note : α) (name : String)
  | unary (note : α) (op : UnaryOp) (operand : Expr α)
  | binary (note : α) (op : BinaryOp) (lhs rhs : Expr α)
  | cond (note : α) (test yes no : Expr α)
  | letIn (note : α) (bindings : List (String × Expr α)) (body : Expr α)
  | lambda (note : α) (params : List String) (body : Expr α)
  | call (note : α) (callee : Expr α) (args : List (Expr α))
  | member (note : α) (object : Expr α) (field : String)
  /-- `value |> function(args...)` -/
  | pipe (note : α) (value : Expr α) (function : String) (args : List (Expr α))
  | alternative (note : α) (candidates : List (Expr α))
  | select (note : α) (typeName : String) (policy : SelectPolicy)
      (constraints : List (Condition (Expr α))) (args : List (Expr α))
  | guarded (note : α) (kind : GuardKind) (conditions : List (Condition (Expr α)))
      (body : Expr α)
deriving Repr

namespace Expr

/-- The note of the outermost node. -/
def note {α : Type} : Expr α → α
  | .literal n _ | .array n _ | .record n _ | .var n _ | .unary n _ _ | .binary n _ _ _
  | .cond n _ _ _ | .letIn n _ _ | .lambda n _ _ | .call n _ _ | .member n _ _ | .pipe n _ _ _
  | .alternative n _ | .select n _ _ _ _ | .guarded n _ _ _ => n

/-- The name of a variable. -/
def varName? {α : Type} : Expr α → Option String
  | .var _ name => some name
  | _ => none

end Expr

end Retarget
