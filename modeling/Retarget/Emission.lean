import Retarget.Error

set_option autoImplicit false

/-!
# Writing code

Code is written piece by piece. A piece carries the operator at its top level, so that the piece
around it can tell whether it needs parentheses. While pieces are written, names may stand for
pieces written before, and helpers are noted; a helper stays noted when the writing fails later.

## Main definitions

* `Retarget.Fragment` — a piece of code with its operator.
* `Retarget.PrecedenceTable` — binding strengths, and `PrecedenceTable.needsParens`.
* `Retarget.Emit` — a computation that writes code.
* `Retarget.Operand`, `Retarget.Site` — a call as the form that writes it sees it.
-/

namespace Retarget

/-! ## Fragments and precedence -/

/-- A piece of code and the operator at its top level. Without an operator it never needs
parentheses. -/
structure Fragment where
  code : String
  op : Option String
deriving DecidableEq, Repr, Inhabited

/-- A piece of code that never needs parentheses. -/
def Fragment.atom (code : String) : Fragment := ⟨code, none⟩

/-- A piece of code with an operator at its top level. -/
def Fragment.operation (code op : String) : Fragment := ⟨code, some op⟩

/-- On which side of an operator a piece stands. -/
inductive Side
  | left | right
deriving DecidableEq, Repr

/-- How a row of operators of one strength groups. -/
inductive Assoc
  | left
  | right
  /-- It does not group without parentheses. -/
  | none
deriving DecidableEq, Repr

/-- The strength and grouping of operators; the stronger binds tighter. The first entry of an
operator counts. -/
abbrev PrecedenceTable := List (String × Nat × Assoc)

namespace PrecedenceTable

/-- The strength and grouping of an operator. -/
def get? (table : PrecedenceTable) (op : String) : Option (Nat × Assoc) := table.lookup op

/-- A piece with the operator `inner` needs parentheses on a side of the operator `outer`. Unknown
operators always do. -/
def needsParens (table : PrecedenceTable) (inner : Option String) (outer : String) (side : Side) :
    Bool :=
  match inner with
  | none => false
  | some inner =>
    match table.get? inner, table.get? outer with
    | some (strength, _), some (outerStrength, assoc) =>
      if strength != outerStrength then strength < outerStrength
      else
        match assoc with
        | .left => side == .right
        | .right => side == .left
        | .none => true
    | _, _ => true

/-- A piece as it is written on a side of an operator. -/
def wrap (table : PrecedenceTable) (inner : Fragment) (outer : String) (side : Side) : String :=
  if table.needsParens inner.op outer side then "(" ++ inner.code ++ ")" else inner.code

end PrecedenceTable

/-! ## Computations that write code -/

/-- The names that stand for pieces of code, innermost first. -/
abbrev Bindings := List (String × Fragment)

/-- What came of writing, and the helpers noted on the way. -/
structure Emission (α : Type) where
  outcome : Except CompileError α
  helpers : List String

/-- A computation that writes code: it sees the bound names and notes helpers. -/
def Emit (α : Type) : Type := Bindings → Emission α

namespace Emit

variable {α β : Type}

instance : Monad Emit where
  pure a := fun _ => ⟨.ok a, []⟩
  bind m f := fun names =>
    match m names with
    | ⟨.error e, helpers⟩ => ⟨.error e, helpers⟩
    | ⟨.ok a, helpers⟩ =>
      let next := f a names
      ⟨next.outcome, helpers ++ next.helpers⟩

/-- Give up. -/
def fail (e : CompileError) : Emit α := fun _ => ⟨.error e, []⟩

/-- Note a row of helpers. -/
def requireAll (helpers : List String) : Emit Unit := fun _ => ⟨.ok (), helpers⟩

/-- Note a helper. -/
def require (helper : String) : Emit Unit := requireAll [helper]

/-- The piece that a name stands for. -/
def lookup (name : String) : Emit (Option Fragment) := fun names => ⟨.ok (names.lookup name), []⟩

/-- Write with one more name bound. -/
def binding (name : String) (fragment : Fragment) (m : Emit α) : Emit α := fun names =>
  m ((name, fragment) :: names)

end Emit

/-! ## Calls -/

/-- An argument of a call: the lowered form to look at and its code yet to be written. -/
structure Operand where
  ir : Ir
  fragment : Emit Fragment

namespace Operand

/-- The code of the argument. -/
def code (o : Operand) : Emit String := do return (← o.fragment).code

/-- The code of the argument on a side of an operator. -/
def wrapped (o : Operand) (table : PrecedenceTable) (outer : String) (side : Side) :
    Emit String := do
  return table.wrap (← o.fragment) outer side

end Operand

/-- The codes of a row of arguments from left to right. -/
def codes : List Operand → Emit (List String)
  | [] => pure []
  | o :: os => do
    let code ← o.code
    let rest ← codes os
    return code :: rest

/-- Pieces with commas between them. -/
def commaSeparated (parts : List String) : String := ", ".intercalate parts

/-- The codes of a row of arguments with commas between them. -/
def codeList (os : List Operand) : Emit String := do return commaSeparated (← codes os)

/-- A call as the form that writes it sees it. -/
structure Site where
  name : String
  operands : List Operand
  argTypes : List Ty
  result : Ty

namespace Site

/-- The tags of the arguments. -/
def tags (s : Site) : List Tag := s.argTypes.map Ty.tag

/-- The argument at a place. A form that wants an argument that the call does not have is no form
of that call. -/
def operand (s : Site) (i : Nat) : Operand :=
  s.operands.getD i ⟨.ofLiteral .null, Emit.fail (.dispatch ⟨s.name, s.tags⟩)⟩

/-- The static type of the argument at a place. -/
def argType (s : Site) (i : Nat) : Ty := s.argTypes.getD i .any

end Site

end Retarget
