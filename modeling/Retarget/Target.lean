import Retarget.Emission.Form
import Retarget.Helper

set_option autoImplicit false

/-!
# Targets

A target is an output language: how it writes constants, variables, bindings, functions,
conditionals, alternatives and calls.

## Main definitions

* `Retarget.Target` — an output language.
* `Retarget.Target.fragment` — the code of a lowered form in a target.
* `Retarget.Target.compile` — a whole compilation.
-/

namespace Retarget

/-- An output language. -/
structure Target where
  name : String
  precedence : PrecedenceTable
  literal : Literal → Emit Fragment
  variableCode : String → Fragment
  letIn : List (String × Operand) → Operand → Emit Fragment
  lambda : List String → Operand → Emit Fragment
  conditional : Operand → Operand → Operand → Ty → Emit Fragment
  alternative : List Operand → Ty → Emit Fragment
  call : Site → Emit Fragment
  /-- A compiled expression as a unit of its own that takes the input `_`. -/
  executable : String → String

/-- The form of a call by the tags of its arguments, written by `emit`. -/
def Registry.call {ε : Type} (registry : Registry ε) (emit : ε → Site → Emit Fragment)
    (site : Site) : Emit Fragment :=
  match registry.lookup site.name site.tags with
  | .ok form => emit form site
  | .error e => Emit.fail (.dispatch e)

namespace Target

mutual

/-- The code of a lowered form. A name that is bound to a piece of code is that piece. -/
def fragment (t : Target) : Ir → Emit Fragment
  | .literal value _ => t.literal value
  | .var name _ => do return (← Emit.lookup name).getD (t.variableCode name)
  | .letIn bindings body _ => t.letIn (boundOperands t bindings) ⟨body, t.fragment body⟩
  | .lambda params body _ => t.lambda params ⟨body, t.fragment body⟩
  | .cond test yes no ty =>
    t.conditional ⟨test, t.fragment test⟩ ⟨yes, t.fragment yes⟩ ⟨no, t.fragment no⟩ ty
  | .alternative candidates ty => t.alternative (operands t candidates) ty
  | .call name args argTypes ty => t.call ⟨name, operands t args, argTypes, ty⟩

/-- Lowered forms with their code yet to be written. -/
def operands (t : Target) : List Ir → List Operand
  | [] => []
  | ir :: irs => ⟨ir, t.fragment ir⟩ :: operands t irs

/-- Bound values with their code yet to be written. -/
def boundOperands (t : Target) : List (String × Ir) → List (String × Operand)
  | [] => []
  | (name, ir) :: rest => (name, ⟨ir, t.fragment ir⟩) :: boundOperands t rest

end

/-- A lowered form with its code yet to be written. -/
def operand (t : Target) (ir : Ir) : Operand := ⟨ir, t.fragment ir⟩

end Target

/-! ## Compilation -/

/-- What becomes of a compiled expression. -/
inductive OutputForm
  /-- It stays an expression in which `_` is free. -/
  | fragment
  /-- It becomes a function of `_`, or a query. -/
  | executable
deriving DecidableEq, Repr

/-- The name of an output form. -/
def OutputForm.text : OutputForm → String
  | .fragment => "fragment"
  | .executable => "executable"

/-- The output form of a name. -/
def OutputForm.ofText? (name : String) : Option OutputForm :=
  [OutputForm.fragment, .executable].find? (·.text == name)

/-- Compiled code and the helpers that it calls, in order. -/
structure Compiled where
  code : String
  helpers : List String
deriving DecidableEq, Repr

/-- A lowered form compiled for a target. -/
def Target.compile (t : Target) (form : OutputForm) (ir : Ir) : Except CompileError Compiled :=
  match t.fragment ir [] with
  | ⟨.error e, _⟩ => .error e
  | ⟨.ok fragment, helpers⟩ =>
    let code :=
      match form with
      | .fragment => fragment.code
      | .executable => t.executable fragment.code
    .ok ⟨code, Helper.sorted helpers⟩

end Retarget
