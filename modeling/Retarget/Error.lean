import Retarget.Dispatch
import Retarget.Fault
import Retarget.Lowering

set_option autoImplicit false

/-!
# Errors of compilation

## Main definitions

* `Retarget.CompileError` — why a source does not compile, and `CompileError.message`.
-/

namespace Retarget

/-- What a target may be unable to write. -/
inductive Construct
  | lambda
  /-- A candidate before the last one that can raise. -/
  | raisingCandidate
deriving DecidableEq, Repr

/-- A construct in words. -/
def Construct.text : Construct → String
  | .lambda => "lambda"
  | .raisingCandidate => "a candidate raising before the last alternative"

/-- Why a source does not compile. -/
inductive CompileError
  | syntactic (error : SyntaxError)
  | typing (error : TypeError)
  | dispatch (error : DispatchError)
  | unsupported (target : String) (construct : Construct)
deriving DecidableEq, Repr

/-- The wording of the error. -/
def CompileError.message : CompileError → String
  | .syntactic e => e.message
  | .typing e => e.message
  | .dispatch e => e.message
  | .unsupported target construct => s!"{target} cannot express {construct.text}"

end Retarget
