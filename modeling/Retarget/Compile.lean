import Retarget.Expr.Parser
import Retarget.Target.JavaScript
import Retarget.Target.Ruby
import Retarget.Target.Sql

set_option autoImplicit false

/-!
# Compilation

The targets by name, and the way from a source to code.

## Main definitions

* `Retarget.TargetKind` — the targets.
* `Retarget.lowerSource` — the lowered form of a source.
* `Retarget.compile` — a source compiled for a target.
-/

namespace Retarget

/-- The targets. -/
inductive TargetKind
  | ruby | javaScript | sql
deriving DecidableEq, Repr

namespace TargetKind

/-- Every target, in the order in which they are reported. -/
def every : List TargetKind := [.ruby, .javaScript, .sql]

/-- The target. -/
def target : TargetKind → Target
  | .ruby => Ruby.target
  | .javaScript => JavaScript.target
  | .sql => Sql.target

/-- The name of the target. -/
def name (k : TargetKind) : String := k.target.name

/-- The target of a name. -/
def ofName? (name : String) : Option TargetKind := every.find? (·.name == name)

/-- The helpers that code of the target may call, in order. -/
def catalogue : TargetKind → List String
  | .ruby => Ruby.catalogue
  | .javaScript => JavaScript.catalogue
  | .sql => Sql.catalogue

end TargetKind

/-- The lowered form of a source. -/
def lowerSource (source : String) : Except CompileError Ir :=
  match parse source with
  | .error e => .error (.syntactic e)
  | .ok e => (transform e).mapError .typing

/-- A source compiled for a target. -/
def compile (source : String) (kind : TargetKind) (form : OutputForm) :
    Except CompileError Compiled :=
  match lowerSource source with
  | .error e => .error e
  | .ok ir => kind.target.compile form ir

end Retarget
