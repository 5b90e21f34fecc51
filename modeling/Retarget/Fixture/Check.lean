import Retarget.Fixture
import Retarget.Ir.Dump
import Retarget.Text.Order
import Retarget.Text.Shown

set_option autoImplicit false

/-!
# Checking fixtures

Every case of a fixture is lowered once and compiled for every target. What differs from what is
known of it is reported.

## Main definitions

* `Retarget.Case.check` — what is wrong with the code of a case on a target.
* `Retarget.Report` — text to show, and how many checks passed and failed.
* `Retarget.Fixture.report` — a fixture checked on targets.
-/

namespace Retarget

/-- How the outcome of compilation differs from what is known of it. -/
inductive Mismatch
  /-- The code is another one. -/
  | code (expected actual : String)
  /-- The code calls other helpers. -/
  | helpers (expected actual : List String)
  /-- There is code where an error is due. -/
  | compiled (expected actual : String)
  /-- There is an error where none is due, or another one. -/
  | failed (error : CompileError)
deriving DecidableEq, Repr

/-- A mismatch in words. -/
def Mismatch.text : Mismatch → String
  | .code expected actual => s!"expected `{expected}`\n       got `{actual}`"
  | .helpers expected actual =>
    "expected helpers " ++ Text.shownList expected ++ ", got " ++ Text.shownList actual
  | .compiled expected actual =>
    s!"expected error containing `{expected}`, compiled `{actual}`"
  | .failed error => "error: " ++ error.message

/-- A text occurs in another one. -/
def occursIn (part : List Char) : List Char → Bool
  | [] => part.isEmpty
  | c :: cs => part.isPrefixOf (c :: cs) || occursIn part cs

namespace Case

/-- What is wrong with compiled code: it differs from the code known for the target, or the
helpers that it calls do. -/
def checkCompiled (c : Case) (kind : TargetKind) (compiled : Compiled) : Option Mismatch :=
  match c.expect.lookup kind with
  | some expected =>
    if compiled.code = expected then checkHelpers else some (.code expected compiled.code)
  | none => checkHelpers
where
  /-- What is wrong with the helpers that the code calls. -/
  checkHelpers : Option Mismatch :=
    match c.helpers.lookup kind with
    | some expected =>
      if compiled.helpers = Text.inOrder expected then none
      else some (.helpers (Text.inOrder expected) compiled.helpers)
    | none => none

/-- What is wrong with the code of a case on a target, given its lowered form. An error is right
where one is due and its message holds the text known of it. -/
def check (c : Case) (form : OutputForm) (lowered : Except CompileError Ir) (kind : TargetKind) :
    Option Mismatch :=
  match lowered >>= kind.target.compile form, c.errors.lookup kind with
  | .ok compiled, none => c.checkCompiled kind compiled
  | .ok compiled, some expected => some (.compiled expected compiled.code)
  | .error e, some expected =>
    if occursIn expected.toList e.message.toList then none else some (.failed e)
  | .error e, none => some (.failed e)

end Case

/-! ## Reports -/

/-- Text to show, and how many checks passed and failed. -/
structure Report where
  text : String
  passed : Nat
  failed : Nat
deriving DecidableEq, Repr

namespace Report

/-- Nothing checked, nothing to show. -/
def empty : Report := ⟨"", 0, 0⟩

/-- One report after another. -/
def append (a b : Report) : Report := ⟨a.text ++ b.text, a.passed + b.passed, a.failed + b.failed⟩

/-- Several reports in a row. -/
def concat (reports : List Report) : Report := reports.foldl append empty

/-- The report of one check. -/
def ofCheck (label : String) : Option Mismatch → Report
  | none => ⟨s!"PASS {label}\n", 1, 0⟩
  | some mismatch => ⟨s!"FAIL {label}\n       {mismatch.text}\n", 0, 1⟩

/-- The last line of a report. -/
def summary (r : Report) : String := s!"{r.passed} passed, {r.failed} failed\n"

end Report

/-- The lowered form of a case as it is shown, where it has one. -/
def Case.dump (c : Case) : Except CompileError Ir → String
  | .ok ir => s!"IR {c.source}\n" ++ ir.json.render 0 ++ "\n"
  | .error _ => ""

/-- A case checked on targets. -/
def Case.report (c : Case) (fixture : Fixture) (lowered : Except CompileError Ir)
    (kinds : List TargetKind) : Report :=
  Report.concat (kinds.map fun kind =>
    Report.ofCheck s!"{fixture.name} / {kind.name} / {c.source}"
      (c.check fixture.form lowered kind))

/-- A fixture checked on targets. Where they are asked for, the lowered forms of all of its cases
are shown first. -/
def Fixture.report (fixture : Fixture) (kinds : List TargetKind) (dump : Bool) : Report :=
  let lowered := fixture.cases.map fun c => (c, lowerSource c.source)
  let dumps := if dump then String.join (lowered.map fun (c, ir) => c.dump ir) else ""
  let checks := Report.concat (lowered.map fun (c, ir) => c.report fixture ir kinds)
  { checks with text := dumps ++ checks.text }

end Retarget
