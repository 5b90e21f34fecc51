import Retarget.Proofs.Alternative
import Retarget.Proofs.Guards.Events
import Retarget.Proofs.Typing

set_option autoImplicit false

/-!
# Guards and checks

A guard tests its conditions before its body, a check tests them on the value of its body. Both test
in the order of the source and stop at the first condition that is not met: this one gives the label
of the failure, and nothing behind it is evaluated.

## Main definitions

* `Retarget.Host.failing` — the run of a failure with a label.
* `Retarget.FailsFast` — how a row of conditions and what follows them are run.
* `Retarget.LowersEach` — the conditions of a source and their lowered tests.

## Main results

* `Retarget.failsFast_failFast` — a row of conditions is run in order, up to the first that is not met.
* `Retarget.run_guarded` — so are the conditions of guards and checks.
-/

namespace Retarget

variable {V F : Type}

/-- What a failure with a label raises. -/
def Host.labelled (host : Host V F) (label : String) : F :=
  host.failure [host.literal (.string label)]

/-- The run of a failure with a label. -/
def Host.failing (host : Host V F) (label : String) : Run V F V :=
  ⟨.error (host.labelled label),
    [.constant (.string label), .call "fail" [host.literal (.string label)]]⟩

/-- The events of a row of conditions that are tested one after the other. -/
def testEvents (host : Host V F) (env : Env V) (tests : List (Condition Ir)) : List (Event V) :=
  tests.flatMap fun t => t.test.events host env

/-- A whole run tests conditions one after the other, and goes on with `rest` only where all of them
are met. -/
structure FailsFast (host : Host V F) (env : Env V) (tests : List (Condition Ir))
    (defaultLabel : String) (rest whole : Run V F V) : Prop where
  /-- Where all conditions are met, the rest follows. -/
  met : (∀ t ∈ tests, t.test.answer host env = .ok true) →
    whole = rest.behind (testEvents host env tests)
  /-- The first condition that is not met fails with its label, and nothing behind it is run. -/
  broken (before : List (Condition Ir)) (t : Condition Ir) (after : List (Condition Ir)) :
    tests = before ++ t :: after → (∀ u ∈ before, u.test.answer host env = .ok true) →
    t.test.answer host env = .ok false →
    whole = (host.failing (t.label.getD defaultLabel)).behind (testEvents host env (before ++ [t]))
  /-- A condition that raises is the last one to be run, too. -/
  raised (before : List (Condition Ir)) (t : Condition Ir) (after : List (Condition Ir)) (f : F) :
    tests = before ++ t :: after → (∀ u ∈ before, u.test.answer host env = .ok true) →
    t.test.answer host env = .error f →
    whole = ⟨.error f, testEvents host env (before ++ [t])⟩

section Conditions

variable {host : Host V F} {env : Env V}

/-- The events of two rows of tests follow each other. -/
lemma testEvents_append (tests tests' : List (Condition Ir)) :
    testEvents host env (tests ++ tests') = testEvents host env tests ++ testEvents host env tests' := by
  simp [testEvents]

/-- The events of one test are those of its expression. -/
lemma testEvents_singleton (t : Condition Ir) :
    testEvents host env [t] = t.test.events host env := by
  simp [testEvents]

/-- Conditions that are met are run in order, and then the conditions behind them. -/
lemma run_failFast_append (before after : List (Condition Ir)) (body : Ir) (label : String)
    (hmet : ∀ t ∈ before, t.test.answer host env = .ok true) :
    (failFast (before ++ after) body label).run host env =
      ((failFast after body label).run host env).behind (testEvents host env before) := by
  induction before with
  | nil => rfl
  | cons t before ih =>
    have htest : t.test.answer host env = .ok true := hmet t (by simp)
    have hrest := ih fun u hu => hmet u (by simp [hu])
    calc (failFast (t :: before ++ after) body label).run host env
        = ((failFast (before ++ after) body label).run host env).behind
            (t.test.events host env) := run_cond_of_true htest
      _ = ((failFast after body label).run host env).behind
            (t.test.events host env ++ testEvents host env before) := by
          rw [hrest, Run.behind_behind]
      _ = ((failFast after body label).run host env).behind
            (testEvents host env (t :: before)) := rfl

/-- A row of conditions over a body is run in order, up to the first that is not met. -/
theorem failsFast_failFast (tests : List (Condition Ir)) (body : Ir) (label : String) :
    FailsFast host env tests label (body.run host env)
      ((failFast tests body label).run host env) where
  met hmet := by
    have h := run_failFast_append tests [] body label hmet
    rwa [List.append_nil] at h
  broken before t after htests hmet hbroken := by
    have hstop : (failFast (t :: after) body label).run host env =
        (host.failing (t.label.getD label)).behind (t.test.events host env) :=
      run_cond_of_false hbroken
    rw [htests, run_failFast_append before (t :: after) body label hmet, hstop, Run.behind_behind,
      testEvents_append, testEvents_singleton]
  raised before t after f htests hmet hraised := by
    have hstop : (failFast (t :: after) body label).run host env =
        ⟨.error f, t.test.events host env⟩ := run_cond_of_error hraised
    rw [htests, run_failFast_append before (t :: after) body label hmet, hstop, Run.behind,
      testEvents_append, testEvents_singleton]

end Conditions

/-! ## Lowered guards and checks -/

section Lowering

variable {α : Type} {scope : Scope} {recover : Bool} {note : α}
  {conditions : List (Condition (Expr α))} {body : Expr α} {ir : Ir}

/-- The tests are those of the conditions, in their order, each with the label of its condition. -/
def LowersEach (scope : Scope) (conditions : List (Condition (Expr α)))
    (tests : List (Condition Ir)) : Prop :=
  List.Forall₂ (fun c t => t.label = c.label ∧ c.test.lower scope false = .ok t.test)
    conditions tests

/-- Conditions that are lowered are lowered one by one. -/
lemma lowersEach_of_lowerConditions {tests : List (Condition Ir)}
    (h : lowerConditions scope conditions = .ok tests) : LowersEach scope conditions tests := by
  induction conditions generalizing tests with
  | nil =>
    cases h
    exact .nil
  | cons c conditions ih =>
    obtain ⟨test, htest, h⟩ := exists_of_bind_eq_ok h
    obtain ⟨tests, htests, h⟩ := exists_of_bind_eq_ok h
    cases h
    exact .cons ⟨rfl, htest⟩ (ih htests)

/-- A lowered guard tests its conditions and then runs its body; a lowered check runs its body, in the
environment outside of the check, and then tests its conditions where `it` is the value of the body.
Both stop at the first condition that is not met.

**Proof sketch.** Lowering is followed for both kinds. The tests of a guard are conditionals around
its body, and those of a check conditionals around the name `it` that is bound to the body;
`failsFast_failFast` is the run of such conditionals. -/
theorem run_guarded (kind : GuardKind)
    (h : (Expr.guarded note kind conditions body).lower scope recover = .ok ir) :
    ∃ value tests, body.lower scope false = .ok value ∧
      LowersEach (match kind with | .guard => scope | .check => (itName, value.ty) :: scope)
        conditions tests ∧
      ∀ (host : Host V F) (env : Env V), (ir.run host env).outcome = ir.eval host env ∧
        match kind with
        | .guard => FailsFast host env tests "guard failed" (value.run host env) (ir.run host env)
        | .check => ∃ rest : V → Run V F V,
            ir.run host env = (value.run host env).andThen rest ∧
            ∀ v, FailsFast host (env.bind itName v) tests "check failed"
              ⟨.ok v, [.read itName v]⟩ (rest v) := by
  cases kind with
  | guard =>
    obtain ⟨tests, htests, h⟩ := exists_of_bind_eq_ok h
    obtain ⟨value, hvalue, h⟩ := exists_of_bind_eq_ok h
    cases h
    refine ⟨value, tests, hvalue, lowersEach_of_lowerConditions htests, fun host env => ?_⟩
    exact ⟨outcome_run host env _, failsFast_failFast tests value _⟩
  | check =>
    obtain ⟨value, hvalue, h⟩ := exists_of_bind_eq_ok h
    obtain ⟨tests, htests, h⟩ := exists_of_bind_eq_ok h
    cases h
    refine ⟨value, tests, hvalue, lowersEach_of_lowerConditions htests, fun host env => ?_⟩
    refine ⟨outcome_run host env _, _, run_bind_one, fun v => ?_⟩
    have hit : (Ir.var itName value.ty).run host (env.bind itName v) =
        ⟨.ok v, [.read itName v]⟩ := by
      simp [Ir.run]
    rw [← hit]
    exact failsFast_failFast tests _ _

end Lowering

/-! ### A check around which `it` has a meaning -/

/-- Tests of a value called `it`: it is true, it is seven, and one that no host of constants knows. -/
def itTests : List (Condition (Expr Unit)) :=
  [⟨none, .binary () .eq (.var () "it") (.literal () (.bool true))⟩,
   ⟨some "seven", .binary () .eq (.var () "it") (.literal () (.int 7))⟩,
   ⟨some "later", .call () (.var () "unknown") [.var () "it"]⟩]

/-- Whether `it` is seven, in a check that calls the answer `it` again. -/
def checkedIt : Expr Unit :=
  .guarded () .check itTests (.binary () .eq (.var () "it") (.literal () (.int 7)))

/-- The lowered body of the check. -/
def itIsSeven : Ir := operator "eq" [.var itName .int, .ofLiteral (.int 7)]

/-- Where `it` is seven outside of the check, the body is true. So the first test is met, the second one
gives its label, and the third one is not run.

**Proof sketch.** The run of a check is the run of its body, which answers here, and then that of
its tests with `it` bound to the answer. The second test is the first one that is broken. -/
theorem run_guarded_checkedIt :
    ∃ ir tests, checkedIt.lower [(itName, .int)] false = .ok ir ∧
      LowersEach ((itName, .bool) :: [(itName, .int)]) itTests tests ∧
      ir.run constantHost (fun _ => some (.int 7)) =
        (constantHost.failing "seven").behind
          (itIsSeven.events constantHost (fun _ => some (.int 7)) ++
            testEvents constantHost (Env.bind (fun _ => some (.int 7)) itName (some (.bool true)))
              (tests.take 2)) := by
  let outer : Env (Option Literal) := fun _ => some (.int 7)
  let inner : Env (Option Literal) := outer.bind itName (some (.bool true))
  have h : checkedIt.lower [(itName, .int)] false = .ok _ := rfl
  obtain ⟨value, tests, hvalue, htests, hrun⟩ := run_guarded .check h
  obtain ⟨-, rest, hir, hrest⟩ := hrun constantHost outer
  obtain rfl : itIsSeven = value := Except.ok.inj hvalue
  have htrue : (itIsSeven.run constantHost outer).outcome = .ok (some (.bool true)) := rfl
  rw [Run.andThen_of_ok htrue] at hir
  match tests, htests, hrest with
  | t :: u :: after, .cons ⟨hlabel, ht⟩ (.cons ⟨hlabel', hu⟩ hafter), hrest =>
    have hmet : t.test.answer constantHost inner = .ok true := by
      rw [← Except.ok.inj ht]
      rfl
    have hbroken : u.test.answer constantHost inner = .ok false := by
      rw [← Except.ok.inj hu]
      rfl
    have hstop := (hrest (some (.bool true))).broken [t] u after rfl (by simpa using hmet) hbroken
    rw [hlabel'] at hstop
    refine ⟨_, t :: u :: after, h, .cons ⟨hlabel, ht⟩ (.cons ⟨hlabel', hu⟩ hafter), ?_⟩
    rw [hir, hstop, Run.behind_behind]
    rfl

end Retarget
