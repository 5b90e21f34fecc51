import Retarget.Proofs.Alternative
import Retarget.Proofs.Guards.FailFast

set_option autoImplicit false

/-!
# Outcomes of selectors

A selector names a type and may hold constraints. Whether a value has a dressed value of the type,
and which constraint the dressed value breaks first, is one verdict on the value; the four policies of
selectors differ only in the outcome that they make of it. Raising and asserting selectors nest their
constraints and stop at the first that is broken, the other two take the conjunction of all of them.

## Main definitions

* `Retarget.Host.Dresses` — what is assumed of the selector calls of a host.
* `Retarget.Verdict` — what a constrained selector finds about a value.
* `Retarget.Verdict.outcome` — what each policy makes of a verdict.

## Main results

* `Retarget.eval_allOf_answered` — the conjunction of tests is the conjunction of their answers.
* `Retarget.eval_failFast_answered` — conditions fail with the label of the first broken one.
* `Retarget.eval_selectors` — a selector of any policy has the outcome of the verdict.
-/

namespace Retarget

variable {V F : Type}

/-! ## What is assumed of a host -/

/-- What the selector calls of a host have to do with each other: each value has at most one dressed
value of a type, which is not null, and all selector calls of the type go by it. -/
structure Host.Dresses (host : Host V F) (dressed : Selectable → V → Option V) : Prop where
  /-- The constant null is null. -/
  isNull_null : host.isNull host.null = true
  /-- A boolean decides a conditional. -/
  truth_bool (b : Bool) : host.truth (host.bool b) = .ok b
  /-- Equality with null tells whether a value is null. -/
  eq_null (v : V) : host.call "eq" [v, host.null] = .ok (host.bool (host.isNull v))
  /-- The conjunction of booleans. -/
  and_bool (a b : Bool) : host.call "and" [host.bool a, host.bool b] = .ok (host.bool (a && b))
  /-- A dressed value is not null. -/
  isNull_dressed {s : Selectable} (hs : s ∈ selectables) {v w : V} :
    dressed s v = some w → host.isNull w = false
  /-- A raising selector gives the dressed value. -/
  as_some {s : Selectable} (hs : s ∈ selectables) {v w : V} :
    dressed s v = some w → host.call ("as_" ++ s.stem) [v] = .ok w
  /-- A raising selector raises where there is none. -/
  as_none {s : Selectable} (hs : s ∈ selectables) {v : V} :
    dressed s v = none → ∃ f, host.call ("as_" ++ s.stem) [v] = .error f
  /-- The twin of a raising selector gives the dressed value, or else null. -/
  orNull {s : Selectable} (hs : s ∈ selectables) (v : V) :
    host.call ("as_" ++ s.stem ++ "_or_null") [v] = .ok ((dressed s v).getD host.null)
  /-- A check tells whether there is a dressed value. -/
  is {s : Selectable} (hs : s ∈ selectables) (v : V) :
    host.call ("is_" ++ s.stem) [v] = .ok (host.bool (dressed s v).isSome)
  /-- An asserting selector gives the dressed value. -/
  assert_some {s : Selectable} (hs : s ∈ selectables) {v w : V} (m : V) :
    dressed s v = some w → host.call ("assert_" ++ s.stem) [v, m] = .ok w
  /-- An asserting selector raises its message where there is none. -/
  assert_none {s : Selectable} (hs : s ∈ selectables) {v : V} (m : V) :
    dressed s v = none → host.call ("assert_" ++ s.stem) [v, m] = .error (host.failure [m])

/-- A host that dresses values is lawful.

**Proof sketch.** Each law of a lawful host speaks of one answer of the host, so the laws follow by
cases on whether the value has a dressed value. -/
lemma Host.Dresses.lawful {host : Host V F} {dressed : Selectable → V → Option V}
    (laws : host.Dresses dressed) : host.Lawful where
  isNull_null := laws.isNull_null
  truth_bool := laws.truth_bool
  eq_null := laws.eq_null
  and_bool := laws.and_bool
  isNull_as := by
    intro s hs v w h
    cases hd : dressed s v with
    | none =>
      obtain ⟨f, hf⟩ := laws.as_none hs hd
      rw [hf] at h
      cases h
    | some w' =>
      rw [laws.as_some hs hd] at h
      cases h
      exact laws.isNull_dressed hs hd
  orNull_of_ok := by
    intro s hs v w h
    cases hd : dressed s v with
    | none =>
      obtain ⟨f, hf⟩ := laws.as_none hs hd
      rw [hf] at h
      cases h
    | some w' =>
      rw [laws.as_some hs hd] at h
      cases h
      rw [laws.orNull hs, hd]
      rfl
  orNull_of_error := by
    intro s hs v f h
    cases hd : dressed s v with
    | none =>
      refine ⟨host.null, ?_, laws.isNull_null⟩
      rw [laws.orNull hs, hd]
      rfl
    | some w =>
      rw [laws.as_some hs hd] at h
      cases h
  assert_ok := by
    intro s hs v m w
    cases hd : dressed s v with
    | none =>
      obtain ⟨f, hf⟩ := laws.as_none hs hd
      rw [hf, laws.assert_none hs m hd]
      exact ⟨nofun, nofun⟩
    | some w' => rw [laws.as_some hs hd, laws.assert_some hs m hd]

/-- What a raising selector raises for lack of a dressed value. -/
lemma Host.Dresses.exists_refusal {host : Host V F} {dressed : Selectable → V → Option V}
    (laws : host.Dresses dressed) {s : Selectable} (hs : s ∈ selectables) (v : V) :
    ∃ f, dressed s v = none → host.call ("as_" ++ s.stem) [v] = .error f := by
  by_cases hd : dressed s v = none
  · obtain ⟨f, hf⟩ := laws.as_none hs hd
    exact ⟨f, fun _ => hf⟩
  · exact ⟨host.nullFailure, fun h => absurd h hd⟩

/-! ## Verdicts -/

/-- What a constrained selector finds about a value. -/
inductive Verdict (V : Type)
  /-- It has no dressed value. -/
  | unfit
  /-- Its dressed value breaks a constraint, the first of which gives the label. -/
  | broken (label : String)
  /-- Its dressed value meets all constraints. -/
  | accepted (w : V)

namespace Verdict

/-- The verdict on a value with the given dressed value, from the answers of the constraints. -/
def of (defaultLabel : String) (dressed : Option V) (answers : List (Condition Bool)) :
    Verdict V :=
  match dressed with
  | none => .unfit
  | some w =>
    match answers.find? fun a => !a.test with
    | none => .accepted w
    | some a => .broken (a.label.getD defaultLabel)

/-- What a policy makes of a verdict, where `refusal` is what it raises for lack of a dressed
value. -/
def outcome (host : Host V F) (refusal : F) : SelectPolicy → Verdict V → Except F V
  | .raise, .accepted w | .assert, .accepted w | .orNull, .accepted w => .ok w
  | .raise, .broken label | .assert, .broken label => .error (host.labelled label)
  | .raise, .unfit | .assert, .unfit => .error refusal
  | .orNull, .broken _ | .orNull, .unfit => .ok host.null
  | .check, .accepted _ => .ok (host.bool true)
  | .check, .broken _ | .check, .unfit => .ok (host.bool false)

/-- An asserting selector differs from a raising one only in what it raises for lack of a dressed
value. -/
lemma outcome_assert (host : Host V F) (refusal : F) (verdict : Verdict V) :
    verdict.outcome host refusal .assert = verdict.outcome host refusal .raise := by
  cases verdict <;> rfl

/-- A dressed value is accepted exactly where all answers are true. -/
lemma of_some (label : String) (w : V) (answers : List (Condition Bool)) :
    (∃ broken, of label (some w) answers = .broken broken ∧ answers.all (·.test) = false) ∨
      of label (some w) answers = .accepted w ∧ answers.all (·.test) = true := by
  have hall : answers.all (·.test) = (answers.find? fun a => !a.test).isNone := by
    rw [List.all_eq_not_any_not, ← List.isSome_find?, Option.not_isSome]
  rw [hall, of]
  cases answers.find? fun a => !a.test with
  | none => exact .inr ⟨rfl, rfl⟩
  | some a => exact .inl ⟨_, rfl, rfl⟩

end Verdict

/-! ## Answered conditions -/

/-- The tests evaluate to booleans, which the answers list with the labels of the tests. -/
def Answered (host : Host V F) (env : Env V) (tests : List (Condition Ir))
    (answers : List (Condition Bool)) : Prop :=
  List.Forall₂ (fun t a => a.label = t.label ∧ t.test.eval host env = .ok (host.bool a.test))
    tests answers

section Answered

variable {host : Host V F} {env : Env V} {tests : List (Condition Ir)}
  {answers : List (Condition Bool)}

/-- A conjunction of tests is the conjunction of their answers. -/
lemma eval_conjunction_answered (laws : host.Lawful) (h : Answered host env tests answers)
    {first : Ir} {b : Bool} (hfirst : first.eval host env = .ok (host.bool b)) :
    (tests.foldl (fun a c => .apply "and" [a, c.test] .bool) first).eval host env =
      .ok (host.bool (b && answers.all (·.test))) := by
  induction h generalizing first b with
  | nil => simpa using hfirst
  | @cons t a tests answers hanswer _ ih =>
    have hboth : (Ir.apply "and" [first, t.test] .bool).eval host env =
        .ok (host.bool (b && a.test)) := by
      simp [Ir.apply, Ir.eval, evalAll, hfirst, hanswer.2, laws.and_bool]
    rw [List.foldl_cons, ih hboth, List.all_cons, Bool.and_assoc]

/-- All conditions together are the conjunction of their answers. -/
lemma eval_allOf_answered (laws : host.Lawful) (h : Answered host env tests answers) :
    (allOf tests).eval host env = .ok (host.bool (answers.all (·.test))) := by
  cases h with
  | nil => rfl
  | cons hanswer hrest => exact eval_conjunction_answered laws hrest hanswer.2

/-- The answer of a test that evaluates to a boolean. -/
lemma answer_of_eval (laws : host.Lawful) {test : Ir} {b : Bool}
    (h : test.eval host env = .ok (host.bool b)) : test.answer host env = .ok b := by
  rw [Ir.answer, h]
  exact laws.truth_bool b

/-- Where no condition is broken, all of them are met. -/
lemma all_met (laws : host.Lawful) (h : Answered host env tests answers)
    (hnone : answers.find? (fun a => !a.test) = none) :
    ∀ t ∈ tests, t.test.answer host env = .ok true := by
  induction h with
  | nil => exact List.forall_mem_nil _
  | @cons t a tests answers ht _ ih =>
    obtain ⟨hmet, hrest⟩ : a.test = true ∧ answers.find? (fun a => !a.test) = none := by
      simpa using hnone
    exact List.forall_mem_cons.mpr ⟨hmet ▸ answer_of_eval laws ht.2, ih hrest⟩

/-- Where a condition is broken, the first one of them stands behind conditions that are met. -/
lemma exists_first_broken (laws : host.Lawful) (h : Answered host env tests answers)
    {a : Condition Bool} (hfirst : answers.find? (fun a => !a.test) = some a) :
    ∃ (before : List (Condition Ir)) (t : Condition Ir) (after : List (Condition Ir)),
      tests = before ++ t :: after ∧ (∀ u ∈ before, u.test.answer host env = .ok true) ∧
        t.test.answer host env = .ok false ∧ t.label = a.label := by
  induction h with
  | nil => cases hfirst
  | @cons t b tests answers ht _ ih =>
    have hanswer := answer_of_eval laws ht.2
    rcases hb : b.test with _ | _
    · obtain rfl : b = a := by simpa [hb] using hfirst
      exact ⟨[], t, tests, rfl, List.forall_mem_nil _, hb ▸ hanswer, ht.1.symm⟩
    · have hrest : answers.find? (fun a => !a.test) = some a := by simpa [hb] using hfirst
      obtain ⟨before, u, after, rfl, hmet, hbroken, hlabel⟩ := ih hrest
      exact ⟨t :: before, u, after, rfl, List.forall_mem_cons.mpr ⟨hb ▸ hanswer, hmet⟩, hbroken,
        hlabel⟩

/-- Conditions on a value that fail fast: the value, or a failure with the label of the first one that
is broken. -/
lemma eval_failFast_answered (laws : host.Lawful) (h : Answered host env tests answers) {body : Ir}
    {w : V} (hbody : body.eval host env = .ok w) (label : String) (refusal : F) :
    (failFast tests body label).eval host env =
      (Verdict.of label (some w) answers).outcome host refusal .raise := by
  have hrun : FailsFast host env tests label (body.run host env)
      ((failFast tests body label).run host env) := failsFast_failFast tests body label
  rw [← outcome_run, Verdict.of]
  cases hfirst : answers.find? fun a => !a.test with
  | none =>
    rw [hrun.met (all_met laws h hfirst)]
    exact (outcome_run host env body).trans hbody
  | some a =>
    obtain ⟨before, t, after, htests, hmet, hbroken, hlabel⟩ := exists_first_broken laws h hfirst
    rw [hrun.broken before t after htests hmet hbroken, hlabel]
    rfl

end Answered

/-! ## Selectors -/

section Selectors

variable {host : Host V F} {dressed : Selectable → V → Option V} {s : Selectable}
  {policy : SelectPolicy} {env : Env V} {value : Ir} {message : Option Ir} {v : V}
  {tests : List (Condition Ir)} {answers : List (Condition Bool)}

/-- The lowered form of a selector with the given tests. -/
def selected (s : Selectable) (policy : SelectPolicy) (tests : List (Condition Ir)) (value : Ir)
    (message : Option Ir) : Ir :=
  match tests with
  | [] => dress s policy value message
  | _ :: _ => constrained s policy tests value message

/-- No check of a selector is `fail`. -/
lemma check_ne_fail : ∀ s ∈ selectables, "is_" ++ s.stem ≠ "fail" := by
  decide

/-- A selector that raises does what the primitive of its type does. -/
lemma eval_dress_raise (hs : s ∈ selectables) (hv : value.eval host env = .ok v)
    (message : Option Ir) :
    (dress s .raise value message).eval host env = host.call ("as_" ++ s.stem) [v] :=
  eval_call_one_ok host env (selector_ne_fail s hs).1 hv

/-- A selector that gives null has the dressed value or null. -/
lemma eval_dress_orNull (laws : host.Dresses dressed) (hs : s ∈ selectables)
    (hv : value.eval host env = .ok v) (message : Option Ir) :
    (dress s .orNull value message).eval host env = .ok ((dressed s v).getD host.null) := by
  rw [← laws.orNull hs]
  exact eval_call_one_ok host env (selector_ne_fail s hs).2.1 hv

/-- A check tells whether there is a dressed value. -/
lemma eval_dress_check (laws : host.Dresses dressed) (hs : s ∈ selectables)
    (hv : value.eval host env = .ok v) (message : Option Ir) :
    (dress s .check value message).eval host env = .ok (host.bool (dressed s v).isSome) := by
  rw [← laws.is hs]
  exact eval_call_one_ok host env (check_ne_fail s hs) hv

/-- An assertion does what the primitive of its type does with the message, or with the expected
type for want of one. -/
lemma eval_dress_assert (hs : s ∈ selectables) (hv : value.eval host env = .ok v) {m : V}
    (hm : (message.getD (.ofString ("expected " ++ s.name))).eval host env = .ok m) :
    (dress s .assert value message).eval host env = host.call ("assert_" ++ s.stem) [v, m] := by
  simp [dress, Ir.apply, Ir.eval, evalAll, hv, hm, (selector_ne_fail s hs).2.2]

/-- A raising or asserting selector, whose call gives the dressed value or raises for lack of it, has
the outcome of the verdict: its constraints fail fast.

**Proof sketch.** Without a dressed value the call raises, before any constraint. With one the
constraints are tested in the scope of `it`, and fail fast with their labels. -/
lemma eval_selected_raising (laws : host.Lawful) (hpolicy : policy = .raise ∨ policy = .assert)
    {found : Option V} {refusal : F}
    (hnone : found = none → (dress s policy value message).eval host env = .error refusal)
    (hsome : ∀ w, found = some w → (dress s policy value message).eval host env = .ok w)
    (hanswers : ∀ w, found = some w → Answered host (env.bind itName w) tests answers) :
    (selected s policy tests value message).eval host env =
      (Verdict.of (s.name ++ " constraint failed") found answers).outcome host refusal .raise := by
  have hform : ∀ t ts, selected s policy (t :: ts) value message =
      .bind [(itName, dress s policy value message)]
        (failFast (t :: ts) (.var itName s.ty) (s.name ++ " constraint failed")) := by
    rcases hpolicy with rfl | rfl <;> exact fun _ _ => rfl
  cases found with
  | none =>
    cases tests with
    | nil => exact hnone rfl
    | cons t ts =>
      rw [hform]
      exact eval_bind_one_error host env (hnone rfl)
  | some w =>
    have hanswered := hanswers w rfl
    cases tests with
    | nil =>
      cases hanswered
      exact hsome w rfl
    | cons t ts =>
      have hit : (Ir.var itName s.ty).eval host (env.bind itName w) = .ok w := by simp [Ir.eval]
      rw [hform, Ir.bind, eval_bind_one_ok host env (hsome w rfl)]
      exact eval_failFast_answered laws hanswered hit _ refusal

/-- An asserting selector whose message raises does so, too: the message is evaluated before the selector
is called, so the value is as good as unfit. -/
lemma eval_selected_assert_error (laws : host.Lawful) (hv : value.eval host env = .ok v) {f : F}
    (hmessage : (message.getD (.ofString ("expected " ++ s.name))).eval host env = .error f) :
    (selected s .assert tests value message).eval host env = .error f := by
  have hdress : (dress s .assert value message).eval host env = .error f := by
    simp [dress, Ir.apply, Ir.eval, evalAll, hv, hmessage]
  have hunfit : (selected s .assert tests value message).eval host env =
      (Verdict.of (s.name ++ " constraint failed") none []).outcome host f .raise :=
    eval_selected_raising laws (.inr rfl) (fun _ => hdress) (fun w h => by cases h)
      (fun w h => by cases h)
  exact hunfit

/-- A selector that gives null has the outcome of the verdict: it tests for null first, and then takes
the conjunction of its constraints.

**Proof sketch.** By cases on the dressed value and on whether there are constraints. The form with
constraints binds what the selector gives and tests it for null; a dressed value is not null and
goes on to the conjunction of the constraints, which decides between the value and null. -/
lemma eval_selected_orNull (laws : host.Dresses dressed) (hs : s ∈ selectables)
    (hv : value.eval host env = .ok v)
    (hanswers : ∀ w, dressed s v = some w → Answered host (env.bind itName w) tests answers)
    (label : String) (refusal : F) :
    (selected s .orNull tests value message).eval host env =
      (Verdict.of label (dressed s v) answers).outcome host refusal .orNull := by
  have hdress := eval_dress_orNull laws hs hv
  have hform : ∀ t ts, selected s .orNull (t :: ts) value message =
      .bind [(itName, dress s .orNull value none)] (twinBody s (t :: ts)) := fun _ _ => rfl
  cases hd : dressed s v with
  | none =>
    rw [hd] at hdress
    cases tests with
    | nil => exact hdress message
    | cons t ts =>
      have htest := eval_isNullTest laws.lawful env host.null s.ty
      rw [laws.isNull_null] at htest
      rw [hform, Ir.bind, eval_bind_one_ok host env (hdress none)]
      exact eval_cond_true host _ htest (laws.truth_bool true)
  | some w =>
    rw [hd] at hdress
    have hanswered := hanswers w hd
    cases tests with
    | nil =>
      cases hanswered
      exact hdress message
    | cons t ts =>
      have htest := eval_isNullTest laws.lawful env w s.ty
      rw [laws.isNull_dressed hs hd] at htest
      have hall := eval_allOf_answered laws.lawful hanswered
      rw [hform, Ir.bind, eval_bind_one_ok host env (hdress none), Option.getD_some, twinBody,
        Ir.branch, eval_cond_false host _ htest (laws.truth_bool false)]
      rcases Verdict.of_some label w answers with ⟨broken, hverdict, hb⟩ | ⟨hverdict, hb⟩
      · rw [hb] at hall
        rw [hverdict]
        exact eval_cond_false host _ hall (laws.truth_bool false)
      · rw [hb] at hall
        have hit : (Ir.var itName s.ty).eval host (env.bind itName w) = .ok w := by simp [Ir.eval]
        rw [hverdict, Ir.branch, eval_cond_true host _ hall (laws.truth_bool true), hit]
        rfl

/-- A selector that checks has the outcome of the verdict: it takes the conjunction of its constraints
only where there is a dressed value.

**Proof sketch.** By cases on the dressed value and on whether there are constraints. Without a
dressed value the check itself is false; with one the conjunction of the constraints is taken on it,
and its outcome is the answer. -/
lemma eval_selected_check (laws : host.Dresses dressed) (hs : s ∈ selectables)
    (hv : value.eval host env = .ok v)
    (hanswers : ∀ w, dressed s v = some w → Answered host (env.bind itName w) tests answers)
    (label : String) (refusal : F) :
    (selected s .check tests value message).eval host env =
      (Verdict.of label (dressed s v) answers).outcome host refusal .check := by
  have hdress := eval_dress_check laws hs hv
  have hform : ∀ t ts, selected s .check (t :: ts) value message =
      .branch (dress s .check value none)
        (.bind [(itName, dress s .raise value none)] (allOf (t :: ts)))
        (.ofLiteral (.bool false)) := fun _ _ => rfl
  cases hd : dressed s v with
  | none =>
    rw [hd] at hdress
    cases tests with
    | nil => exact hdress message
    | cons t ts =>
      rw [hform]
      exact eval_cond_false host env (hdress none) (laws.truth_bool false)
  | some w =>
    rw [hd] at hdress
    have hanswered := hanswers w hd
    cases tests with
    | nil =>
      cases hanswered
      exact hdress message
    | cons t ts =>
      have hit : (dress s .raise value none).eval host env = .ok w := by
        rw [eval_dress_raise hs hv none, laws.as_some hs hd]
      rw [hform, Ir.branch, eval_cond_true host env (hdress none) (laws.truth_bool true), Ir.bind,
        eval_bind_one_ok host env hit, eval_allOf_answered laws.lawful hanswered]
      rcases Verdict.of_some label w answers with ⟨broken, hverdict, hb⟩ | ⟨hverdict, hb⟩
      · rw [hverdict, hb]
        rfl
      · rw [hverdict, hb]
        rfl

end Selectors

/-! ## Lowered selectors -/

section Lowering

variable {α : Type} {host : Host V F} {dressed : Selectable → V → Option V} {scope : Scope}
  {typeName : String} {s : Selectable} {constraints : List (Condition (Expr α))}
  {tests : List (Condition Ir)} {e : Expr α} {es : List (Expr α)} {value : Ir}
  {message : Option Ir}

/-- A selector whose parts can be lowered is lowered, whatever its policy.

**Proof sketch.** The definition is followed with the parts that are given; that there are
constraints shows in the tests. -/
lemma lower_selected (hs : selectable? typeName = some s) (hvalue : e.lower scope false = .ok value)
    (hmessage : lowerHead scope es = .ok message)
    (htests : lowerConditions ((itName, s.ty) :: scope) constraints = .ok tests) (note : α)
    (policy : SelectPolicy) :
    (Expr.select note typeName policy constraints (e :: es)).lower scope false =
      .ok (selected s policy tests value message) := by
  have hparts : lowerSelected scope typeName false (e :: es) = .ok (value, message) := by
    rw [lowerSelected, hvalue, hmessage]
    rfl
  rw [lower_select, Bool.false_and, hparts]
  simp only [Except.bind, select, hs]
  cases constraints with
  | nil =>
    cases htests
    rfl
  | cons c cs =>
    rw [htests]
    obtain ⟨test, -, htests⟩ := exists_of_bind_eq_ok htests
    obtain ⟨rest, -, htests⟩ := exists_of_bind_eq_ok htests
    cases htests
    rfl

/-- The four policies of a selector agree. On a value for which the tests are booleans, each gives what
it makes of one verdict: the dressed value where it exists and meets all constraints, and else a
failure, null or false. A raising selector and an asserting one fail with the label of the first
constraint that is broken; for lack of a dressed value, an asserting one fails with its message. A
message that raises does so first.

**Proof sketch.** The four forms are those of `lower_selected`. Each policy has its lemma: one for
the two that raise (`eval_selected_raising`), used for the refusal of the value and for the message
in turn, and one each for `orNull` and `check`. A message that raises ends the evaluation before the
verdict (`eval_selected_assert_error`). -/
theorem eval_selectors (laws : host.Dresses dressed) (hs : selectable? typeName = some s)
    (hvalue : e.lower scope false = .ok value) (hmessage : lowerHead scope es = .ok message)
    (htests : lowerConditions ((itName, s.ty) :: scope) constraints = .ok tests) (note : α)
    {env : Env V} {v : V} (hv : value.eval host env = .ok v) {answers : List (Condition Bool)}
    (hanswers : ∀ w, dressed s v = some w → Answered host (env.bind itName w) tests answers) :
    ∃ lowered : SelectPolicy → Ir,
      (∀ policy, (Expr.select note typeName policy constraints (e :: es)).lower scope false =
        .ok (lowered policy)) ∧
      let verdict := Verdict.of (typeName ++ " constraint failed") (dressed s v) answers
      let word := (message.getD (.ofString ("expected " ++ typeName))).eval host env
      (∃ refusal, ∀ policy, policy ≠ .assert →
        (lowered policy).eval host env = verdict.outcome host refusal policy) ∧
      (∀ m, word = .ok m →
        (lowered .assert).eval host env = verdict.outcome host (host.failure [m]) .assert) ∧
      ∀ f, word = .error f → (lowered .assert).eval host env = .error f := by
  have hmem : s ∈ selectables := List.mem_of_find?_eq_some hs
  obtain rfl : s.name = typeName := by simpa using List.find?_some hs
  refine ⟨fun policy => selected s policy tests value message,
    lower_selected hs hvalue hmessage htests note, ?_, fun m hm => ?_, fun f hf => ?_⟩
  · obtain ⟨refusal, hrefusal⟩ := laws.exists_refusal hmem v
    have hdress := eval_dress_raise hmem hv message
    refine ⟨refusal, fun policy hpolicy => ?_⟩
    cases policy with
    | raise =>
      exact eval_selected_raising laws.lawful (.inl rfl) (fun h => hdress.trans (hrefusal h))
        (fun w h => hdress.trans (laws.as_some hmem h)) hanswers
    | orNull => exact eval_selected_orNull laws hmem hv hanswers _ refusal
    | check => exact eval_selected_check laws hmem hv hanswers _ refusal
    | assert => exact absurd rfl hpolicy
  · have hdress := eval_dress_assert hmem hv hm
    rw [Verdict.outcome_assert]
    exact eval_selected_raising laws.lawful (.inr rfl)
      (fun h => hdress.trans (laws.assert_none hmem m h))
      (fun w h => hdress.trans (laws.assert_some hmem m h)) hanswers
  · exact eval_selected_assert_error laws.lawful hv hf

end Lowering

/-! ## A host of constants that checks -/

/-- The dressed value of a constant: itself, where it is of the type. -/
def dressedConstant (s : Selectable) (v : Option Literal) : Option (Option Literal) :=
  if s.fits v then some v else none

/-- What calls do to constants, with selectors that check their types. -/
def checkingCall (name : String) : List (Option Literal) → Except String (Option Literal)
  | [v] =>
    match selectables.find? fun s => name == "is_" ++ s.stem with
    | some s => .ok (some (.bool (s.fits v)))
    | none => constantCall name [v]
  | vs => constantCall name vs

/-- The host of constants with selectors that check. -/
def checkingHost : Host (Option Literal) String := { constantHost with call := checkingCall }

/-- What the selector calls of a type do to constants. -/
lemma checkingHost_selector {s : Selectable} (hs : s ∈ selectables) (v : Option Literal) :
    checkingHost.call ("as_" ++ s.stem) [v] = constantHost.call ("as_" ++ s.stem) [v] ∧
      checkingHost.call ("as_" ++ s.stem ++ "_or_null") [v] =
        constantHost.call ("as_" ++ s.stem ++ "_or_null") [v] ∧
      checkingHost.call ("is_" ++ s.stem) [v] = .ok (some (.bool (s.fits v))) := by
  simp only [selectables, List.mem_cons, List.not_mem_nil, or_false] at hs
  rcases hs with rfl | rfl | rfl | rfl | rfl | rfl | rfl <;> exact ⟨rfl, rfl, rfl⟩

/-- The dressed value of a constant that fits is the constant. -/
lemma dressedConstant_eq_some {s : Selectable} {v w : Option Literal} :
    dressedConstant s v = some w ↔ s.fits v = true ∧ v = w := by
  simp [dressedConstant]

/-- A constant that does not fit has no dressed value. -/
lemma dressedConstant_eq_none {s : Selectable} {v : Option Literal} :
    dressedConstant s v = none ↔ s.fits v = false := by
  simp [dressedConstant]

/-- The host of constants dresses those of the type.

**Proof sketch.** Whether a constant is dressed is whether it fits the type
(`dressedConstant_eq_some`, `dressedConstant_eq_none`), and the host asks the same for each of its
calls. -/
lemma checkingHost_dresses : checkingHost.Dresses dressedConstant where
  isNull_null := rfl
  truth_bool _ := rfl
  eq_null _ := rfl
  and_bool _ _ := rfl
  isNull_dressed := by
    intro s hs v w h
    obtain ⟨hfits, rfl⟩ := dressedConstant_eq_some.mp h
    refine beq_eq_false_iff_ne.mpr fun hnull => ?_
    rw [hnull, not_fits_null s hs] at hfits
    cases hfits
  as_some := by
    intro s hs v w h
    obtain ⟨hfits, rfl⟩ := dressedConstant_eq_some.mp h
    rw [(checkingHost_selector hs v).1, (constantHost_selector hs v none).1, if_pos hfits]
  as_none := by
    intro s hs v h
    have hfits := dressedConstant_eq_none.mp h
    refine ⟨"expected " ++ s.name, ?_⟩
    rw [(checkingHost_selector hs v).1, (constantHost_selector hs v none).1, hfits]
    rfl
  orNull := by
    intro s hs v
    rw [(checkingHost_selector hs v).2.1, (constantHost_selector hs v none).2.1, dressedConstant]
    cases s.fits v <;> rfl
  is := by
    intro s hs v
    rw [(checkingHost_selector hs v).2.2, dressedConstant]
    cases s.fits v <;> rfl
  assert_some := by
    intro s hs v w m h
    obtain ⟨hfits, rfl⟩ := dressedConstant_eq_some.mp h
    exact (constantHost_selector hs v m).2.2.trans (if_pos hfits)
  assert_none := by
    intro s hs v m h
    have hfits := dressedConstant_eq_none.mp h
    refine (constantHost_selector hs v m).2.2.trans ?_
    rw [hfits]
    rcases m with _ | _ | _ | _ | _ | _ | _ | _ | _ <;> rfl

/-- Two constraints, of which the second has no label. -/
def sevenThenEight : List (Condition (Expr Unit)) :=
  [⟨some "seven", .binary () .eq (.var () "it") (.literal () (.int 7))⟩,
   ⟨none, .binary () .eq (.var () "it") (.literal () (.int 8))⟩]

/-- Seven meets the first constraint and breaks the second: each policy gives its outcome for that. -/
theorem eval_selectors_sevenThenEight :
    ∃ lowered : SelectPolicy → Ir,
      (∀ policy, (Expr.select () "Int" policy sevenThenEight
        [.var () "_", .literal () (.string "no integer")]).lower [(inputName, .any)] false =
          .ok (lowered policy)) ∧
      (lowered .raise).eval checkingHost (fun _ => some (.int 7)) =
        .error "Int constraint failed" ∧
      (lowered .assert).eval checkingHost (fun _ => some (.int 7)) =
        .error "Int constraint failed" ∧
      (lowered .orNull).eval checkingHost (fun _ => some (.int 7)) = .ok (some .null) ∧
      (lowered .check).eval checkingHost (fun _ => some (.int 7)) = .ok (some (.bool false)) := by
  let int : Selectable := ⟨"Int", "int", .int, .int⟩
  let env : Env (Option Literal) := fun _ => some (.int 7)
  have hs : selectable? "Int" = some int := rfl
  have hvalue : (Expr.var () "_").lower [(inputName, .any)] false = .ok (.var "_" .any) := rfl
  have hmessage : lowerHead [(inputName, .any)] [Expr.literal () (.string "no integer")] =
      .ok (some (.ofString "no integer")) := rfl
  have htests : lowerConditions ((itName, int.ty) :: [(inputName, .any)]) sevenThenEight =
      .ok [⟨some "seven", operator "eq" [.var "it" .int, .ofLiteral (.int 7)]⟩,
        ⟨none, operator "eq" [.var "it" .int, .ofLiteral (.int 8)]⟩] := rfl
  have hv : (Ir.var "_" .any).eval checkingHost env = .ok (some (.int 7)) := rfl
  have hanswers : ∀ w, dressedConstant int (some (.int 7)) = some w →
      Answered checkingHost (env.bind itName w)
        [⟨some "seven", operator "eq" [.var "it" .int, .ofLiteral (.int 7)]⟩,
          ⟨none, operator "eq" [.var "it" .int, .ofLiteral (.int 8)]⟩]
        [⟨some "seven", true⟩, ⟨none, false⟩] := by
    intro w hw
    obtain ⟨-, rfl⟩ := dressedConstant_eq_some.mp hw
    exact .cons ⟨rfl, rfl⟩ (.cons ⟨rfl, rfl⟩ .nil)
  obtain ⟨lowered, hlowered, ⟨refusal, hpolicy⟩, hassert, -⟩ :=
    eval_selectors checkingHost_dresses hs hvalue hmessage htests () hv hanswers
  exact ⟨lowered, hlowered, hpolicy .raise (by decide), hassert _ rfl, hpolicy .orNull (by decide),
    hpolicy .check (by decide)⟩

end Retarget
