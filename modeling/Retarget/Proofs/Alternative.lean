import Retarget.Proofs.Evaluation

set_option autoImplicit false

/-!
# Alternatives keep their meaning

Lowering changes the candidates of an alternative: a raising selector that another candidate follows
becomes its twin that gives null, raises in result position become nulls, and nested alternatives
are spliced in. None of this can be seen from outside, because an alternative looks at a candidate
before the last one only to find a value that is not null.

## Main definitions

* `Retarget.Ir.Proper` — raising selectors in result position have the arguments they should have.
* `Retarget.Expr.Tame` — what is assumed of a candidate that another one follows.

## Main results

* `Retarget.value?_eval_soften` — softening keeps the value that an expression has, if any.
* `Retarget.findSome?_softened` — so does splicing.
* `Retarget.value?_eval_constrained` — a constrained selector has the value of its twin.
* `Retarget.eval_transform_alternative` — a lowered alternative has the outcome of the alternative
  of its candidates, each lowered on its own.
* `Retarget.constantHost_lawful` — there is a lawful host.
-/

namespace Retarget

variable {V F : Type} (host : Host V F)

/-! ## Names of selector calls -/

/-- A call with a raising stem is a raising or an asserting selector of a selectable type. -/
lemma raisingStem?_eq_some {name stem : String} (h : raisingStem? name = some stem) :
    ∃ s ∈ selectables, s.stem = stem ∧ (name = "as_" ++ s.stem ∨ name = "assert_" ++ s.stem) := by
  obtain ⟨s, hs, rfl⟩ := Option.map_eq_some_iff.mp h
  refine ⟨s, List.mem_of_find?_eq_some hs, rfl, ?_⟩
  simpa [Selectable.raising] using List.find?_some hs

/-- No selector call is `fail`. -/
lemma selector_ne_fail : ∀ s ∈ selectables, "as_" ++ s.stem ≠ "fail" ∧
    "as_" ++ s.stem ++ "_or_null" ≠ "fail" ∧ "assert_" ++ s.stem ≠ "fail" := by
  decide

/-- The twin that gives null is neither a raising nor an asserting selector. -/
lemma orNull_ne_raising : ∀ s ∈ selectables, ∀ t ∈ selectables,
    "as_" ++ s.stem ++ "_or_null" ≠ "as_" ++ t.stem ∧
      "as_" ++ s.stem ++ "_or_null" ≠ "assert_" ++ t.stem := by
  decide

/-! ## Softening -/

mutual

/-- The raising selectors in result position have the arguments they should have: a value, and for
an asserting one also a message, which does not raise where it is evaluated. -/
def Ir.Proper (host : Host V F) : Env V → Ir → Prop
  | env, .call name args _ _ =>
    ∀ s ∈ selectables, (name = "as_" ++ s.stem → ∃ v, args = [v]) ∧
      (name = "assert_" ++ s.stem → ∃ v m w, args = [v, m] ∧ m.eval host env = .ok w)
  | env, .cond _ yes no _ => yes.Proper host env ∧ no.Proper host env
  | env, .letIn bindings body _ =>
    ∀ inner, evalBindings host env bindings = .ok inner → body.Proper host inner
  | env, .alternative candidates _ => AllProper host env candidates
  | _, .literal _ _ => True
  | _, .var _ _ => True
  | _, .lambda _ _ _ => True

/-- All of the expressions are proper. -/
def AllProper (host : Host V F) : Env V → List Ir → Prop
  | _, [] => True
  | env, ir :: irs => ir.Proper host env ∧ AllProper host env irs

end

variable {host}

/-- The twin of a raising selector has its value. -/
lemma value?_orNull (laws : host.Lawful) {s : Selectable} (hs : s ∈ selectables) (v : V) :
    host.value? (host.call ("as_" ++ s.stem ++ "_or_null") [v]) =
      host.value? (host.call ("as_" ++ s.stem) [v]) := by
  cases h : host.call ("as_" ++ s.stem) [v] with
  | ok w => rw [laws.orNull_of_ok hs h]
  | error f =>
    obtain ⟨w, hw, hnull⟩ := laws.orNull_of_error hs h
    rw [hw, host.value?_ok_of_isNull hnull, host.value?_error]

/-- An asserting selector has the value of the raising one. -/
lemma value?_assert (laws : host.Lawful) {s : Selectable} (hs : s ∈ selectables) (v m : V) :
    host.value? (host.call ("assert_" ++ s.stem) [v, m]) =
      host.value? (host.call ("as_" ++ s.stem) [v]) := by
  cases h : host.call ("as_" ++ s.stem) [v] with
  | ok w => rw [(laws.assert_ok hs).mpr h]
  | error f =>
    cases h' : host.call ("assert_" ++ s.stem) [v, m] with
    | error g => rfl
    | ok w => rw [(laws.assert_ok hs).mp h'] at h; cases h

/-- The call of the twin has the value of the call of the raising selector. -/
lemma value?_eval_orNull (laws : host.Lawful) {s : Selectable} (hs : s ∈ selectables)
    (env : Env V) (arg : Ir) (tys tys' : List Ty) (ty ty' : Ty) :
    host.value? ((Ir.call ("as_" ++ s.stem ++ "_or_null") [arg] tys ty).eval host env) =
      host.value? ((Ir.call ("as_" ++ s.stem) [arg] tys' ty').eval host env) := by
  obtain ⟨has, hnull, -⟩ := selector_ne_fail s hs
  cases h : arg.eval host env with
  | error f => rw [eval_call_one_error host env h, eval_call_one_error host env h]
  | ok v =>
    rw [eval_call_one_ok host env hnull h, eval_call_one_ok host env has h, value?_orNull laws hs]

/-- The call of an asserting selector, whose message does not raise, has the value of the call of
the raising one. -/
lemma value?_eval_assert (laws : host.Lawful) {s : Selectable} (hs : s ∈ selectables)
    {env : Env V} {message : Ir} {m : V} (hm : message.eval host env = .ok m) (arg : Ir)
    (tys tys' : List Ty) (ty ty' : Ty) :
    host.value? ((Ir.call ("assert_" ++ s.stem) [arg, message] tys ty).eval host env) =
      host.value? ((Ir.call ("as_" ++ s.stem) [arg] tys' ty').eval host env) := by
  obtain ⟨has, -, hassert⟩ := selector_ne_fail s hs
  cases h : arg.eval host env with
  | error f =>
    rw [eval_call_one_error host env h]
    simp [Ir.eval, evalAll, h]
  | ok v =>
    rw [eval_call_one_ok host env has h, ← value?_assert laws hs v m]
    simp [Ir.eval, evalAll, h, hm, hassert]

/-- Softening keeps the value that a proper expression has, if any.

**Proof sketch.** Induction along softening. A failure has no value, and null has none either. A
raising selector has the value of its twin, whichever of the two kinds it is. The branches of a
conditional and the body of bindings are softened in place, so both sides take the same branch and
see the same bindings. -/
lemma value?_eval_soften (laws : host.Lawful) (ir : Ir) (env : Env V) (proper : ir.Proper host env) :
    host.value? (ir.soften.eval host env) = host.value? (ir.eval host env) := by
  fun_induction Ir.soften generalizing env with
  | case1 args tys ty =>
    rw [value?_eval_fail, Ir.eval]
    exact host.value?_ok_of_isNull laws.isNull_null
  | case2 name args tys ty _ stem hstem =>
    obtain ⟨s, hs, rfl, hname⟩ := raisingStem?_eq_some hstem
    rcases hname with rfl | rfl
    · obtain ⟨v, rfl⟩ := (proper s hs).1 rfl
      exact value?_eval_orNull laws hs env v _ _ _ _
    · obtain ⟨v, m, w, rfl, hm⟩ := (proper s hs).2 rfl
      rw [value?_eval_assert laws hs hm v tys [] ty ty]
      exact value?_eval_orNull laws hs env v _ _ _ _
  | case3 => rfl
  | case4 test yes no ty ihy ihn =>
    simp only [Ir.eval]
    cases test.eval host env with
    | error f => rfl
    | ok v =>
      rcases hv : host.truth v with f | _ | _
      · simp [hv]
      · simpa [hv] using ihn env proper.2
      · simpa [hv] using ihy env proper.1
  | case5 bindings body ty ih =>
    simp only [Ir.eval]
    cases h : evalBindings host env bindings with
    | error f => rfl
    | ok inner => exact ih inner (proper inner h)
  | case6 | case7 | case8 | case9 => rfl

mutual

/-- The candidates that an expression stands for have its value as their first one.

**Proof sketch.** Induction over nested alternatives. The value of an alternative is the first value
among its candidates, each of which stands for further candidates; everything else stands for itself
softened. -/
lemma findSome?_softened (laws : host.Lawful) (env : Env V) :
    ∀ ir : Ir, ir.Proper host env →
      (ir.softened.map (Ir.eval host env)).findSome? host.value? =
        host.value? (ir.eval host env)
  | .alternative candidates ty, proper => by
    rw [eval_alternative, Host.value?_choose, Ir.softened]
    exact findSome?_softenedAll laws env candidates proper
  | .literal value ty, proper => by
    simp [Ir.softened, value?_eval_soften laws _ env proper]
  | .var name ty, proper => by
    simp [Ir.softened, value?_eval_soften laws _ env proper]
  | .letIn bindings body ty, proper => by
    simp [Ir.softened, value?_eval_soften laws _ env proper]
  | .lambda params body ty, proper => by
    simp [Ir.softened, value?_eval_soften laws _ env proper]
  | .cond test yes no ty, proper => by
    simp [Ir.softened, value?_eval_soften laws _ env proper]
  | .call name args tys ty, proper => by
    simp [Ir.softened, value?_eval_soften laws _ env proper]

/-- The candidates that a row of expressions stands for have its first value as their first one. -/
lemma findSome?_softenedAll (laws : host.Lawful) (env : Env V) :
    ∀ irs : List Ir, AllProper host env irs →
      ((softenedAll irs).map (Ir.eval host env)).findSome? host.value? =
        (irs.map (Ir.eval host env)).findSome? host.value?
  | [], _ => rfl
  | ir :: irs, proper => by
    rw [softenedAll, List.map_append, List.findSome?_append, List.map_cons, List.findSome?_cons,
      findSome?_softened laws env ir proper.1, findSome?_softenedAll laws env irs proper.2]
    cases host.value? (ir.eval host env) <;> rfl

end

/-! ## Conditions -/

/-- A conjunction of tests decides, and it holds exactly where all of them do.

**Proof sketch.** By induction on the tests. One conjunction of two that decide does so, and holds
where both do, since the host takes `and` of booleans by the law `and_bool`; the conjunction so far
is then the first test of what is left. -/
lemma eval_conjunction (laws : host.Lawful) (env : Env V) (tests : List (Condition Ir))
    (decided : ∀ t ∈ tests, host.Decides (t.test.eval host env)) (first : Ir)
    (hfirst : host.Decides (first.eval host env)) :
    let whole := (tests.foldl (fun a c => .apply "and" [a, c.test] .bool) first).eval host env
    host.Decides whole ∧
      (whole = .ok (host.bool true) ↔ first.eval host env = .ok (host.bool true) ∧
        ∀ t ∈ tests, t.test.eval host env = .ok (host.bool true)) := by
  induction tests generalizing first with
  | nil => simpa using hfirst
  | cons t ts ih =>
    have hand : host.Decides ((Ir.apply "and" [first, t.test] .bool).eval host env) ∧
        ((Ir.apply "and" [first, t.test] .bool).eval host env = .ok (host.bool true) ↔
          first.eval host env = .ok (host.bool true) ∧
            t.test.eval host env = .ok (host.bool true)) := by
      have htrue {a : Bool} : host.bool a = host.bool true ↔ a = true :=
        ⟨laws.bool_injective, fun h => h ▸ rfl⟩
      rcases hfirst with ⟨f, hf⟩ | ⟨a, ha⟩
      · simp [Ir.apply, Ir.eval, evalAll, hf, Host.Decides]
      · rcases decided t (by simp) with ⟨f, hf⟩ | ⟨b, hb⟩
        · simp [Ir.apply, Ir.eval, evalAll, ha, hf, Host.Decides]
        · simp [Ir.apply, Ir.eval, evalAll, ha, hb, Host.Decides, laws.and_bool, htrue]
    obtain ⟨hdecides, hiff⟩ := ih (fun t ht => decided t (by simp [ht])) _ hand.1
    refine ⟨hdecides, hiff.trans ?_⟩
    rw [hand.2, List.forall_mem_cons, and_assoc]

/-- All conditions together decide, and they hold exactly where each of them does. -/
lemma eval_allOf (laws : host.Lawful) (env : Env V) (tests : List (Condition Ir))
    (decided : ∀ t ∈ tests, host.Decides (t.test.eval host env)) :
    host.Decides ((allOf tests).eval host env) ∧
      ((allOf tests).eval host env = .ok (host.bool true) ↔
        ∀ t ∈ tests, t.test.eval host env = .ok (host.bool true)) := by
  cases tests with
  | nil => exact ⟨.inr ⟨true, rfl⟩, by simp [allOf, Ir.ofLiteral, Ir.eval, Host.bool]⟩
  | cons t ts =>
    obtain ⟨hdecides, hiff⟩ := eval_conjunction laws env ts
      (fun t ht => decided t (by simp [ht])) t.test (decided t (by simp))
    refine ⟨hdecides, hiff.trans ?_⟩
    rw [List.forall_mem_cons]

/-- A row of conditions that all hold leaves the body. -/
lemma eval_failFast_of_holds (laws : host.Lawful) (env : Env V) (tests : List (Condition Ir))
    (body : Ir) (label : String)
    (holds : ∀ t ∈ tests, t.test.eval host env = .ok (host.bool true)) :
    (failFast tests body label).eval host env = body.eval host env := by
  induction tests with
  | nil => rfl
  | cons t ts ih =>
    have htest := holds t (by simp)
    calc (failFast (t :: ts) body label).eval host env
        = (failFast ts body label).eval host env :=
          eval_cond_true host env htest (laws.truth_bool true)
      _ = body.eval host env := ih fun t ht => holds t (by simp [ht])

/-- A row of conditions one of which does not hold has no value.

**Proof sketch.** By induction on the tests: one that raises or is false ends the evaluation without
a value, and one that holds leaves the rest, in which some test does not hold. -/
lemma value?_eval_failFast_of_not_holds (laws : host.Lawful) (env : Env V)
    (tests : List (Condition Ir)) (body : Ir) (label : String)
    (decided : ∀ t ∈ tests, host.Decides (t.test.eval host env))
    (fails : ¬ ∀ t ∈ tests, t.test.eval host env = .ok (host.bool true)) :
    host.value? ((failFast tests body label).eval host env) = none := by
  induction tests with
  | nil => exact absurd (by simp) fails
  | cons t ts ih =>
    rcases decided t (by simp) with ⟨f, hf⟩ | ⟨b, hb⟩
    · exact congrArg host.value? (eval_cond_error host env hf)
    · cases b with
      | false =>
        have hno : (failFast (t :: ts) body label).eval host env =
            (Ir.fail (t.label.getD label) body.ty).eval host env :=
          eval_cond_false host env hb (laws.truth_bool false)
        rw [hno]
        exact value?_eval_fail host env _ _ _
      | true =>
        have hyes : (failFast (t :: ts) body label).eval host env =
            (failFast ts body label).eval host env :=
          eval_cond_true host env hb (laws.truth_bool true)
        rw [hyes]
        refine ih (fun t ht => decided t (by simp [ht])) fun hall => fails ?_
        simpa [hb] using hall

/-! ## Selectors -/

/-- How the outcome of a raising or asserting selector and that of its twin go together: both raise,
or the selector raises and its twin is null, or both are the value that the type selects. -/
inductive Matched (host : Host V F) (s : Selectable) : Except F V → Except F V → Prop
  | raised (f g : F) : Matched host s (.error f) (.error g)
  | lost (w : V) (g : F) (hw : host.isNull w = true) : Matched host s (.ok w) (.error g)
  | kept (v w : V) (hw : host.call ("as_" ++ s.stem) [v] = .ok w) : Matched host s (.ok w) (.ok w)

/-- A raising or asserting selector, whose message does not raise, is matched by its twin.

**Proof sketch.** Where the value raises both selectors do. On a value the selector succeeds exactly
where `as_` does: it calls that primitive itself, or the asserting one, which agrees with it. The
twin agrees with `as_` by the laws of the host, giving null where it raises. -/
lemma matched_dress (laws : host.Lawful) {s : Selectable} (hs : s ∈ selectables) (env : Env V)
    {policy : SelectPolicy} (hpolicy : policy = .raise ∨ policy = .assert) (value : Ir)
    (message : Option Ir)
    (hmessage : policy = .assert → ∀ m ∈ message, ∃ w, m.eval host env = .ok w) :
    Matched host s ((dress s .orNull value none).eval host env)
      ((dress s policy value message).eval host env) := by
  obtain ⟨has, hnull, hassert⟩ := selector_ne_fail s hs
  cases hv : value.eval host env with
  | error f =>
    rcases hpolicy with rfl | rfl <;>
      simpa [dress, Ir.apply, Ir.eval, evalAll, hv] using Matched.raised f f
  | ok v =>
    have htwin : (dress s .orNull value none).eval host env =
        host.call ("as_" ++ s.stem ++ "_or_null") [v] := eval_call_one_ok host env hnull hv
    -- The selector succeeds exactly where `as_` does, whichever of the two policies it has.
    have hsame : ∀ w, (dress s policy value message).eval host env = .ok w ↔
        host.call ("as_" ++ s.stem) [v] = .ok w := by
      intro w
      rcases hpolicy with rfl | rfl
      · exact iff_of_eq (congrArg (· = Except.ok w) (eval_call_one_ok host env has hv))
      · obtain ⟨m, hm⟩ : ∃ m, (message.getD (.ofString ("expected " ++ s.name))).eval host env =
            .ok m := by
          cases message with
          | none => exact ⟨_, rfl⟩
          | some m => exact hmessage rfl m rfl
        rw [← laws.assert_ok hs (m := m)]
        simp [dress, Ir.apply, Ir.eval, evalAll, hv, hm, hassert]
    rw [htwin]
    cases hcall : host.call ("as_" ++ s.stem) [v] with
    | ok w =>
      rw [laws.orNull_of_ok hs hcall, (hsame w).mpr hcall]
      exact .kept v w hcall
    | error f =>
      obtain ⟨w, hw, hwnull⟩ := laws.orNull_of_error hs hcall
      rw [hw]
      cases hd : (dress s policy value message).eval host env with
      | error g => exact .lost w g hwnull
      | ok w' => rw [(hsame w').mp hd] at hcall; cases hcall

/-- A matched selector has the value of its twin. -/
lemma Matched.value?_eq {s : Selectable} {twin selector : Except F V}
    (h : Matched host s twin selector) : host.value? twin = host.value? selector := by
  cases h with
  | raised f g => rfl
  | lost w g hw => rw [host.value?_ok_of_isNull hw, host.value?_error]
  | kept v w hw => rfl

/-- What the twin of a constrained selector makes of the value that it dressed. -/
def twinBody (s : Selectable) (tests : List (Condition Ir)) : Ir :=
  .branch (.apply "eq" [.var itName s.ty, .ofLiteral .null] .bool) (.ofLiteral .null)
    (.branch (allOf tests) (.var itName s.ty) (.ofLiteral .null))

/-- The test of `it` against null tells whether the value that it is bound to is null. -/
lemma eval_isNullTest (laws : host.Lawful) (env : Env V) (w : V) (ty : Ty) :
    (Ir.apply "eq" [.var itName ty, .ofLiteral .null] .bool).eval host (env.bind itName w) =
      .ok (host.bool (host.isNull w)) := by
  rw [← laws.eq_null w]
  simp [Ir.apply, Ir.ofLiteral, Ir.eval, evalAll, Host.null]

/-- A value that is null leaves the twin without one. -/
lemma value?_eval_twinBody_of_null (laws : host.Lawful) (env : Env V) (s : Selectable)
    (tests : List (Condition Ir)) {w : V} (hw : host.isNull w = true) :
    host.value? ((twinBody s tests).eval host (env.bind itName w)) = none := by
  have htest := eval_isNullTest laws env w s.ty
  rw [hw] at htest
  have hbody : (twinBody s tests).eval host (env.bind itName w) = .ok host.null :=
    eval_cond_true host _ htest (laws.truth_bool true)
  rw [hbody, host.value?_ok_of_isNull laws.isNull_null]

/-- A value that is not null has, in the twin, the value of the tests that fail fast.

**Proof sketch.** The null test of the twin says no, so what remains is the conditional on the
conjunction of the tests. Where all of them hold, both sides give the value. Where not, the tests
that fail fast raise, and the twin raises or gives null; none of these is a value. -/
lemma value?_eval_twinBody (laws : host.Lawful) (env : Env V) (s : Selectable)
    (tests : List (Condition Ir)) (label : String) {w : V} (hw : host.isNull w = false)
    (decided : ∀ t ∈ tests, host.Decides (t.test.eval host (env.bind itName w))) :
    host.value? ((twinBody s tests).eval host (env.bind itName w)) =
      host.value? ((failFast tests (.var itName s.ty) label).eval host (env.bind itName w)) := by
  have htest := eval_isNullTest laws env w s.ty
  rw [hw] at htest
  have hbody : (twinBody s tests).eval host (env.bind itName w) =
      (Ir.branch (allOf tests) (.var itName s.ty) (.ofLiteral .null)).eval host
        (env.bind itName w) := eval_cond_false host _ htest (laws.truth_bool false)
  rw [hbody]
  obtain ⟨hdecides, hholds⟩ := eval_allOf laws (env.bind itName w) tests decided
  by_cases hall : ∀ t ∈ tests, t.test.eval host (env.bind itName w) = .ok (host.bool true)
  · rw [eval_failFast_of_holds laws _ tests _ label hall]
    exact congrArg host.value?
      (eval_cond_true host _ (hholds.mpr hall) (laws.truth_bool true))
  · rw [value?_eval_failFast_of_not_holds laws _ tests _ label decided hall]
    rcases hdecides with ⟨f, hf⟩ | ⟨b, hb⟩
    · exact congrArg host.value? (eval_cond_error host _ hf)
    · cases b with
      | true => exact absurd (hholds.mp hb) hall
      | false =>
        have hnull : (Ir.branch (allOf tests) (.var itName s.ty) (.ofLiteral .null)).eval host
            (env.bind itName w) = .ok host.null :=
          eval_cond_false host _ hb (laws.truth_bool false)
        rw [hnull, host.value?_ok_of_isNull laws.isNull_null]

/-- A constrained selector, whose tests are booleans or raise, has the value of its twin.

**Proof sketch.** Both bind `it` to the dressed value. Where the selector raises, so does its twin or
it finds `it` null. Where it gives a value, that is not null, so the twin goes on to the conjunction
of the tests; this holds exactly where no test fails fast. -/
lemma value?_eval_constrained (laws : host.Lawful) {s : Selectable} (hs : s ∈ selectables)
    (env : Env V) {policy : SelectPolicy} (hpolicy : policy = .raise ∨ policy = .assert)
    (tests : List (Condition Ir)) (value : Ir) (message : Option Ir)
    (hmessage : policy = .assert → ∀ m ∈ message, ∃ w, m.eval host env = .ok w)
    (decided : ∀ v w, host.call ("as_" ++ s.stem) [v] = .ok w →
      ∀ t ∈ tests, host.Decides (t.test.eval host (env.bind itName w))) :
    host.value? ((constrained s .orNull tests value none).eval host env) =
      host.value? ((constrained s policy tests value message).eval host env) := by
  have htwin : constrained s .orNull tests value none =
      .bind [(itName, dress s .orNull value none)] (twinBody s tests) := rfl
  have hself : constrained s policy tests value message =
      .bind [(itName, dress s policy value message)]
        (failFast tests (.var itName s.ty) (s.name ++ " constraint failed")) := by
    rcases hpolicy with rfl | rfl <;> rfl
  have hdress := matched_dress laws hs env hpolicy value message hmessage
  rw [htwin, hself, Ir.bind, Ir.bind]
  generalize hl : (dress s .orNull value none).eval host env = twin at hdress
  generalize hr : (dress s policy value message).eval host env = selector at hdress
  cases hdress with
  | raised f g => rw [eval_bind_one_error host env hl, eval_bind_one_error host env hr]; rfl
  | lost w g hw =>
    rw [eval_bind_one_ok host env hl, eval_bind_one_error host env hr, host.value?_error]
    exact value?_eval_twinBody_of_null laws env s tests hw
  | kept v w hw =>
    rw [eval_bind_one_ok host env hl, eval_bind_one_ok host env hr]
    exact value?_eval_twinBody laws env s tests _ (laws.isNull_as hs hw) (decided v w hw)

/-! ## Candidates -/

section Candidates

variable {α : Type} (host) (scope : Scope) (env : Env V)

/-- What is assumed of a raising or asserting selector that another candidate follows: what stands
in the place of its message can be lowered, and as a message does not raise; and its tests, of a
value that the type selects, give booleans or raise. -/
structure SelectorTame (typeName : String) (policy : SelectPolicy)
    (constraints : List (Condition (Expr α))) (args : List (Expr α)) : Prop where
  message : ∀ e, args[1]? = some e → ∃ ir, e.lower scope false = .ok ir ∧
    (policy = .assert → ∃ w, ir.eval host env = .ok w)
  decided : ∀ s tests, selectable? typeName = some s →
    lowerConditions ((itName, s.ty) :: scope) constraints = .ok tests →
    ∀ v w, host.call ("as_" ++ s.stem) [v] = .ok w →
      ∀ t ∈ tests, host.Decides (t.test.eval host (env.bind itName w))

/-- What is assumed of a candidate that another one follows. -/
def Expr.Tame : Expr α → Prop
  | .select _ typeName .raise constraints args =>
    SelectorTame host scope env typeName .raise constraints args
  | .select _ typeName .assert constraints args =>
    SelectorTame host scope env typeName .assert constraints args
  | e => ∀ ir, e.lower scope false = .ok ir → ir.Proper host env

variable {host scope env}

/-- The twin of a selector raises in no result position. -/
lemma proper_twin {s : Selectable} (hs : s ∈ selectables) (value : Ir) :
    (dress s .orNull value none).Proper host env := by
  intro t ht
  obtain ⟨has, hassert⟩ := orNull_ne_raising s hs t ht
  exact ⟨fun h => absurd h has, fun h => absurd h hassert⟩

/-- The twin of a constrained selector raises in no result position. -/
lemma proper_constrained_twin (s : Selectable) (tests : List (Condition Ir)) (value : Ir) :
    (constrained s .orNull tests value none).Proper host env := by
  simp [constrained, Ir.bind, Ir.branch, Ir.ofLiteral, Ir.Proper]

/-- A silent selector lowers its value only. -/
lemma lowerSelected_silent {typeName : String} {args : List (Expr α)} {value : Ir}
    {message : Option Ir} (h : lowerSelected scope typeName true args = .ok (value, message)) :
    message = none ∧ ∃ e es, args = e :: es ∧ e.lower scope false = .ok value := by
  cases args with
  | nil => cases h
  | cons e es =>
    rw [lowerSelected] at h
    cases he : e.lower scope false with
    | error err => rw [he] at h; cases h
    | ok ir =>
      rw [he] at h
      cases h
      exact ⟨rfl, e, es, rfl, he⟩

/-- A selector that is not silent lowers its message as well. -/
lemma lowerSelected_loud {typeName : String} {e : Expr α} {es : List (Expr α)} {value : Ir}
    (hvalue : e.lower scope false = .ok value) {policy : SelectPolicy}
    {constraints : List (Condition (Expr α))}
    (tame : SelectorTame host scope env typeName policy constraints (e :: es)) :
    ∃ message, lowerSelected scope typeName false (e :: es) = .ok (value, message) ∧
      (policy = .assert → ∀ m ∈ message, ∃ w, m.eval host env = .ok w) := by
  cases es with
  | nil =>
    refine ⟨none, ?_, by simp⟩
    simp [lowerSelected, lowerHead, hvalue, bind, Except.bind, pure, Except.pure]
  | cons m ms =>
    obtain ⟨ir, hir, hw⟩ := tame.message m rfl
    refine ⟨some ir, ?_, by simpa using hw⟩
    simp [lowerSelected, lowerHead, hvalue, hir, bind, Except.bind, pure, Except.pure]

/-- What lowering makes of the value and the message of a selector. -/
def select (scope : Scope) (typeName : String) (policy : SelectPolicy)
    (constraints : List (Condition (Expr α))) (value : Ir) (message : Option Ir) :
    Except TypeError Ir :=
  match selectable? typeName with
  | none => .error (.unknownType typeName)
  | some s =>
    match constraints with
    | [] => .ok (dress s policy value message)
    | _ => (lowerConditions ((itName, s.ty) :: scope) constraints).map fun tests =>
      constrained s policy tests value message

/-- A selector lowers its value and message, and then what is made of them. -/
lemma lower_select (recover : Bool) (note : α) (typeName : String) (policy : SelectPolicy)
    (constraints : List (Condition (Expr α))) (args : List (Expr α)) :
    (Expr.select note typeName policy constraints args).lower scope recover =
      (lowerSelected scope typeName (recover && policy != policy.recoverable) args).bind fun p =>
        select scope typeName (if recover && policy != policy.recoverable then .orNull else policy)
          constraints p.1 p.2 := by
  rw [Expr.lower]
  refine congrArg _ (funext fun ⟨value, message⟩ => ?_)
  simp only [select]
  cases selectable? typeName with
  | none => rfl
  | some s => cases constraints <;> rfl

/-- A raising or asserting selector that another candidate follows is lowered to a twin with its
value, and that twin raises in no result position.

**Proof sketch.** Both forms lower the value alike, and the loud one lowers the message as well,
which does not raise by assumption. A selector without constraints is matched by its twin directly;
with constraints the tests run on the dressed values, which are the same. -/
lemma lower_selector_candidate (laws : host.Lawful) {note : α} {typeName : String}
    {policy : SelectPolicy} (hpolicy : policy = .raise ∨ policy = .assert)
    {constraints : List (Condition (Expr α))} {args : List (Expr α)}
    (tame : SelectorTame host scope env typeName policy constraints args) {twin : Ir}
    (h : (Expr.select note typeName policy constraints args).lower scope true = .ok twin) :
    ∃ ir, (Expr.select note typeName policy constraints args).lower scope false = .ok ir ∧
      twin.Proper host env ∧ host.value? (twin.eval host env) = host.value? (ir.eval host env) := by
  have hsilent : (policy != policy.recoverable) = true := by rcases hpolicy with rfl | rfl <;> rfl
  rw [lower_select, hsilent] at h
  rw [lower_select]
  simp only [Bool.and_self, Bool.false_and, Bool.false_eq_true, ↓reduceIte] at h ⊢
  cases hselected : lowerSelected scope typeName true args with
  | error e => rw [hselected] at h; cases h
  | ok p =>
    obtain ⟨value, message⟩ := p
    -- The silent form never looks at the message, the loud one lowers it.
    obtain ⟨rfl, e, es, rfl, hvalue⟩ := lowerSelected_silent hselected
    obtain ⟨message, hloud, hmessage⟩ := lowerSelected_loud hvalue tame
    rw [hselected] at h
    rw [hloud]
    simp only [Except.bind, select] at h ⊢
    cases hs : selectable? typeName with
    | none => rw [hs] at h; cases h
    | some s =>
      have hmem : s ∈ selectables := List.mem_of_find?_eq_some hs
      rw [hs] at h
      cases constraints with
      -- Without constraints the twins are calls of two primitives of the same type.
      | nil =>
        cases h
        refine ⟨_, rfl, proper_twin hmem value, ?_⟩
        exact (matched_dress laws hmem env hpolicy value message hmessage).value?_eq
      | cons c cs =>
        cases htests : lowerConditions ((itName, s.ty) :: scope) (c :: cs) with
        | error e => simp only [htests] at h; cases h
        | ok tests =>
          simp only [htests] at h ⊢
          cases h
          refine ⟨_, rfl, proper_constrained_twin s tests value, ?_⟩
          exact value?_eval_constrained laws hmem env hpolicy tests value message hmessage
            (tame.decided s tests hs htests)

/-- Every other candidate is lowered as it is on its own. -/
lemma lower_recover (e : Expr α)
    (h : ∀ note typeName policy constraints args,
      e = .select note typeName policy constraints args → policy = .orNull ∨ policy = .check) :
    e.lower scope true = e.lower scope false := by
  cases e with
  | select note typeName policy constraints args =>
    rcases h _ _ _ _ _ rfl with rfl | rfl <;> rw [lower_select, lower_select] <;> rfl
  | guarded note kind conditions body => cases kind <;> simp only [Expr.lower]
  | _ => simp only [Expr.lower]

/-- Every other candidate raises properly. -/
lemma Expr.Tame.proper {e : Expr α} (tame : e.Tame host scope env)
    (h : ∀ note typeName policy constraints args,
      e = .select note typeName policy constraints args → policy = .orNull ∨ policy = .check) :
    ∀ ir, e.lower scope false = .ok ir → ir.Proper host env := by
  cases e with
  | select note typeName policy constraints args =>
    rcases h _ _ _ _ _ rfl with rfl | rfl <;> exact tame
  | _ => exact tame

/-- A candidate that another one follows has the value that it has on its own.

**Proof sketch.** A raising or asserting selector is lowered to its twin, whose value
`lower_selector_candidate` compares. Every other candidate is lowered as it is on its own, and
softening keeps its value as it is tame. -/
lemma findSome?_lower_candidate (laws : host.Lawful) (e : Expr α) (tame : e.Tame host scope env)
    {ir : Ir} (h : e.lower scope true = .ok ir) :
    ∃ alone, e.lower scope false = .ok alone ∧
      (ir.softened.map (Ir.eval host env)).findSome? host.value? =
        host.value? (alone.eval host env) := by
  by_cases hloud : ∃ note typeName policy constraints args,
      e = .select note typeName policy constraints args ∧ (policy = .raise ∨ policy = .assert)
  · obtain ⟨note, typeName, policy, constraints, args, rfl, hpolicy⟩ := hloud
    have hselector : SelectorTame host scope env typeName policy constraints args := by
      rcases hpolicy with rfl | rfl <;> exact tame
    obtain ⟨alone, halone, hproper, hvalue⟩ := lower_selector_candidate laws hpolicy hselector h
    exact ⟨alone, halone, (findSome?_softened laws env ir hproper).trans hvalue⟩
  · have hquiet : ∀ note typeName policy constraints args,
        e = .select note typeName policy constraints args → policy = .orNull ∨ policy = .check := by
      rintro note typeName policy constraints args rfl
      cases policy with
      | orNull => exact .inl rfl
      | check => exact .inr rfl
      | raise => exact absurd ⟨_, _, _, _, _, rfl, .inl rfl⟩ hloud
      | assert => exact absurd ⟨_, _, _, _, _, rfl, .inr rfl⟩ hloud
    rw [lower_recover e hquiet] at h
    exact ⟨ir, h, findSome?_softened laws env ir (tame.proper hquiet ir h)⟩

/-- The lowered candidates of an alternative have the first value of the candidates lowered each on
its own, and the same last outcome.

**Proof sketch.** Induction over the candidates. One that another follows stands for candidates that
have its value as their first one; the last candidate stays as it is, and with it the outcome at the
end of the row. -/
lemma lowerCandidates_alone (laws : host.Lawful) (candidates : List (Expr α))
    (tame : ∀ c ∈ candidates.dropLast, c.Tame host scope env) {irs : List Ir}
    (h : lowerCandidates scope candidates = .ok irs) :
    ∃ alone, List.Forall₂ (fun (c : Expr α) ir => c.lower scope false = .ok ir) candidates alone ∧
      (irs.map (Ir.eval host env)).findSome? host.value? =
        (alone.map (Ir.eval host env)).findSome? host.value? ∧
      (irs.map (Ir.eval host env)).getLast? = (alone.map (Ir.eval host env)).getLast? := by
  induction candidates generalizing irs with
  | nil => cases h; exact ⟨[], .nil, rfl, rfl⟩
  | cons e es ih =>
    rw [lowerCandidates] at h
    cases he : e.lower scope (!es.isEmpty) with
    | error err => rw [he] at h; cases h
    | ok ir =>
      cases hrest : lowerCandidates scope es with
      | error err => rw [he, hrest] at h; cases h
      | ok rest =>
        rw [he, hrest] at h
        cases h
        cases es with
        | nil => exact ⟨[ir], .cons he .nil, rfl, rfl⟩
        | cons e' es =>
          obtain ⟨alone, hall, hfirst, hlast⟩ :=
            ih (fun c hc => tame c (by simp [hc])) hrest
          obtain ⟨own, hown, hvalue⟩ := findSome?_lower_candidate laws e (tame e (by simp)) he
          refine ⟨own :: alone, .cons hown hall, ?_, ?_⟩
          · simp only [List.isEmpty_cons, Bool.false_eq_true, ↓reduceIte, List.map_append,
              List.findSome?_append, List.map_cons, List.findSome?_cons, hvalue, hfirst]
            cases host.value? (own.eval host env) <;> rfl
          · cases hall with
            | cons hfirst' hrest' =>
              simp only [List.isEmpty_cons, Bool.false_eq_true, ↓reduceIte, List.map_append,
                List.getLast?_append, hlast, List.map_cons, List.getLast?_cons_cons]
              simp [List.getLast?_cons]

/-- A lowered alternative has the outcome of the alternative of its candidates, each lowered on its
own: the same value, or the failure of the last candidate. The candidates before the last are tame. Of a
raising or asserting selector among them this asks that its second argument lowers, which is dropped
where another candidate follows; without it the candidate has no lowered form of its own to compare
with. The message of an asserting selector moreover has a value: one that raises does so before the
selector.

**Proof sketch.** Lowering the row gives a row whose values are found as those of the candidates on
their own (`lowerCandidates_alone`), and an alternative chooses by these values alone
(`eval_alternative`, `choose_congr`). -/
theorem eval_transform_alternative (laws : host.Lawful) (note : α) (candidates : List (Expr α))
    {ir : Ir} (h : transform (.alternative note candidates) = .ok ir) (env : Env V)
    (tame : ∀ c ∈ candidates.dropLast, c.Tame host [(inputName, .any)] env) :
    ∃ alone, List.Forall₂ (fun c ir => transform c = .ok ir) candidates alone ∧
      ∀ ty, ir.eval host env = (Ir.alternative alone ty).eval host env := by
  rw [transform, Expr.lower] at h
  cases hc : lowerCandidates [(inputName, .any)] candidates with
  | error err => rw [hc] at h; cases h
  | ok irs =>
    rw [hc] at h
    cases h
    obtain ⟨alone, hall, hfirst, hlast⟩ := lowerCandidates_alone laws candidates tame hc
    refine ⟨alone, hall, fun ty => ?_⟩
    rw [eval_alternative, eval_alternative]
    exact host.choose_congr hfirst hlast

end Candidates

/-! ## A host of constants -/

/-- The value is a constant of the type. -/
def Selectable.fits (s : Selectable) (v : Option Literal) : Bool :=
  v.any fun l => l.ty.tag == s.tag

/-- What calls do to constants, where `none` stands for a function: selectors look at the type of a
constant, and there are equality and conjunction. -/
def constantCall (name : String) : List (Option Literal) → Except String (Option Literal)
  | [v] =>
    match selectables.find? fun s => s.raising.head? == some name with
    | some s => if s.fits v then .ok v else .error ("expected " ++ s.name)
    | none =>
      match selectables.find? fun s => name == "as_" ++ s.stem ++ "_or_null" with
      | some s => .ok (if s.fits v then v else some .null)
      | none => .error ("no function " ++ name)
  | [v, w] =>
    match selectables.find? fun s => name == "assert_" ++ s.stem with
    | some s => if s.fits v then .ok v else .error ((w.bind Literal.string?).getD "")
    | none =>
      match name, v, w with
      | "eq", _, _ => .ok (some (.bool (v == w)))
      | "and", some (.bool a), some (.bool b) => .ok (some (.bool (a && b)))
      | _, _, _ => .error ("no function " ++ name)
  | _ => .error ("no function " ++ name)

/-- The host whose values are the constants and, without telling them apart, the functions. -/
def constantHost : Host (Option Literal) String where
  literal := some
  closure _ _ := none
  isNull v := v == some .null
  truth
    | some (.bool b) => .ok b
    | _ => .error "not a boolean"
  call := constantCall
  failure
    | [some (.string message)] => message
    | _ => ""
  nullFailure := "no value"

/-- No selector takes null. -/
lemma not_fits_null : ∀ s ∈ selectables, s.fits (some .null) = false := by
  decide

/-- What the three selector calls of a type do to constants. -/
lemma constantHost_selector {s : Selectable} (hs : s ∈ selectables) (v m : Option Literal) :
    constantHost.call ("as_" ++ s.stem) [v] =
        (if s.fits v then .ok v else .error ("expected " ++ s.name)) ∧
      constantHost.call ("as_" ++ s.stem ++ "_or_null") [v] =
        .ok (if s.fits v then v else some .null) ∧
      constantHost.call ("assert_" ++ s.stem) [v, m] =
        if s.fits v then .ok v else .error ((m.bind Literal.string?).getD "") := by
  simp only [selectables, List.mem_cons, List.not_mem_nil, or_false] at hs
  rcases hs with rfl | rfl | rfl | rfl | rfl | rfl | rfl <;> exact ⟨rfl, rfl, rfl⟩

/-- The host of constants is lawful.

**Proof sketch.** The primitives of selectors on constants are given by `constantHost_selector`;
each law compares two of them by whether the constant fits the type. -/
lemma constantHost_lawful : constantHost.Lawful where
  isNull_null := rfl
  truth_bool _ := rfl
  eq_null _ := rfl
  and_bool _ _ := rfl
  isNull_as := by
    intro s hs v w h
    rw [(constantHost_selector hs v none).1] at h
    split at h
    · cases h
      rename_i hfits
      refine beq_eq_false_iff_ne.mpr fun hnull => ?_
      rw [hnull, not_fits_null s hs] at hfits
      cases hfits
    · cases h
  orNull_of_ok := by
    intro s hs v w h
    rw [(constantHost_selector hs v none).1] at h
    rw [(constantHost_selector hs v none).2.1]
    split at h <;> simp_all
  orNull_of_error := by
    intro s hs v f h
    rw [(constantHost_selector hs v none).1] at h
    rw [(constantHost_selector hs v none).2.1]
    split at h
    · cases h
    · exact ⟨some .null, by simp_all, rfl⟩
  assert_ok := by
    intro s hs v m w
    rw [(constantHost_selector hs v m).1, (constantHost_selector hs v m).2.2]
    split <;> simp

/-- An asserting selector with a test, an alternative of a selector and a guard, and a constant. -/
def sampleCandidates : List (Expr Unit) :=
  [.select () "Int" .assert [⟨none, .binary () .eq (.var () "it") (.literal () (.int 7))⟩]
    [.var () "_", .literal () (.string "seven wanted")],
   .alternative ()
    [.select () "Date" .raise [] [.var () "_"],
     .guarded () .guard [⟨some "never", .literal () (.bool false)⟩] (.literal () (.int 1))],
   .literal () (.string "none of them")]

/-- The candidates of the sample on eight: seven is wanted, eight is no date, the guard is never
met, and so the constant is left. -/
theorem eval_transform_sampleCandidates :
    ∃ ir alone, transform (.alternative () sampleCandidates) = .ok ir ∧
      List.Forall₂ (fun c ir => transform c = .ok ir) sampleCandidates alone ∧
      ir.eval constantHost (fun _ => some (.int 8)) = .ok (some (.string "none of them")) ∧
      ∀ ty, ir.eval constantHost (fun _ => some (.int 8)) =
        (Ir.alternative alone ty).eval constantHost (fun _ => some (.int 8)) := by
  have tame : ∀ c ∈ sampleCandidates.dropLast,
      c.Tame constantHost [(inputName, .any)] (fun _ => some (.int 8)) := by
    intro c hc
    simp only [sampleCandidates, List.dropLast, List.mem_cons, List.not_mem_nil, or_false] at hc
    rcases hc with rfl | rfl
    · refine ⟨?_, ?_⟩
      · intro e he
        cases he
        exact ⟨_, rfl, fun _ => ⟨_, rfl⟩⟩
      · intro s tests hs htests v w _ t ht
        cases htests
        obtain rfl := List.mem_singleton.mp ht
        exact .inr ⟨_, rfl⟩
    · intro ir hir
      cases hir
      refine ⟨proper_twin (List.mem_of_find?_eq_some (p := (·.name == "Date")) rfl) _,
        ⟨trivial, fun s hs => ?_⟩, trivial⟩
      obtain ⟨has, -, hassert⟩ := selector_ne_fail s hs
      exact ⟨fun h => absurd h.symm has, fun h => absurd h.symm hassert⟩
  obtain ⟨alone, hall, hsame⟩ := eval_transform_alternative constantHost_lawful () sampleCandidates
    rfl (fun _ => some (.int 8)) tame
  exact ⟨_, alone, rfl, hall, rfl, hsame⟩

end Retarget
