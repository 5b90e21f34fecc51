import Retarget.Proofs.Alternative
import Retarget.Proofs.Quoting.Target
import Retarget.Target.Sql

set_option autoImplicit false

/-!
# Expressions that cannot raise

Whether evaluation can raise is decided by looking for the three things that raise: `fail`, the
selectors that are recognised by their names, and alternatives. Where all else is total, an expression
without any of them has a value. SQL relies on this, since it cannot catch what a candidate raises: it
accepts an alternative only if no candidate before the last can raise.

A function is a value wherever it stands, but its body raises when it is called, which the decision does
not look into; so the expressions here hold no functions, and their names stand for plain values.

## Main definitions

* `Retarget.Ir.lambdaFree` — the expression holds no function.
* `Retarget.Host.OnlySelectorsRaise` — of the primitives of a host, only `fail` and selectors raise.

## Main results

* `Retarget.exists_eval` — an expression that cannot raise has a plain value.
* `Retarget.Sql.not_mayRaise_of_succeeds` — what SQL asks of the candidates of an alternative.
* `Retarget.eval_ok_of_not_mayRaise` — evaluation does not raise where it is said not to, and no
  candidate before the last of an alternative that SQL accepts raises.
-/

namespace Retarget

variable {V F : Type}

/-! ## Expressions without functions -/

mutual

/-- The expression holds no function. -/
def Ir.lambdaFree : Ir → Bool
  | .literal _ _ | .var _ _ => true
  | .lambda _ _ _ => false
  | .call _ args _ _ => allLambdaFree args
  | .cond test yes no _ => test.lambdaFree && yes.lambdaFree && no.lambdaFree
  | .letIn bindings body _ => boundLambdaFree bindings && body.lambdaFree
  | .alternative candidates _ => allLambdaFree candidates

/-- None of the expressions holds a function. -/
def allLambdaFree : List Ir → Bool
  | [] => true
  | ir :: irs => ir.lambdaFree && allLambdaFree irs

/-- None of the bound values holds a function. -/
def boundLambdaFree : List (String × Ir) → Bool
  | [] => true
  | (_, ir) :: rest => ir.lambdaFree && boundLambdaFree rest

end

/-- A row of expressions holds no function where none of them does. -/
lemma allLambdaFree_eq_all (irs : List Ir) : allLambdaFree irs = irs.all Ir.lambdaFree := by
  induction irs with
  | nil => rfl
  | cons ir irs ih => rw [allLambdaFree, List.all_cons, ih]

/-! ## Evaluation -/

/-- Of the primitives of a host, only `fail` and the selectors that raise or assert do so. On plain
values, all other calls and the decisions of conditionals are total functions, and what they give is
plain. -/
structure Host.OnlySelectorsRaise (host : Host V F) (plain : V → Prop) : Prop where
  /-- A constant is plain. -/
  literal (value : Literal) : plain (host.literal value)
  /-- A plain value decides a conditional. -/
  truth {v : V} : plain v → ∃ b, host.truth v = .ok b
  /-- Calls of all other names are total. -/
  call {name : String} (hfail : name ≠ "fail") (hselector : ∀ s ∈ selectables,
      name ≠ "as_" ++ s.stem ∧ name ≠ "assert_" ++ s.stem) {vs : List V} :
    (∀ v ∈ vs, plain v) → ∃ w, host.call name vs = .ok w ∧ plain w

/-- A name has no raising stem exactly if it is that of no selector that raises or asserts. -/
lemma raisingStem?_eq_none {name : String} : raisingStem? name = none ↔
    ∀ s ∈ selectables, name ≠ "as_" ++ s.stem ∧ name ≠ "assert_" ++ s.stem := by
  simp [raisingStem?, Selectable.raising, List.find?_eq_none]

/-- One more name for a plain value. -/
lemma Env.plain_bind {plain : V → Prop} {env : Env V} (henv : ∀ name, plain (env name)) {v : V}
    (hv : plain v) (bound name : String) : plain (env.bind bound v name) := by
  by_cases h : name = bound
  · subst h
    rwa [Env.bind_same]
  · rw [Env.bind, Function.update_of_ne h]
    exact henv name

section Plain

variable {host : Host V F} {plain : V → Prop}

mutual

/-- An expression that cannot raise has a plain value.

**Proof sketch.** Induction over the expression, along with its arguments and its bindings. Each part
has a value, and what is done with the values is total: no call is that of `fail` or of a selector that
raises, and there are no alternatives. -/
theorem exists_eval (laws : host.OnlySelectorsRaise plain) :
    ∀ (ir : Ir) {env : Env V}, (∀ name, plain (env name)) → ir.lambdaFree = true →
      ir.mayRaise = false → ∃ v, ir.eval host env = .ok v ∧ plain v
  | .literal value _, _, _, _, _ => ⟨_, rfl, laws.literal value⟩
  | .var name _, _, henv, _, _ => ⟨_, rfl, henv name⟩
  | .lambda _ _ _, _, _, hfree, _ => by cases hfree
  | .alternative _ _, _, _, _, hquiet => by cases hquiet
  | .cond test yes no _, env, henv, hfree, hquiet => by
    simp only [Ir.lambdaFree, Bool.and_eq_true] at hfree
    simp only [Ir.mayRaise, Bool.or_eq_false_iff] at hquiet
    obtain ⟨v, htest, hv⟩ := exists_eval laws test henv hfree.1.1 hquiet.1.1
    obtain ⟨b, hb⟩ := laws.truth hv
    cases b with
    | true =>
      rw [eval_cond_true host env htest hb]
      exact exists_eval laws yes henv hfree.1.2 hquiet.1.2
    | false =>
      rw [eval_cond_false host env htest hb]
      exact exists_eval laws no henv hfree.2 hquiet.2
  | .letIn bindings body _, env, henv, hfree, hquiet => by
    simp only [Ir.lambdaFree, Bool.and_eq_true] at hfree
    simp only [Ir.mayRaise, Bool.or_eq_false_iff] at hquiet
    obtain ⟨inner, hinner, hplain⟩ := exists_evalBindings laws bindings henv hfree.1 hquiet.1
    simp only [Ir.eval, hinner]
    exact exists_eval laws body hplain hfree.2 hquiet.2
  | .call name args _ _, env, henv, hfree, hquiet => by
    simp only [Ir.mayRaise, Bool.or_eq_false_iff, beq_eq_false_iff_ne] at hquiet
    obtain ⟨⟨hfail, hstem⟩, hargs⟩ := hquiet
    obtain ⟨vs, hvs, hplain⟩ := exists_evalAll laws args henv hfree hargs
    have hnone : raisingStem? name = none := Option.not_isSome_iff_eq_none.mp (by simp [hstem])
    simp only [Ir.eval, hvs, if_neg hfail]
    exact laws.call hfail (raisingStem?_eq_none.mp hnone) hplain

/-- Expressions that cannot raise have plain values. -/
theorem exists_evalAll (laws : host.OnlySelectorsRaise plain) :
    ∀ (irs : List Ir) {env : Env V}, (∀ name, plain (env name)) → allLambdaFree irs = true →
      anyMayRaise irs = false → ∃ vs, evalAll host env irs = .ok vs ∧ ∀ v ∈ vs, plain v
  | [], _, _, _, _ => ⟨[], rfl, List.forall_mem_nil _⟩
  | ir :: irs, env, henv, hfree, hquiet => by
    simp only [allLambdaFree, Bool.and_eq_true] at hfree
    simp only [anyMayRaise, Bool.or_eq_false_iff] at hquiet
    obtain ⟨v, hv, hplain⟩ := exists_eval laws ir henv hfree.1 hquiet.1
    obtain ⟨vs, hvs, hrest⟩ := exists_evalAll laws irs henv hfree.2 hquiet.2
    refine ⟨v :: vs, ?_, List.forall_mem_cons.mpr ⟨hplain, hrest⟩⟩
    simp only [evalAll, hv, hvs]

/-- Bindings whose values cannot raise bind names to plain values. -/
theorem exists_evalBindings (laws : host.OnlySelectorsRaise plain) :
    ∀ (bindings : List (String × Ir)) {env : Env V}, (∀ name, plain (env name)) →
      boundLambdaFree bindings = true → anyBindingMayRaise bindings = false →
      ∃ inner, evalBindings host env bindings = .ok inner ∧ ∀ name, plain (inner name)
  | [], env, henv, _, _ => ⟨env, rfl, henv⟩
  | (name, ir) :: rest, env, henv, hfree, hquiet => by
    simp only [boundLambdaFree, Bool.and_eq_true] at hfree
    simp only [anyBindingMayRaise, Bool.or_eq_false_iff] at hquiet
    obtain ⟨v, hv, hplain⟩ := exists_eval laws ir henv hfree.1 hquiet.1
    simp only [evalBindings, hv]
    exact exists_evalBindings laws rest (Env.plain_bind henv hplain name) hfree.2 hquiet.2

end

end Plain

/-! ## Alternatives in SQL -/

/-- SQL accepts an alternative only if no candidate before the last can raise. -/
lemma Sql.not_mayRaise_of_succeeds {candidates : List Ir} {ty : Ty} {names : Bindings}
    {fragment : Fragment}
    (h : (Sql.target.fragment (.alternative candidates ty)).Succeeds names fragment) :
    ∀ c ∈ candidates.dropLast, c.mayRaise = false := by
  intro c hc
  have hoperand : Sql.target.operand c ∈ (Sql.target.operands candidates).dropLast := by
    rw [Target.operands_eq_map, ← List.map_dropLast]
    exact List.mem_map_of_mem hc
  have halternative :
      (Sql.target.alternative (Sql.target.operands candidates) ty).Succeeds names fragment := h
  generalize Sql.target.operands candidates = operands at hoperand halternative
  simp only [Sql.target] at halternative
  split_ifs at halternative with hraise
  · exact (Emit.succeeds_fail.mp halternative).elim
  · rw [List.any_eq_true] at hraise
    exact Bool.eq_false_iff.mpr fun hc => hraise ⟨_, hoperand, hc⟩

/-- What is said not to raise does not raise: where of the primitives only `fail` and selectors do, every
expression without functions for which `mayRaise` is false has a value in every environment of plain
values. So no candidate before the last raises in an alternative that SQL accepts.

**Proof sketch.** The first part is `exists_eval`, by recursion on the form. In an alternative that
SQL accepts `mayRaise` is false for every candidate but the last (`Sql.not_mayRaise_of_succeeds`),
so that the first part applies to it. -/
theorem eval_ok_of_not_mayRaise {host : Host V F} {plain : V → Prop}
    (laws : host.OnlySelectorsRaise plain) {env : Env V} (henv : ∀ name, plain (env name)) :
    (∀ ir : Ir, ir.lambdaFree = true → ir.mayRaise = false → ∃ v, ir.eval host env = .ok v) ∧
      ∀ (candidates : List Ir) (ty : Ty) (names : Bindings) (fragment : Fragment),
        (Ir.alternative candidates ty).lambdaFree = true →
        (Sql.target.fragment (.alternative candidates ty)).Succeeds names fragment →
        ∀ c ∈ candidates.dropLast, ∃ v, c.eval host env = .ok v := by
  have hsound : ∀ ir : Ir, ir.lambdaFree = true → ir.mayRaise = false →
      ∃ v, ir.eval host env = .ok v := by
    intro ir hfree hquiet
    obtain ⟨v, hv, -⟩ := exists_eval laws ir henv hfree hquiet
    exact ⟨v, hv⟩
  refine ⟨hsound, fun candidates ty names fragment hfree h c hc => ?_⟩
  rw [Ir.lambdaFree, allLambdaFree_eq_all, List.all_eq_true] at hfree
  exact hsound c (hfree c (List.mem_of_mem_dropLast hc)) (Sql.not_mayRaise_of_succeeds h c hc)

/-! ## A host whose other calls are total -/

/-- The host of constants, where a call other than of a selector gives null in place of a failure and
what is not a boolean decides a conditional against its first branch. -/
def lenientHost : Host (Option Literal) String where
  __ := constantHost
  truth v := .ok (v == some (.bool true))
  call name vs :=
    match constantHost.call name vs with
    | .ok v => .ok (some (v.getD .null))
    | .error f => if (raisingStem? name).isSome then .error f else .ok (some .null)

/-- Its plain values are the constants. -/
lemma lenientHost_onlySelectorsRaise :
    lenientHost.OnlySelectorsRaise fun v => v.isSome = true where
  literal _ := rfl
  truth _ := ⟨_, rfl⟩
  call {name} _ hselector vs _ := by
    simp only [lenientHost, raisingStem?_eq_none.mpr hselector]
    split <;> exact ⟨_, rfl, rfl⟩

/-- An integer of the input, but null for nought. -/
def countOrNull : Ir :=
  .bind [("n", .apply "as_int_or_null" [.var "_" .any] .int)]
    (.branch (.apply "eq" [.var "n" .int, .ofLiteral (.int 0)] .bool) (.ofLiteral .null)
      (.var "n" .int))

/-- The same, or else the input as a text. -/
def countOrText : List Ir := [countOrNull, .apply "as_string" [.var "_" .any] .string]

/-- The selectors of the host raise on a text that is no integer, but what SQL accepts as a candidate
that another one follows has a value there. -/
theorem eval_ok_of_not_mayRaise_countOrText :
    (countOrNull.mayRaise = false ∧
      ∃ v, countOrNull.eval lenientHost (fun _ => some (.string "seven")) = .ok v) ∧
      lenientHost.call "as_int" [some (.string "seven")] = .error "expected Int" ∧
      (∃ fragment, (Sql.target.fragment (.alternative countOrText .any)).Succeeds [] fragment) ∧
      ∀ c ∈ countOrText.dropLast,
        ∃ v, c.eval lenientHost (fun _ => some (.string "seven")) = .ok v := by
  have henv : ∀ name, ((fun _ => some (.string "seven") : Env (Option Literal)) name).isSome = true :=
    fun _ => rfl
  obtain ⟨fragment, hfragment⟩ :
      ∃ fragment, (Sql.target.fragment (.alternative countOrText .any)).Succeeds [] fragment :=
    ⟨_, rfl⟩
  obtain ⟨hsound, haccepted⟩ := eval_ok_of_not_mayRaise lenientHost_onlySelectorsRaise henv
  exact ⟨⟨rfl, hsound countOrNull rfl rfl⟩, rfl, ⟨fragment, hfragment⟩,
    haccepted countOrText .any [] fragment rfl hfragment⟩

end Retarget
