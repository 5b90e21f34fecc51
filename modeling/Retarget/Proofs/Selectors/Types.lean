import Retarget.Proofs.Selectors.Outcome
import Retarget.Proofs.Types.Join

set_option autoImplicit false

/-!
# Types of selectors

No construct gives a lowered selector its type: the type is what the joins over its bindings and
conditionals come to. For the policies that hand on the dressed value it is the type that the selector
names, whatever the constraints. For a check it is the common type of the conjunction of the
constraints and the boolean behind it, and a conjunction of one test is that test.

## Main results

* `Retarget.ty_failFast`, `Retarget.ty_allOf` — the types of a row of conditions.
* `Retarget.ty_selected_dressed`, `Retarget.ty_selected_check` — the types of selectors by policy.
* `Retarget.ty_selector` — the type of a selector, and when that of a check is not boolean.
-/

namespace Retarget

/-! ## Common types -/

/-- The common type of a type and the booleans. -/
lemma Ty.join_bool (t : Ty) :
    t.join .bool = if t.tag = .bool ∨ t.tag = .null then .bool else .any := by
  cases t with
  | array item => cases item <;> rfl
  | _ => rfl

/-- The types that selectors name are the same as themselves. -/
lemma Selectable.join_self : ∀ s ∈ selectables, s.ty.join s.ty = s.ty := by
  intro s hs
  simp only [selectables, List.mem_cons, List.not_mem_nil, or_false] at hs
  rcases hs with rfl | rfl | rfl | rfl | rfl | rfl | rfl <;> rfl

/-! ## Conditions -/

/-- Conditions have the type of their body where it is the same as itself. A record type that lists
a field twice is not. -/
lemma ty_failFast (tests : List (Condition Ir)) (body : Ir) (hbody : body.ty.join body.ty = body.ty)
    (label : String) : (failFast tests body label).ty = body.ty := by
  induction tests with
  | nil => rfl
  | cons t ts ih =>
    show (failFast ts body label).ty.join body.ty = body.ty
    rw [ih, hbody]

/-- A conjunction is boolean unless it is that of one test, which stands as it is. -/
lemma ty_allOf {tests : List (Condition Ir)} (h : ∀ t, tests ≠ [t]) : (allOf tests).ty = .bool := by
  match tests with
  | [] => rfl
  | [t] => exact absurd rfl (h t)
  | t :: u :: ts =>
    rw [allOf, List.foldl_cons]
    -- From the second test on, each step of the fold is a call of the conjunction.
    have hfirst : (Ir.apply "and" [t.test, u.test] .bool).ty = .bool := rfl
    generalize Ir.apply "and" [t.test, u.test] .bool = conjunction at hfirst
    clear h
    induction ts generalizing conjunction with
    | nil => exact hfirst
    | cons v vs ih => exact ih _ rfl

/-! ## Policies -/

section Policies

variable {s : Selectable} {policy : SelectPolicy}

/-- A selector that hands on the dressed value has the type that it names. -/
lemma ty_selected_dressed (hs : s ∈ selectables) (hpolicy : policy ≠ .check)
    (tests : List (Condition Ir)) (value : Ir) (message : Option Ir) :
    (selected s policy tests value message).ty = s.ty := by
  cases tests with
  | nil => exact ty_dress s hpolicy value message
  | cons t ts =>
    have hfailFast (label : String) : (failFast (t :: ts) (.var itName s.ty) label).ty = s.ty :=
      ty_failFast (t :: ts) (.var itName s.ty) (s.join_self hs) label
    cases policy with
    | check => exact absurd rfl hpolicy
    | raise => exact hfailFast _
    | assert => exact hfailFast _
    | orNull =>
      show Ty.null.join (s.ty.join .null) = s.ty
      rw [Ty.null_join, Ty.join_null]

/-- A check is boolean or of unknown type, and it is boolean unless it has one test and that is neither
boolean nor null.

**Proof sketch.** With constraints the type is the join of the conjunction's type with the boolean
one. A conjunction of two or more tests is a call of `and`, which is boolean; one test is left as it
is. -/
lemma ty_selected_check (s : Selectable) (tests : List (Condition Ir)) (value : Ir)
    (message : Option Ir) :
    let ty := (selected s .check tests value message).ty
    (ty = .bool ∨ ty = .any) ∧
      (ty = .bool ↔ ∀ t, tests = [t] → t.test.ty.tag = .bool ∨ t.test.ty.tag = .null) := by
  have hty : ∀ t ts, (selected s .check (t :: ts) value message).ty =
      (allOf (t :: ts)).ty.join .bool := fun _ _ => rfl
  by_cases hone : ∃ t, tests = [t]
  · obtain ⟨t, rfl⟩ := hone
    have hjoin : (selected s .check [t] value message).ty = _ := (hty t []).trans (Ty.join_bool _)
    simp only [hjoin, List.cons.injEq, and_true, forall_eq']
    split_ifs with htag
    · exact ⟨.inl rfl, iff_of_true rfl htag⟩
    · exact ⟨.inr rfl, iff_of_false nofun htag⟩
  · have hbool : (selected s .check tests value message).ty = .bool := by
      cases tests with
      | nil => rfl
      | cons t ts => rw [hty, ty_allOf fun u hu => hone ⟨u, hu⟩, Ty.join_bool, if_pos (.inl rfl)]
    exact ⟨.inl hbool, iff_of_true hbool fun t ht => absurd ⟨t, ht⟩ hone⟩

end Policies

/-! ## Lowered selectors -/

section Lowering

variable {α : Type} {scope : Scope} {recover : Bool} {note : α} {typeName : String}
  {policy : SelectPolicy} {constraints : List (Condition (Expr α))} {args : List (Expr α)} {ir : Ir}
  {s : Selectable}

/-- What lowering makes of a selector that it accepts. Only a selector that raises is lowered with
another policy, and then not with that of a check.

**Proof sketch.** Lowering is followed to its end: the type is found, the constraints lower in the
scope of `it`, and the policy is replaced only where a failure is recovered. -/
lemma exists_of_lower_select (hs : selectable? typeName = some s)
    (h : (Expr.select note typeName policy constraints args).lower scope recover = .ok ir) :
    ∃ tests value message lowered,
      lowerConditions ((itName, s.ty) :: scope) constraints = .ok tests ∧
      (lowered = .check ↔ policy = .check) ∧ ir = selected s lowered tests value message := by
  rw [lower_select] at h
  obtain ⟨⟨value, message⟩, -, h⟩ := exists_of_bind_eq_ok h
  simp only [select, hs] at h
  have hpolicy : (if recover && policy != policy.recoverable then SelectPolicy.orNull else policy) =
      .check ↔ policy = .check := by
    cases policy <;> cases recover <;> decide
  cases constraints with
  | nil =>
    cases h
    exact ⟨[], value, message, _, rfl, hpolicy, rfl⟩
  | cons c cs =>
    cases htests : lowerConditions ((itName, s.ty) :: scope) (c :: cs) with
    | error e =>
      rw [htests] at h
      cases h
    | ok tests =>
      rw [htests] at h
      cases h
      obtain ⟨test, -, htests⟩ := exists_of_bind_eq_ok htests
      obtain ⟨rest, -, htests⟩ := exists_of_bind_eq_ok htests
      cases htests
      exact ⟨_, value, message, _, rfl, hpolicy, rfl⟩

/-- A selector that hands on the dressed value has the type that it names, in every scope and whatever
its constraints. A check is boolean without constraints, with two or more of them, and with one whose
test is boolean or null; with one whose test has another type, its own type is unknown.

**Proof sketch.** Lowering is inverted (`exists_of_lower_select`): the policy stays a check or stays
none, and the type of what is made is `ty_selected_dressed` or `ty_selected_check`. -/
theorem ty_selector (hs : selectable? typeName = some s)
    (h : (Expr.select note typeName policy constraints args).lower scope recover = .ok ir) :
    (policy ≠ .check → ir.ty = s.ty) ∧
      (policy = .check → ∃ tests,
        lowerConditions ((itName, s.ty) :: scope) constraints = .ok tests ∧
        (ir.ty = .bool ∨ ir.ty = .any) ∧
        (ir.ty = .bool ↔
          ∀ t, tests = [t] → t.test.ty.tag = .bool ∨ t.test.ty.tag = .null)) := by
  obtain ⟨tests, value, message, lowered, htests, hlowered, rfl⟩ := exists_of_lower_select hs h
  refine ⟨fun hpolicy => ?_, fun hpolicy => ⟨tests, htests, ?_⟩⟩
  · have hmem : s ∈ selectables := List.mem_of_find?_eq_some hs
    exact ty_selected_dressed hmem (mt hlowered.mp hpolicy) tests value message
  · obtain rfl := hlowered.mpr hpolicy
    exact ty_selected_check s tests value message

end Lowering

/-- A selector with one constraint, which reads a field of the input. -/
def memberConstrained (policy : SelectPolicy) : Expr Unit :=
  .select () "Int" policy [⟨none, .member () (.var () "_") "ok"⟩] [.var () "_"]

/-- The type of a field of the input is not known, and so neither is that of the check; another policy
keeps the type that the selector names. -/
theorem ty_selector_memberConstrained :
    ∃ checked kept, transform (memberConstrained .check) = .ok checked ∧
      transform (memberConstrained .orNull) = .ok kept ∧
      checked.ty ≠ .bool ∧ checked.ty = .any ∧ kept.ty = .int := by
  have hint : selectable? "Int" = some ⟨"Int", "int", .int, .int⟩ := rfl
  obtain ⟨checked, hchecked⟩ : ∃ ir, transform (memberConstrained .check) = .ok ir := ⟨_, rfl⟩
  obtain ⟨kept, hkept⟩ : ∃ ir, transform (memberConstrained .orNull) = .ok ir := ⟨_, rfl⟩
  obtain ⟨tests, htests, hty, hbool⟩ := (ty_selector hint hchecked).2 rfl
  have hother : checked.ty ≠ .bool := by
    intro h
    cases htests
    rcases hbool.mp h _ rfl with htag | htag <;> cases htag
  exact ⟨checked, kept, hchecked, hkept, hother, hty.resolve_left hother,
    (ty_selector hint hkept).1 (by decide)⟩

end Retarget
