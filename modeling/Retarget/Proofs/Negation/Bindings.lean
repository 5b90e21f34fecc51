import Retarget.Proofs.Lowered
import Retarget.Proofs.Parsing.WellFormed

set_option autoImplicit false

/-!
# Bindings of lowered forms

The syntax asks for a name in every `let`, and lowering adds only bindings of one name. So no `let` of
the lowered form of a source is empty, and a target that writes bindings around a body never writes
the body bare.

## Main definitions

* `Retarget.Ir.LetsBind` — every `let` of a lowered form binds a name.

## Main results

* `Retarget.letsBind_of_lowerSource` — so it is in the lowered form of a source.
-/

namespace Retarget

variable {α : Type} {K : Token.Kind → Prop}

/-- Every `let` of the lowered form binds a name. -/
inductive Ir.LetsBind : Ir → Prop
  | literal {value : Literal} {ty : Ty} : LetsBind (.literal value ty)
  | var {name : String} {ty : Ty} : LetsBind (.var name ty)
  | letIn {b : String × Ir} {bindings : List (String × Ir)} {body : Ir} {ty : Ty} :
      (∀ c ∈ b :: bindings, LetsBind c.2) → LetsBind body → LetsBind (.letIn (b :: bindings) body ty)
  | lambda {params : List String} {body : Ir} {ty : Ty} : LetsBind body →
      LetsBind (.lambda params body ty)
  | cond {test yes no : Ir} {ty : Ty} : LetsBind test → LetsBind yes → LetsBind no →
      LetsBind (.cond test yes no ty)
  | alternative {candidates : List Ir} {ty : Ty} : (∀ c ∈ candidates, LetsBind c) →
      LetsBind (.alternative candidates ty)
  | call {name : String} {args : List Ir} {argTypes : List Ty} {ty : Ty} :
      (∀ a ∈ args, LetsBind a) → LetsBind (.call name args argTypes ty)

/-! ## Parts that lowering puts together -/

namespace Ir.LetsBind

/-- A call of one argument. -/
lemma callOne {name : String} {a : Ir} {argTypes : List Ty} {ty : Ty} (h : a.LetsBind) :
    (Ir.call name [a] argTypes ty).LetsBind :=
  .call (List.forall_mem_singleton.mpr h)

/-- A call of two arguments. -/
lemma callTwo {name : String} {a b : Ir} {argTypes : List Ty} {ty : Ty} (ha : a.LetsBind)
    (hb : b.LetsBind) : (Ir.call name [a, b] argTypes ty).LetsBind :=
  .call (List.forall_mem_cons.mpr ⟨ha, List.forall_mem_singleton.mpr hb⟩)

/-- The name `it` is a name that is bound. -/
lemma bindIt {value body : Ir} (hvalue : value.LetsBind) (hbody : body.LetsBind) :
    (Ir.bind [(itName, value)] body).LetsBind :=
  .letIn (List.forall_mem_singleton.mpr hvalue) hbody

/-- Softening keeps all bindings. -/
lemma soften {ir : Ir} (h : ir.LetsBind) : ir.soften.LetsBind := by
  induction h with
  | literal => exact .literal
  | var => exact .var
  | letIn hvalues _ _ ih => exact .letIn hvalues ih
  | lambda hbody => exact .lambda hbody
  | cond htest _ _ _ ihyes ihno => exact .cond htest ihyes ihno
  | alternative h => exact .alternative h
  | @call name args argTypes ty hargs =>
    rw [Ir.soften]
    split_ifs
    · exact .literal
    · cases raisingStem? name with
      | none => exact .call hargs
      | some stem => exact .call fun a ha => hargs a (List.mem_of_mem_take ha)

end Ir.LetsBind

mutual

/-- The candidates that a candidate stands for keep its bindings. -/
lemma Ir.LetsBind.softened : ∀ {ir : Ir}, ir.LetsBind → ∀ c ∈ ir.softened, c.LetsBind
  | .alternative _ _, .alternative h, c, hc => letsBind_softenedAll h c hc
  | .literal _ _, h, _, hc | .var _ _, h, _, hc | .letIn _ _ _, h, _, hc
  | .lambda _ _ _, h, _, hc | .cond _ _ _ _, h, _, hc | .call _ _ _ _, h, _, hc => by
    obtain rfl := List.mem_singleton.mp hc
    exact h.soften

/-- The candidates that a row of candidates stands for keep their bindings. -/
lemma letsBind_softenedAll :
    ∀ {irs : List Ir}, (∀ ir ∈ irs, ir.LetsBind) → ∀ c ∈ softenedAll irs, c.LetsBind
  | [], _, c, hc => by cases hc
  | ir :: irs, h, c, hc => by
    obtain ⟨hfirst, hrest⟩ := List.forall_mem_cons.mp h
    rcases List.mem_append.mp hc with hc | hc
    · exact hfirst.softened c hc
    · exact letsBind_softenedAll hrest c hc

end

section Conditions

variable {tests : List (Condition Ir)} (htests : ∀ c ∈ tests, c.test.LetsBind)

include htests

/-- Tests in front of a body bind nothing. -/
lemma letsBind_failFast {body : Ir} (hbody : body.LetsBind) (label : String) :
    (failFast tests body label).LetsBind := by
  unfold failFast
  generalize body.ty = ty
  induction tests with
  | nil => exact hbody
  | cons c cs ih =>
    obtain ⟨hfirst, hrest⟩ := List.forall_mem_cons.mp htests
    exact .cond hfirst (ih hrest) (.callOne .literal)

/-- Tests that hold together bind nothing. -/
lemma letsBind_allOf : (allOf tests).LetsBind := by
  cases tests with
  | nil => exact .literal
  | cons c cs =>
    obtain ⟨hfirst, hrest⟩ := List.forall_mem_cons.mp htests
    rw [allOf]
    clear htests
    generalize c.test = conjunction at hfirst
    induction cs generalizing conjunction with
    | nil => exact hfirst
    | cons d ds ih =>
      obtain ⟨hnext, hrest⟩ := List.forall_mem_cons.mp hrest
      exact ih hrest _ (.callTwo hfirst hnext)

end Conditions

section Selectors

variable {value : Ir} {message : Option Ir} (hvalue : value.LetsBind)
  (hmessage : ∀ m ∈ message, m.LetsBind)

include hvalue hmessage

/-- The call of a selector binds nothing. -/
lemma letsBind_dress (s : Selectable) (policy : SelectPolicy) :
    (dress s policy value message).LetsBind := by
  cases policy with
  | raise | orNull | check => exact .callOne hvalue
  | assert =>
    refine .callTwo hvalue ?_
    cases message with
    | none => exact .literal
    | some m => exact hmessage m rfl

/-- The call of a selector with tests binds the name `it`. -/
lemma letsBind_constrained (s : Selectable) (policy : SelectPolicy) {tests : List (Condition Ir)}
    (htests : ∀ c ∈ tests, c.test.LetsBind) :
    (constrained s policy tests value message).LetsBind := by
  have hdress (policy : SelectPolicy) : (dress s policy value none).LetsBind :=
    letsBind_dress hvalue (by simp) s policy
  cases policy with
  | raise | assert =>
    exact .bindIt (letsBind_dress hvalue hmessage s _) (letsBind_failFast htests .var _)
  | orNull =>
    exact .bindIt (hdress .orNull)
      (.cond (.callTwo .var .literal) .literal (.cond (letsBind_allOf htests) .var .literal))
  | check => exact .cond (hdress .check) (.bindIt (hdress .raise) (letsBind_allOf htests)) .literal

end Selectors

/-! ## Lowering -/

/-- A variable is lowered to a form that binds nothing. -/
lemma letsBind_of_lowerVariable {scope : Scope} {name : String} {ir : Ir}
    (h : lowerVariable scope name = .ok ir) : ir.LetsBind := by
  unfold lowerVariable at h
  split at h
  · cases h
    exact .var
  · split at h
    · cases h
      exact .call (List.forall_mem_nil _)
    · cases h

mutual

/-- Every `let` of the lowered form of a well-formed expression binds a name.

**Proof sketch.** Recursion over the expression, as it is lowered. A `let` of the source binds a
name by the syntax, and the only other one comes of a check, which binds `it`. -/
theorem letsBind_of_lower :
    ∀ (e : Expr α) {scope : Scope} {recover : Bool} {ir : Ir}, e.WellFormed K →
      e.lower scope recover = .ok ir → ir.LetsBind
  | .literal _ value, _, _, _, _, h => by
    cases h
    exact .literal
  | .var _ name, _, _, _, _, h => letsBind_of_lowerVariable h
  | .array _ items, _, _, _, .array hitems, h => by
    obtain ⟨irs, hirs, h⟩ := exists_of_bind_eq_ok h
    cases h
    exact .call (letsBind_of_lowerAll items hitems hirs)
  | .record _ fields, _, _, _, .record _ hfields, h => by
    obtain ⟨irs, hirs, h⟩ := exists_of_bind_eq_ok h
    cases h
    refine .call fun a ha => ?_
    obtain ⟨⟨name, value⟩, hfield, ha⟩ := List.mem_flatMap.mp ha
    have hvalue : value.LetsBind := letsBind_of_lowerFields fields hfields hirs _ hfield
    rcases List.mem_cons.mp ha with rfl | ha
    · exact .literal
    · obtain rfl := List.mem_singleton.mp ha
      exact hvalue
  | .unary _ op operand, _, _, _, .unary hoperand, h => by
    obtain ⟨x, hx, h⟩ := exists_of_bind_eq_ok h
    cases h
    exact .callOne (letsBind_of_lower operand hoperand hx)
  | .binary _ op lhs rhs, _, _, _, .binary hlhs hrhs, h => by
    obtain ⟨x, hx, h⟩ := exists_of_bind_eq_ok h
    obtain ⟨y, hy, h⟩ := exists_of_bind_eq_ok h
    cases h
    exact .callTwo (letsBind_of_lower lhs hlhs hx) (letsBind_of_lower rhs hrhs hy)
  | .cond _ test yes no, _, _, _, .cond htest hyes hno, h => by
    obtain ⟨x, hx, h⟩ := exists_of_bind_eq_ok h
    obtain ⟨y, hy, h⟩ := exists_of_bind_eq_ok h
    obtain ⟨z, hz, h⟩ := exists_of_bind_eq_ok h
    cases h
    exact .cond (letsBind_of_lower test htest hx) (letsBind_of_lower yes hyes hy)
      (letsBind_of_lower no hno hz)
  | .letIn _ [] body, _, _, _, .letIn hne _ _ _, _ => absurd rfl hne
  | .letIn _ ((name, e) :: bindings) body, _, _, _, .letIn _ _ hvalues hbody, h => by
    obtain ⟨⟨bound, inner⟩, hbound, h⟩ := exists_of_bind_eq_ok h
    obtain ⟨x, hx, h⟩ := exists_of_bind_eq_ok h
    cases h
    obtain ⟨y, hy, hbound⟩ := exists_of_bind_eq_ok hbound
    obtain ⟨⟨ys, inner⟩, hys, hbound⟩ := exists_of_bind_eq_ok hbound
    cases hbound
    obtain ⟨he, hvalues⟩ := List.forall_mem_cons.mp hvalues
    exact .letIn (List.forall_mem_cons.mpr ⟨letsBind_of_lower e he hy,
      letsBind_of_lowerBindings bindings hvalues hys⟩) (letsBind_of_lower body hbody hx)
  | .lambda _ params body, _, _, _, .lambda _ _ hbody, h => by
    obtain ⟨x, hx, h⟩ := exists_of_bind_eq_ok h
    cases h
    exact .lambda (letsBind_of_lower body hbody hx)
  | .call _ callee args, _, _, _, .call hcallee hargs, h => by
    obtain ⟨irs, hirs, h⟩ := exists_of_bind_eq_ok h
    have hrow := letsBind_of_lowerAll args hargs hirs
    split at h
    · cases h
      exact .call hrow
    · obtain ⟨x, hx, h⟩ := exists_of_bind_eq_ok h
      cases h
      exact .call (List.forall_mem_cons.mpr ⟨letsBind_of_lower callee hcallee hx, hrow⟩)
  | .member _ object field, _, _, _, .member _ hobject, h => by
    obtain ⟨x, hx, h⟩ := exists_of_bind_eq_ok h
    cases h
    exact .callTwo (letsBind_of_lower object hobject hx) .literal
  | .pipe _ value function args, _, _, _, .pipe _ hvalue hargs, h => by
    obtain ⟨x, hx, h⟩ := exists_of_bind_eq_ok h
    obtain ⟨irs, hirs, h⟩ := exists_of_bind_eq_ok h
    have hfirst : x.LetsBind := letsBind_of_lower value hvalue hx
    have hall : ∀ a ∈ x :: irs, a.LetsBind :=
      List.forall_mem_cons.mpr ⟨hfirst, letsBind_of_lowerAll args hargs hirs⟩
    split at h
    · cases h
      exact letsBind_dress hfirst (by simp) _ .raise
    · split at h
      · cases h
        exact .call (List.forall_mem_cons.mpr ⟨.var, hall⟩)
      · cases h
        exact .call hall
  | .alternative _ candidates, _, _, _, .alternative _ hcandidates, h => by
    obtain ⟨irs, hirs, h⟩ := exists_of_bind_eq_ok h
    cases h
    exact .alternative (letsBind_of_lowerCandidates candidates hcandidates hirs)
  | .select _ typeName policy constraints args, _, _, _, .select _ _ _ hconstraints hargs, h => by
    obtain ⟨⟨value, message⟩, hselected, h⟩ := exists_of_bind_eq_ok h
    obtain ⟨hvalue, hmessage⟩ := letsBind_of_lowerSelected args hargs hselected
    dsimp only at h
    split at h
    · cases h
    · split at h
      · cases h
        exact letsBind_dress hvalue hmessage _ _
      · obtain ⟨tests, htests, h⟩ := exists_of_bind_eq_ok h
        cases h
        exact letsBind_constrained hvalue hmessage _ _
          (letsBind_of_lowerConditions _ hconstraints htests)
  | .guarded _ .guard conditions body, _, _, _, .guarded _ hconditions hbody, h => by
    obtain ⟨tests, htests, h⟩ := exists_of_bind_eq_ok h
    obtain ⟨x, hx, h⟩ := exists_of_bind_eq_ok h
    cases h
    exact letsBind_failFast (letsBind_of_lowerConditions conditions hconditions htests)
      (letsBind_of_lower body hbody hx) _
  | .guarded _ .check conditions body, _, _, _, .guarded _ hconditions hbody, h => by
    obtain ⟨x, hx, h⟩ := exists_of_bind_eq_ok h
    obtain ⟨tests, htests, h⟩ := exists_of_bind_eq_ok h
    cases h
    exact .bindIt (letsBind_of_lower body hbody hx)
      (letsBind_failFast (letsBind_of_lowerConditions conditions hconditions htests) .var _)

/-- The same for a row of expressions. -/
theorem letsBind_of_lowerAll :
    ∀ (es : List (Expr α)) {scope : Scope} {irs : List Ir}, (∀ e ∈ es, e.WellFormed K) →
      lowerAll scope es = .ok irs → ∀ ir ∈ irs, ir.LetsBind
  | [], _, _, _, h => by
    cases h
    exact List.forall_mem_nil _
  | e :: es, _, _, hes, h => by
    obtain ⟨x, hx, h⟩ := exists_of_bind_eq_ok h
    obtain ⟨xs, hxs, h⟩ := exists_of_bind_eq_ok h
    cases h
    obtain ⟨he, hes⟩ := List.forall_mem_cons.mp hes
    exact List.forall_mem_cons.mpr ⟨letsBind_of_lower e he hx, letsBind_of_lowerAll es hes hxs⟩

/-- The same for the fields of a record. -/
theorem letsBind_of_lowerFields :
    ∀ (es : List (String × Expr α)) {scope : Scope} {irs : List (String × Ir)},
      (∀ p ∈ es, p.2.WellFormed K) → lowerFields scope es = .ok irs → ∀ p ∈ irs, p.2.LetsBind
  | [], _, _, _, h => by
    cases h
    exact List.forall_mem_nil _
  | (_, e) :: es, _, _, hes, h => by
    obtain ⟨x, hx, h⟩ := exists_of_bind_eq_ok h
    obtain ⟨xs, hxs, h⟩ := exists_of_bind_eq_ok h
    cases h
    obtain ⟨he, hes⟩ := List.forall_mem_cons.mp hes
    exact List.forall_mem_cons.mpr ⟨letsBind_of_lower e he hx, letsBind_of_lowerFields es hes hxs⟩

/-- The same for the values of bindings. -/
theorem letsBind_of_lowerBindings :
    ∀ (es : List (String × Expr α)) {scope inner : Scope} {irs : List (String × Ir)},
      (∀ p ∈ es, p.2.WellFormed K) → lowerBindings scope es = .ok (irs, inner) →
        ∀ b ∈ irs, b.2.LetsBind
  | [], _, _, _, _, h => by
    cases h
    exact List.forall_mem_nil _
  | (_, e) :: es, _, _, _, hes, h => by
    obtain ⟨x, hx, h⟩ := exists_of_bind_eq_ok h
    obtain ⟨⟨xs, inner⟩, hxs, h⟩ := exists_of_bind_eq_ok h
    cases h
    obtain ⟨he, hes⟩ := List.forall_mem_cons.mp hes
    exact List.forall_mem_cons.mpr ⟨letsBind_of_lower e he hx, letsBind_of_lowerBindings es hes hxs⟩

/-- The same for conditions. -/
theorem letsBind_of_lowerConditions :
    ∀ (es : List (Condition (Expr α))) {scope : Scope} {irs : List (Condition Ir)},
      (∀ c ∈ es, c.test.WellFormed K) → lowerConditions scope es = .ok irs →
        ∀ c ∈ irs, c.test.LetsBind
  | [], _, _, _, h => by
    cases h
    exact List.forall_mem_nil _
  | ⟨_, e⟩ :: es, _, _, hes, h => by
    obtain ⟨x, hx, h⟩ := exists_of_bind_eq_ok h
    obtain ⟨xs, hxs, h⟩ := exists_of_bind_eq_ok h
    cases h
    obtain ⟨he, hes⟩ := List.forall_mem_cons.mp hes
    exact List.forall_mem_cons.mpr
      ⟨letsBind_of_lower e he hx, letsBind_of_lowerConditions es hes hxs⟩

/-- The same for the candidates of an alternative. -/
theorem letsBind_of_lowerCandidates :
    ∀ (es : List (Expr α)) {scope : Scope} {irs : List Ir}, (∀ e ∈ es, e.WellFormed K) →
      lowerCandidates scope es = .ok irs → ∀ ir ∈ irs, ir.LetsBind
  | [], _, _, _, h => by
    cases h
    exact List.forall_mem_nil _
  | [e], _, _, hes, h => by
    obtain ⟨x, hx, h⟩ := exists_of_bind_eq_ok h
    cases h
    exact List.forall_mem_singleton.mpr (letsBind_of_lower e (hes e (by simp)) hx)
  | e :: e' :: es, _, _, hes, h => by
    obtain ⟨x, hx, h⟩ := exists_of_bind_eq_ok h
    obtain ⟨xs, hxs, h⟩ := exists_of_bind_eq_ok h
    obtain rfl : x.softened ++ xs = _ := Except.ok.inj h
    obtain ⟨he, hes⟩ := List.forall_mem_cons.mp hes
    have hrest := letsBind_of_lowerCandidates (e' :: es) hes hxs
    exact List.forall_mem_append.mpr ⟨(letsBind_of_lower e he hx).softened, hrest⟩

/-- The same for the value and the message of a selector. -/
theorem letsBind_of_lowerSelected :
    ∀ (es : List (Expr α)) {scope : Scope} {typeName : String} {silent : Bool} {value : Ir}
      {message : Option Ir}, (∀ e ∈ es, e.WellFormed K) →
      lowerSelected scope typeName silent es = .ok (value, message) →
        value.LetsBind ∧ ∀ m ∈ message, m.LetsBind
  | [], _, _, _, _, _, _, h => by cases h
  | [e], _, _, silent, _, _, hes, h => by
    obtain ⟨x, hx, h⟩ := exists_of_bind_eq_ok h
    have hvalue := letsBind_of_lower e (hes e (by simp)) hx
    cases silent <;> cases h <;> exact ⟨hvalue, by simp⟩
  | e :: m :: _, _, _, silent, _, _, hes, h => by
    obtain ⟨x, hx, h⟩ := exists_of_bind_eq_ok h
    have hvalue := letsBind_of_lower e (hes e (by simp)) hx
    cases silent with
    | true =>
      cases h
      exact ⟨hvalue, by simp⟩
    | false =>
      obtain ⟨word, hword, h⟩ := exists_of_bind_eq_ok h
      obtain ⟨y, hy, hword⟩ := exists_of_bind_eq_ok hword
      cases hword
      cases h
      exact ⟨hvalue, by simpa using letsBind_of_lower m (hes m (by simp)) hy⟩

end

/-- Every `let` of the lowered form of a source binds a name. -/
theorem letsBind_of_lowerSource {source : String} {ir : Ir} (h : lowerSource source = .ok ir) :
    ir.LetsBind := by
  obtain ⟨e, hparse, htransform⟩ := exists_of_lowerSource h
  have hwellFormed : e.WellFormed fun _ => True :=
    wellFormed_of_parse (fun _ _ _ _ => trivial) hparse
  exact letsBind_of_lower e hwellFormed htransform

end Retarget
