import Retarget.Lowering
import Mathlib.Tactic.Common

set_option autoImplicit false

/-!
# Scopes and types of lowered forms

Lowering leaves no name unbound and gives every node the type that its parts determine. Later
rewriting keeps this: a candidate of an alternative that another one follows is softened after it
was typed, and only the nulls that softening puts in place of failures carry a type of their own.

## Main definitions

* `Retarget.Scope.bound` — a scope with the names of bindings.
* `Retarget.Ir.Typed` — all names of a lowered form are in scope, and its types fit together.

## Main results

* `Retarget.Ir.Typed.softened` — softening a candidate keeps its scopes and types.
* `Retarget.typed_of_lower` — what is lowered in a scope is typed in it.
* `Retarget.typed_of_transform` — a lowered expression is typed where only the input is in scope.
-/

namespace Retarget

variable {α : Type}

/-- A step that succeeds and what follows from it. -/
lemma exists_of_bind_eq_ok {ε β γ : Type} {x : Except ε β} {f : β → Except ε γ} {c : γ}
    (h : (x >>= f) = .ok c) : ∃ b, x = .ok b ∧ f b = .ok c := by
  cases x with
  | error e => cases h
  | ok b => exact ⟨b, rfl, h⟩

/-! ## Typed forms -/

/-- The scope inside functions of the parameters, about whose values nothing is known. -/
def Scope.withParams (scope : Scope) (params : List String) : Scope :=
  (params.map fun p => (p, Ty.any)).reverse ++ scope

/-- The scope inside the bindings: their names have the types of their values. -/
def Scope.bound (scope : Scope) (bindings : List (String × Ir)) : Scope :=
  (bindings.map fun b => (b.1, b.2.ty)).reverse ++ scope

/-- All names of a lowered form are in scope with the types of their innermost binders, and the type
of every node is the one that its parts determine. Where the value of the form is a candidate that
another one follows (`recovered`), a failure in result position has been replaced by a null of its
type. -/
inductive Ir.Typed : Scope → Bool → Ir → Prop
  | literal {scope : Scope} {recovered : Bool} (value : Literal) :
      Typed scope recovered (.literal value value.ty)
  | replaced {scope : Scope} (ty : Ty) : Typed scope true (.literal .null ty)
  | var {scope : Scope} {recovered : Bool} {name : String} {ty : Ty} :
      scope.lookup name = some ty → Typed scope recovered (.var name ty)
  | letIn {scope : Scope} {recovered : Bool} {bindings : List (String × Ir)} {body : Ir} :
      (∀ before name value after, bindings = before ++ (name, value) :: after →
        Typed (scope.bound before) false value) →
      Typed (scope.bound bindings) recovered body →
      Typed scope recovered (.letIn bindings body body.ty)
  | lambda {scope : Scope} {recovered : Bool} {params : List String} {body : Ir} :
      Typed (scope.withParams params) false body →
      Typed scope recovered (.lambda params body .function)
  | cond {scope : Scope} {recovered : Bool} {test yes no : Ir} : Typed scope false test →
      Typed scope recovered yes → Typed scope recovered no →
      Typed scope recovered (.cond test yes no (yes.ty.join no.ty))
  | alternative {scope : Scope} {recovered : Bool} {candidates : List Ir} :
      (∀ c ∈ candidates.dropLast, Typed scope true c) →
      (∀ c ∈ candidates.getLast?, Typed scope false c) →
      Typed scope recovered (.alternative candidates (Ty.joinAll (candidates.map Ir.ty)))
  | call {scope : Scope} {recovered : Bool} {name : String} {args : List Ir} {ty : Ty} :
      (∀ a ∈ args, Typed scope false a) →
      Typed scope recovered (.call name args (args.map Ir.ty) ty)

namespace Ir.Typed

variable {scope : Scope} {recovered : Bool}

/-! ## Parts that lowering puts together -/

/-- The call of a name on typed arguments. -/
lemma apply {args : List Ir} (h : ∀ a ∈ args, a.Typed scope false) (name : String) (ty : Ty) :
    (Ir.apply name args ty).Typed scope recovered :=
  .call h

/-- A string has its type. -/
lemma ofString (text : String) : (Ir.ofString text).Typed scope recovered :=
  .literal (.string text)

/-- A failure has the type that it stands for. -/
lemma fail (message : String) (ty : Ty) : (Ir.fail message ty).Typed scope recovered :=
  apply (List.forall_mem_singleton.mpr (ofString message)) _ _

/-- One binding over a body. -/
lemma bindOne {name : String} {value body : Ir} (hvalue : value.Typed scope false)
    (hbody : body.Typed ((name, value.ty) :: scope) recovered) :
    (Ir.bind [(name, value)] body).Typed scope recovered := by
  refine .letIn (fun before n v after heq => ?_) hbody
  cases before with
  | nil =>
    cases heq
    exact hvalue
  | cons b before => simp at heq

/-- The value that constraints are about. -/
lemma it (ty : Ty) : (Ir.var itName ty).Typed ((itName, ty) :: scope) recovered :=
  .var (List.lookup_cons_self)

/-! ## Softening -/

/-- Softening keeps the type of a node. -/
lemma ty_soften (ir : Ir) : ir.soften.ty = ir.ty := by
  fun_cases Ir.soften ir <;> rfl

/-- Softening keeps scopes and types.

**Proof sketch.** By induction on the typing. Only calls change: a failure is replaced by null of
its type, and a raising selector by its twin, which drops the message and keeps the type. -/
lemma soften {ir : Ir} (h : ir.Typed scope recovered) : ir.soften.Typed scope true := by
  induction h with
  | literal value => exact .literal value
  | replaced ty => exact .replaced ty
  | var hname => exact .var hname
  | letIn hbindings _ _ ih =>
    rw [Ir.soften, ← ty_soften]
    exact .letIn hbindings ih
  | lambda hbody => exact .lambda hbody
  | @cond _ _ _ yes no htest _ _ _ ihyes ihno =>
    rw [Ir.soften, ← ty_soften yes, ← ty_soften no]
    exact .cond htest ihyes ihno
  | alternative hinit hlast => exact .alternative hinit hlast
  | @call _ _ name args ty hargs =>
    rw [Ir.soften]
    split_ifs with hfail
    · exact .replaced ty
    · cases raisingStem? name with
      | none => exact .call hargs
      | some stem => exact apply (fun a ha => hargs a (List.mem_of_mem_take ha)) _ ty

end Ir.Typed

mutual

/-- The candidates that a candidate stands for keep its scopes and types. -/
lemma Ir.Typed.softened {scope : Scope} :
    ∀ {ir : Ir} {recovered : Bool}, ir.Typed scope recovered →
      ∀ c ∈ ir.softened, c.Typed scope true
  | .alternative candidates _, _, .alternative hinit hlast, c, hc =>
    typed_softenedAll hinit hlast c hc
  | .literal value ty, _, h, c, hc => by
    obtain rfl := List.mem_singleton.mp hc
    exact h.soften
  | .var name ty, _, h, c, hc => by
    obtain rfl := List.mem_singleton.mp hc
    exact h.soften
  | .letIn bindings body ty, _, h, c, hc => by
    obtain rfl := List.mem_singleton.mp hc
    exact h.soften
  | .lambda params body ty, _, h, c, hc => by
    obtain rfl := List.mem_singleton.mp hc
    exact h.soften
  | .cond test yes no ty, _, h, c, hc => by
    obtain rfl := List.mem_singleton.mp hc
    exact h.soften
  | .call name args argTypes ty, _, h, c, hc => by
    obtain rfl := List.mem_singleton.mp hc
    exact h.soften

/-- The candidates that a row of candidates stands for keep its scopes and types. -/
lemma typed_softenedAll {scope : Scope} :
    ∀ {candidates : List Ir}, (∀ c ∈ candidates.dropLast, c.Typed scope true) →
      (∀ c ∈ candidates.getLast?, c.Typed scope false) →
      ∀ c ∈ softenedAll candidates, c.Typed scope true
  | [], _, _, c, hc => by cases hc
  | [last], _, hlast, c, hc => by
    rw [softenedAll, softenedAll, List.append_nil] at hc
    exact (hlast last rfl).softened c hc
  | first :: second :: rest, hinit, hlast, c, hc => by
    rcases List.mem_append.mp hc with hc | hc
    · exact (hinit first (by simp)).softened c hc
    · exact typed_softenedAll (fun d hd => hinit d (by simp [hd])) (by simpa using hlast) c hc

end

/-! ## Conditions and selectors -/

section Conditions

variable {scope : Scope} {tests : List (Condition Ir)}
  (htests : ∀ c ∈ tests, c.test.Typed scope false)

include htests

/-- Tests in front of a typed body. -/
lemma typed_failFast {body : Ir} (hbody : body.Typed scope false) (label : String) :
    (failFast tests body label).Typed scope false := by
  unfold failFast
  generalize body.ty = ty
  induction tests with
  | nil => exact hbody
  | cons c cs ih =>
    have hrest := ih fun d hd => htests d (List.mem_cons_of_mem c hd)
    exact .cond (htests c (by simp)) hrest (Ir.Typed.fail _ ty)

/-- Tests that hold together. -/
lemma typed_allOf : (allOf tests).Typed scope false := by
  cases tests with
  | nil => exact .literal (.bool true)
  | cons c cs =>
    have hfirst := htests c (by simp)
    have hrest : ∀ d ∈ cs, d.test.Typed scope false := fun d hd => htests d (by simp [hd])
    rw [allOf]
    clear htests
    generalize c.test = conjunction at hfirst
    induction cs generalizing conjunction with
    | nil => exact hfirst
    | cons d ds ih =>
      have hboth : ∀ a ∈ [conjunction, d.test], a.Typed scope false := by
        simpa using ⟨hfirst, hrest d (by simp)⟩
      exact ih (fun e he => hrest e (List.mem_cons_of_mem d he)) _ (Ir.Typed.apply hboth _ _)

end Conditions

/-- A typed value in the call of a selector. -/
lemma typed_dress {scope : Scope} (s : Selectable) (policy : SelectPolicy) {value : Ir}
    {message : Option Ir} (hvalue : value.Typed scope false)
    (hmessage : ∀ m ∈ message, m.Typed scope false) :
    (dress s policy value message).Typed scope false := by
  have hone : ∀ a ∈ [value], a.Typed scope false := List.forall_mem_singleton.mpr hvalue
  cases policy with
  | raise => exact .apply hone _ _
  | orNull => exact .apply hone _ _
  | check => exact .apply hone _ _
  | assert =>
    have hword : (message.getD (.ofString ("expected " ++ s.name))).Typed scope false := by
      cases message with
      | none => exact .ofString _
      | some m => exact hmessage m rfl
    have hboth : ∀ a ∈ [value, message.getD (.ofString ("expected " ++ s.name))],
        a.Typed scope false := by
      simpa using ⟨hvalue, hword⟩
    exact .apply hboth _ _

/-- The dressed value of a selector that does not test has the type that the selector names. -/
lemma ty_dress (s : Selectable) {policy : SelectPolicy} (hpolicy : policy ≠ .check) (value : Ir)
    (message : Option Ir) : (dress s policy value message).ty = s.ty := by
  cases policy with
  | check => exact absurd rfl hpolicy
  | raise | orNull | assert => rfl

/-- A typed value in the call of a selector with tests.

**Proof sketch.** By cases on the policy. The tests stand in the scope of `it`, which is bound to
the dressed value of the type that they were lowered with; a check alone tests the value before it
binds it. -/
lemma typed_constrained {scope : Scope} (s : Selectable) (policy : SelectPolicy)
    {tests : List (Condition Ir)} {value : Ir} {message : Option Ir}
    (htests : ∀ c ∈ tests, c.test.Typed ((itName, s.ty) :: scope) false)
    (hvalue : value.Typed scope false) (hmessage : ∀ m ∈ message, m.Typed scope false) :
    (constrained s policy tests value message).Typed scope false := by
  have hnull : (Ir.ofLiteral .null).Typed ((itName, s.ty) :: scope) false := .literal .null
  -- What is bound to `it` has the type that the tests were lowered with.
  have hbind {policy : SelectPolicy} (hpolicy : policy ≠ .check) {message : Option Ir}
      (hmessage : ∀ m ∈ message, m.Typed scope false) {body : Ir}
      (hbody : body.Typed ((itName, s.ty) :: scope) false) :
      (Ir.bind [(itName, dress s policy value message)] body).Typed scope false := by
    refine .bindOne (typed_dress s policy hvalue hmessage) ?_
    rw [ty_dress s hpolicy]
    exact hbody
  cases policy with
  | raise => exact hbind (by decide) hmessage (typed_failFast htests (.it s.ty) _)
  | assert => exact hbind (by decide) hmessage (typed_failFast htests (.it s.ty) _)
  | orNull =>
    have hequal : ∀ a ∈ [Ir.var itName s.ty, .ofLiteral .null],
        a.Typed ((itName, s.ty) :: scope) false := by
      simpa using ⟨.it s.ty, hnull⟩
    exact hbind (by decide) (by simp)
      (.cond (.apply hequal _ _) hnull (.cond (typed_allOf htests) (.it s.ty) hnull))
  | check =>
    exact .cond (typed_dress s .check hvalue (by simp))
      (hbind (by decide) (by simp) (typed_allOf htests)) (.literal (.bool false))

/-! ## Lowering -/

/-- A variable is lowered to a typed form. -/
lemma typed_of_lowerVariable {scope : Scope} {name : String} {ir : Ir}
    (h : lowerVariable scope name = .ok ir) : ir.Typed scope false := by
  unfold lowerVariable at h
  split at h
  · rename_i ty hty
    cases h
    exact .var hty
  · split at h
    · cases h
      exact .apply (List.forall_mem_nil _) _ _
    · cases h

/-- The names of bindings behind one more. -/
lemma Scope.bound_cons (scope : Scope) (name : String) (value : Ir)
    (bindings : List (String × Ir)) :
    scope.bound ((name, value) :: bindings) = Scope.bound ((name, value.ty) :: scope) bindings := by
  simp [Scope.bound]

/-- An alternative with a candidate keeps one. -/
lemma ne_nil_of_lowerCandidates {scope : Scope} {e : Expr α} {es : List (Expr α)} {irs : List Ir}
    (h : lowerCandidates scope (e :: es) = .ok irs) : irs ≠ [] := by
  induction es generalizing e irs with
  | nil =>
    obtain ⟨x, -, h⟩ := exists_of_bind_eq_ok h
    cases h
    exact List.cons_ne_nil _ _
  | cons e' es ih =>
    obtain ⟨x, -, h⟩ := exists_of_bind_eq_ok h
    obtain ⟨xs, hxs, h⟩ := exists_of_bind_eq_ok h
    cases h
    exact List.append_ne_nil_of_right_ne_nil _ (ih hxs)

mutual

/-- What is lowered in a scope is typed in it.

**Proof sketch.** Induction over the expression, along with the rows of expressions that its
constructs hold. Each construct is put together from typed parts; a construct that binds a name
lowers what the name is visible in with the type of the value that it binds. -/
theorem typed_of_lower :
    ∀ (e : Expr α) {scope : Scope} {recover : Bool} {ir : Ir},
      e.lower scope recover = .ok ir → ir.Typed scope false
  | .literal _ value, _, _, _, h => by
    cases h
    exact .literal value
  | .var _ name, _, _, _, h => typed_of_lowerVariable h
  | .array _ items, _, _, _, h => by
    obtain ⟨irs, hirs, h⟩ := exists_of_bind_eq_ok h
    cases h
    exact .apply (typed_of_lowerAll items hirs) _ _
  | .record _ fields, scope, _, _, h => by
    obtain ⟨irs, hirs, h⟩ := exists_of_bind_eq_ok h
    cases h
    refine .apply (fun a ha => ?_) _ _
    obtain ⟨⟨name, value⟩, hfield, ha⟩ := List.mem_flatMap.mp ha
    have hvalue : value.Typed scope false := typed_of_lowerFields fields hirs _ hfield
    rcases List.mem_cons.mp ha with rfl | ha
    · exact .ofString name
    · obtain rfl := List.mem_singleton.mp ha
      exact hvalue
  | .unary _ op operand, _, _, _, h => by
    obtain ⟨x, hx, h⟩ := exists_of_bind_eq_ok h
    cases h
    exact .apply (List.forall_mem_singleton.mpr (typed_of_lower operand hx)) _ _
  | .binary _ op lhs rhs, scope, _, _, h => by
    obtain ⟨x, hx, h⟩ := exists_of_bind_eq_ok h
    obtain ⟨y, hy, h⟩ := exists_of_bind_eq_ok h
    cases h
    have hboth : ∀ a ∈ [x, y], a.Typed scope false := by
      simpa using ⟨typed_of_lower lhs hx, typed_of_lower rhs hy⟩
    exact .apply hboth _ _
  | .cond _ test yes no, _, _, _, h => by
    obtain ⟨x, hx, h⟩ := exists_of_bind_eq_ok h
    obtain ⟨y, hy, h⟩ := exists_of_bind_eq_ok h
    obtain ⟨z, hz, h⟩ := exists_of_bind_eq_ok h
    cases h
    exact .cond (typed_of_lower test hx) (typed_of_lower yes hy) (typed_of_lower no hz)
  | .letIn _ bindings body, _, _, _, h => by
    obtain ⟨⟨bound, inner⟩, hbound, h⟩ := exists_of_bind_eq_ok h
    obtain ⟨x, hx, h⟩ := exists_of_bind_eq_ok h
    cases h
    obtain ⟨rfl, hvalues⟩ := typed_of_lowerBindings bindings hbound
    exact .letIn hvalues (typed_of_lower body hx)
  | .lambda _ params body, _, _, _, h => by
    obtain ⟨x, hx, h⟩ := exists_of_bind_eq_ok h
    cases h
    exact .lambda (typed_of_lower body hx)
  | .call _ callee args, _, _, _, h => by
    obtain ⟨irs, hirs, h⟩ := exists_of_bind_eq_ok h
    have hargs := typed_of_lowerAll args hirs
    split at h
    · cases h
      exact .apply hargs _ _
    · obtain ⟨x, hx, h⟩ := exists_of_bind_eq_ok h
      cases h
      exact .apply (List.forall_mem_cons.mpr ⟨typed_of_lower callee hx, hargs⟩) _ _
  | .member _ object field, scope, _, _, h => by
    obtain ⟨x, hx, h⟩ := exists_of_bind_eq_ok h
    cases h
    have hboth : ∀ a ∈ [x, .ofString field], a.Typed scope false := by
      simpa using ⟨typed_of_lower object hx, .ofString field⟩
    exact .apply hboth _ _
  | .pipe _ value function args, scope, _, _, h => by
    obtain ⟨x, hx, h⟩ := exists_of_bind_eq_ok h
    obtain ⟨irs, hirs, h⟩ := exists_of_bind_eq_ok h
    have hvalue : x.Typed scope false := typed_of_lower value hx
    have hall : ∀ a ∈ x :: irs, a.Typed scope false :=
      List.forall_mem_cons.mpr ⟨hvalue, typed_of_lowerAll args hirs⟩
    split at h
    · cases h
      exact typed_dress _ .raise hvalue (by simp)
    · split at h
      · rename_i ty hty
        cases h
        exact .apply (List.forall_mem_cons.mpr ⟨.var hty, hall⟩) _ _
      · cases h
        exact .apply hall _ _
  | .alternative _ candidates, _, _, _, h => by
    obtain ⟨irs, hirs, h⟩ := exists_of_bind_eq_ok h
    cases h
    obtain ⟨hinit, hlast⟩ := typed_of_lowerCandidates candidates hirs
    exact .alternative hinit hlast
  | .select _ typeName policy constraints args, _, _, _, h => by
    obtain ⟨⟨value, message⟩, hselected, h⟩ := exists_of_bind_eq_ok h
    obtain ⟨hvalue, hmessage⟩ := typed_of_lowerSelected args hselected
    dsimp only at h
    split at h
    · cases h
    · split at h
      · cases h
        exact typed_dress _ _ hvalue hmessage
      · obtain ⟨tests, htests, h⟩ := exists_of_bind_eq_ok h
        cases h
        exact typed_constrained _ _ (typed_of_lowerConditions constraints htests) hvalue hmessage
  | .guarded _ .guard conditions body, _, _, _, h => by
    obtain ⟨tests, htests, h⟩ := exists_of_bind_eq_ok h
    obtain ⟨x, hx, h⟩ := exists_of_bind_eq_ok h
    cases h
    exact typed_failFast (typed_of_lowerConditions conditions htests) (typed_of_lower body hx) _
  | .guarded _ .check conditions body, _, _, _, h => by
    obtain ⟨x, hx, h⟩ := exists_of_bind_eq_ok h
    obtain ⟨tests, htests, h⟩ := exists_of_bind_eq_ok h
    cases h
    exact .bindOne (typed_of_lower body hx)
      (typed_failFast (typed_of_lowerConditions conditions htests) (.it x.ty) _)

/-- The same for a row of expressions. -/
theorem typed_of_lowerAll :
    ∀ (es : List (Expr α)) {scope : Scope} {irs : List Ir}, lowerAll scope es = .ok irs →
      ∀ ir ∈ irs, ir.Typed scope false
  | [], _, _, h => by
    cases h
    exact List.forall_mem_nil _
  | e :: es, _, _, h => by
    obtain ⟨x, hx, h⟩ := exists_of_bind_eq_ok h
    obtain ⟨xs, hxs, h⟩ := exists_of_bind_eq_ok h
    cases h
    exact List.forall_mem_cons.mpr ⟨typed_of_lower e hx, typed_of_lowerAll es hxs⟩

/-- The same for the fields of a record. -/
theorem typed_of_lowerFields :
    ∀ (es : List (String × Expr α)) {scope : Scope} {irs : List (String × Ir)},
      lowerFields scope es = .ok irs → ∀ p ∈ irs, p.2.Typed scope false
  | [], _, _, h => by
    cases h
    exact List.forall_mem_nil _
  | (_, e) :: es, _, _, h => by
    obtain ⟨x, hx, h⟩ := exists_of_bind_eq_ok h
    obtain ⟨xs, hxs, h⟩ := exists_of_bind_eq_ok h
    cases h
    exact List.forall_mem_cons.mpr ⟨typed_of_lower e hx, typed_of_lowerFields es hxs⟩

/-- The same for bindings, each of which sees those before it. -/
theorem typed_of_lowerBindings :
    ∀ (es : List (String × Expr α)) {scope inner : Scope} {irs : List (String × Ir)},
      lowerBindings scope es = .ok (irs, inner) → inner = scope.bound irs ∧
        ∀ before name value after, irs = before ++ (name, value) :: after →
          value.Typed (scope.bound before) false
  | [], _, _, _, h => by
    cases h
    exact ⟨rfl, fun before name value after heq => by simp at heq⟩
  | (name, e) :: es, scope, _, _, h => by
    obtain ⟨x, hx, h⟩ := exists_of_bind_eq_ok h
    obtain ⟨⟨xs, inner⟩, hxs, h⟩ := exists_of_bind_eq_ok h
    cases h
    obtain ⟨rfl, hrest⟩ := typed_of_lowerBindings es hxs
    refine ⟨(scope.bound_cons name x xs).symm, fun before n v after heq => ?_⟩
    cases before with
    | nil =>
      cases heq
      exact typed_of_lower e hx
    | cons b before =>
      cases heq
      rw [Scope.bound_cons]
      exact hrest before n v after rfl

/-- The same for conditions. -/
theorem typed_of_lowerConditions :
    ∀ (es : List (Condition (Expr α))) {scope : Scope} {irs : List (Condition Ir)},
      lowerConditions scope es = .ok irs → ∀ c ∈ irs, c.test.Typed scope false
  | [], _, _, h => by
    cases h
    exact List.forall_mem_nil _
  | ⟨_, e⟩ :: es, _, _, h => by
    obtain ⟨x, hx, h⟩ := exists_of_bind_eq_ok h
    obtain ⟨xs, hxs, h⟩ := exists_of_bind_eq_ok h
    cases h
    exact List.forall_mem_cons.mpr ⟨typed_of_lower e hx, typed_of_lowerConditions es hxs⟩

/-- The same for the candidates of an alternative; those before the last one are softened. -/
theorem typed_of_lowerCandidates :
    ∀ (es : List (Expr α)) {scope : Scope} {irs : List Ir}, lowerCandidates scope es = .ok irs →
      (∀ c ∈ irs.dropLast, c.Typed scope true) ∧ ∀ c ∈ irs.getLast?, c.Typed scope false
  | [], _, _, h => by
    cases h
    simp
  | [e], _, _, h => by
    obtain ⟨x, hx, h⟩ := exists_of_bind_eq_ok h
    cases h
    simpa using typed_of_lower e hx
  | e :: e' :: es, scope, _, h => by
    obtain ⟨x, hx, h⟩ := exists_of_bind_eq_ok h
    obtain ⟨xs, hxs, h⟩ := exists_of_bind_eq_ok h
    obtain rfl : x.softened ++ xs = _ := Except.ok.inj h
    obtain ⟨hinit, hlast⟩ := typed_of_lowerCandidates (e' :: es) hxs
    have hfirst := (typed_of_lower e hx).softened
    have hne := ne_nil_of_lowerCandidates hxs
    refine ⟨fun c hc => ?_, fun c hc => hlast c ?_⟩
    · rw [List.dropLast_append_of_ne_nil hne] at hc
      rcases List.mem_append.mp hc with hc | hc
      · exact hfirst c hc
      · exact hinit c hc
    · simpa [List.getLast?_append, hne] using hc

/-- The same for the value and the message of a selector. -/
theorem typed_of_lowerSelected :
    ∀ (es : List (Expr α)) {scope : Scope} {typeName : String} {silent : Bool} {value : Ir}
      {message : Option Ir}, lowerSelected scope typeName silent es = .ok (value, message) →
      value.Typed scope false ∧ ∀ m ∈ message, m.Typed scope false
  | [], _, _, _, _, _, h => by cases h
  | [e], _, _, silent, _, _, h => by
    obtain ⟨x, hx, h⟩ := exists_of_bind_eq_ok h
    cases silent <;> cases h <;> exact ⟨typed_of_lower e hx, by simp⟩
  | e :: m :: _, _, _, silent, _, _, h => by
    obtain ⟨x, hx, h⟩ := exists_of_bind_eq_ok h
    cases silent with
    | true =>
      cases h
      exact ⟨typed_of_lower e hx, by simp⟩
    | false =>
      obtain ⟨word, hword, h⟩ := exists_of_bind_eq_ok h
      obtain ⟨y, hy, hword⟩ := exists_of_bind_eq_ok hword
      cases hword
      cases h
      exact ⟨typed_of_lower e hx, by simpa using typed_of_lower m hy⟩

end

/-- A lowered expression is typed where only the input is in scope: every name is the input or has a
binder around it and carries the type of the innermost one, every call carries the types of its
arguments, and the types of all other nodes are those that their parts determine. -/
theorem typed_of_transform {e : Expr α} {ir : Ir} (h : transform e = .ok ir) :
    ir.Typed [(inputName, .any)] false :=
  typed_of_lower e h

/-- A guard that another candidate follows, in the scope of a binding. -/
def recoveredGuard : Expr Unit :=
  .letIn () [("x", .literal () (.int 1))]
    (.alternative ()
      [.guarded () .guard [⟨some "low", .binary () .gt (.var () "_") (.var () "x")⟩] (.var () "x"),
       .select () "Int" .raise [⟨none, .binary () .gt (.var () "it") (.var () "x")⟩]
         [.var () "_"]])

/-- Its lowered form: the failure of the guard has become a null of the type of an integer. -/
def recoveredGuardIr : Ir :=
  .letIn [("x", .literal (.int 1) .int)]
    (.alternative
      [.cond (.call "gt" [.var "_" .any, .var "x" .int] [.any, .int] .bool) (.var "x" .int)
         (.literal .null .int) .int,
       .letIn [("it", .call "as_int" [.var "_" .any] [.any] .int)]
         (.cond (.call "gt" [.var "it" .int, .var "x" .int] [.int, .int] .bool) (.var "it" .int)
           (.call "fail" [.literal (.string "Int constraint failed") .string] [.string] .int) .int)
         .int]
      .int)
    .int

/-- The guard is lowered to a typed form. -/
theorem typed_recoveredGuard :
    transform recoveredGuard = .ok recoveredGuardIr ∧
      recoveredGuardIr.Typed [(inputName, .any)] false :=
  ⟨rfl, typed_of_transform (e := recoveredGuard) rfl⟩

end Retarget
