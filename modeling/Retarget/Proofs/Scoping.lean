import Mathlib
import Retarget.Proofs.Alternative
import Retarget.Proofs.Parsing.WellFormed
import Retarget.Proofs.Typing

set_option autoImplicit false

/-!
# Names that stand for nothing

Lowering fails exactly where a name that it reaches is neither in scope nor a period constant, or a
selector names no type. It reaches every part of an expression but one: the message of an assert
selector that another candidate follows is dropped unread.

## Main definitions

* `Retarget.Spot` — an expression at its place: what it sees, and whether a candidate follows it.
* `Retarget.Spot.Part` — the parts of an expression, each with the names that it sees.
* `Retarget.Expr.IllScoped` — some part is an unbound name or selects an unknown type.
* `Retarget.Expr.HasUnreadFault` — some part stands in a message that is dropped.

## Main results

* `Retarget.transform_fails_iff` — the expressions of sources that do not lower.
-/

namespace Retarget

variable {α : Type}

/-! ## Parts and what they see -/

/-- An expression at its place: the names it sees, innermost first, and whether it is a candidate
that another one follows. -/
structure Spot (α : Type) where
  names : List String
  recovered : Bool
  expr : Expr α

/-- The second expression stands directly in the first one and sees its names. A callee that is only
a name is no part: it is bound, a period constant, or the name of a function. The message of an
assert selector that a candidate follows is a part only with `every`. -/
inductive Spot.Part (every : Bool) : Spot α → Spot α → Prop
  | item {names : List String} {r : Bool} {note : α} {items : List (Expr α)} {e : Expr α} :
      e ∈ items → Part every ⟨names, r, .array note items⟩ ⟨names, false, e⟩
  | field {names : List String} {r : Bool} {note : α} {fields : List (String × Expr α)}
      {name : String} {e : Expr α} : (name, e) ∈ fields →
      Part every ⟨names, r, .record note fields⟩ ⟨names, false, e⟩
  | operand {names : List String} {r : Bool} {note : α} {op : UnaryOp} {e : Expr α} :
      Part every ⟨names, r, .unary note op e⟩ ⟨names, false, e⟩
  | lhs {names : List String} {r : Bool} {note : α} {op : BinaryOp} {a b : Expr α} :
      Part every ⟨names, r, .binary note op a b⟩ ⟨names, false, a⟩
  | rhs {names : List String} {r : Bool} {note : α} {op : BinaryOp} {a b : Expr α} :
      Part every ⟨names, r, .binary note op a b⟩ ⟨names, false, b⟩
  | test {names : List String} {r : Bool} {note : α} {test yes no : Expr α} :
      Part every ⟨names, r, .cond note test yes no⟩ ⟨names, false, test⟩
  | yes {names : List String} {r : Bool} {note : α} {test yes no : Expr α} :
      Part every ⟨names, r, .cond note test yes no⟩ ⟨names, false, yes⟩
  | no {names : List String} {r : Bool} {note : α} {test yes no : Expr α} :
      Part every ⟨names, r, .cond note test yes no⟩ ⟨names, false, no⟩
  /-- A bound value sees the names before its own. -/
  | bound {names : List String} {r : Bool} {note : α} {before after : List (String × Expr α)}
      {name : String} {e body : Expr α} :
      Part every ⟨names, r, .letIn note (before ++ (name, e) :: after) body⟩
        ⟨(before.map Prod.fst).reverse ++ names, false, e⟩
  | letBody {names : List String} {r : Bool} {note : α} {bindings : List (String × Expr α)}
      {body : Expr α} : Part every ⟨names, r, .letIn note bindings body⟩
        ⟨(bindings.map Prod.fst).reverse ++ names, false, body⟩
  | lambdaBody {names : List String} {r : Bool} {note : α} {params : List String} {body : Expr α} :
      Part every ⟨names, r, .lambda note params body⟩ ⟨params.reverse ++ names, false, body⟩
  | callee {names : List String} {r : Bool} {note : α} {callee : Expr α} {args : List (Expr α)} :
      callee.varName? = none →
      Part every ⟨names, r, .call note callee args⟩ ⟨names, false, callee⟩
  | argument {names : List String} {r : Bool} {note : α} {callee e : Expr α}
      {args : List (Expr α)} : e ∈ args →
      Part every ⟨names, r, .call note callee args⟩ ⟨names, false, e⟩
  | object {names : List String} {r : Bool} {note : α} {object : Expr α} {field : String} :
      Part every ⟨names, r, .member note object field⟩ ⟨names, false, object⟩
  | piped {names : List String} {r : Bool} {note : α} {value : Expr α} {function : String}
      {args : List (Expr α)} :
      Part every ⟨names, r, .pipe note value function args⟩ ⟨names, false, value⟩
  | pipeArgument {names : List String} {r : Bool} {note : α} {value e : Expr α} {function : String}
      {args : List (Expr α)} : e ∈ args →
      Part every ⟨names, r, .pipe note value function args⟩ ⟨names, false, e⟩
  | candidate {names : List String} {r : Bool} {note : α} {before after : List (Expr α)}
      {e : Expr α} : Part every ⟨names, r, .alternative note (before ++ e :: after)⟩
        ⟨names, !after.isEmpty, e⟩
  /-- A constraint calls the selected value `it`. -/
  | constraint {names : List String} {r : Bool} {note : α} {typeName : String}
      {policy : SelectPolicy} {constraints : List (Condition (Expr α))} {args : List (Expr α)}
      {c : Condition (Expr α)} : c ∈ constraints →
      Part every ⟨names, r, .select note typeName policy constraints args⟩
        ⟨itName :: names, false, c.test⟩
  | selected {names : List String} {r : Bool} {note : α} {typeName : String}
      {policy : SelectPolicy} {constraints : List (Condition (Expr α))} {e : Expr α}
      {more : List (Expr α)} :
      Part every ⟨names, r, .select note typeName policy constraints (e :: more)⟩ ⟨names, false, e⟩
  | message {names : List String} {r : Bool} {note : α} {typeName : String}
      {policy : SelectPolicy} {constraints : List (Condition (Expr α))} {value e : Expr α}
      {more : List (Expr α)} : e ∈ more → (every = true ∨ r = false ∨ policy ≠ .assert) →
      Part every ⟨names, r, .select note typeName policy constraints (value :: more)⟩
        ⟨names, false, e⟩
  | guardTest {names : List String} {r : Bool} {note : α} {conditions : List (Condition (Expr α))}
      {body : Expr α} {c : Condition (Expr α)} : c ∈ conditions →
      Part every ⟨names, r, .guarded note .guard conditions body⟩ ⟨names, false, c.test⟩
  /-- A check calls the value of its body `it`. -/
  | checkTest {names : List String} {r : Bool} {note : α} {conditions : List (Condition (Expr α))}
      {body : Expr α} {c : Condition (Expr α)} : c ∈ conditions →
      Part every ⟨names, r, .guarded note .check conditions body⟩ ⟨itName :: names, false, c.test⟩
  | guardBody {names : List String} {r : Bool} {note : α} {kind : GuardKind}
      {conditions : List (Condition (Expr α))} {body : Expr α} :
      Part every ⟨names, r, .guarded note kind conditions body⟩ ⟨names, false, body⟩

/-- The second expression stands in the first one, at any depth. -/
abbrev Spot.Within (every : Bool) : Spot α → Spot α → Prop := Relation.ReflTransGen (Part every)

/-- A name that is neither in scope nor a period constant, or a selector of a type that there is
not. -/
def Spot.IsFault : Spot α → Prop
  | ⟨names, _, .var _ name⟩ => name ∉ names ∧ name ∉ periods.map Prod.fst
  | ⟨_, _, .select _ typeName _ _ _⟩ => typeName ∉ selectables.map Selectable.name
  | _ => False

/-- A whole expression sees its input and nothing else. -/
def Expr.root (e : Expr α) : Spot α := ⟨[inputName], false, e⟩

/-- Some part of the expression is a fault; with `every`, also where it stands in a message that is
never read. -/
def Expr.IllScoped (every : Bool) (e : Expr α) : Prop := ∃ s, e.root.Within every s ∧ s.IsFault

/-- A fault stands in the message of an assert selector that a candidate follows. -/
def Expr.HasUnreadFault (e : Expr α) : Prop :=
  ∃ names note typeName constraints value more message fault,
    e.root.Within false ⟨names, true, .select note typeName .assert constraints (value :: more)⟩ ∧
      message ∈ more ∧ Spot.Within true ⟨names, false, message⟩ fault ∧ fault.IsFault

/-! ## Parts are smaller and well-formed -/

/-- A part is smaller than the whole.

**Proof sketch.** One case for each kind of part. A part in a row is smaller than the row
(`List.sizeOf_lt_of_mem`), and the test of a condition is smaller than the condition. -/
lemma Spot.Part.sizeOf_lt {every : Bool} {s t : Spot α} (h : s.Part every t) :
    sizeOf t.expr < sizeOf s.expr := by
  cases h with
  | item h | argument h | pipeArgument h =>
    have := List.sizeOf_lt_of_mem h
    simp only [Expr.array.sizeOf_spec, Expr.call.sizeOf_spec, Expr.pipe.sizeOf_spec]
    omega
  | field h =>
    have := List.sizeOf_lt_of_mem h
    simp only [Expr.record.sizeOf_spec, Prod.mk.sizeOf_spec] at *
    omega
  | message h =>
    have := List.sizeOf_lt_of_mem h
    simp only [Expr.select.sizeOf_spec, List.cons.sizeOf_spec]
    omega
  | @constraint _ _ _ _ _ _ _ c h | @guardTest _ _ _ _ _ c h | @checkTest _ _ _ _ _ c h =>
    have := List.sizeOf_lt_of_mem h
    have : sizeOf c.test < sizeOf c := by
      cases c
      simp only [Condition.mk.sizeOf_spec]
      omega
    simp only [Expr.select.sizeOf_spec, Expr.guarded.sizeOf_spec]
    omega
  | @bound _ _ _ before after name e body =>
    have := List.sizeOf_lt_of_mem (show (name, e) ∈ before ++ (name, e) :: after by simp)
    simp only [Expr.letIn.sizeOf_spec, Prod.mk.sizeOf_spec] at *
    omega
  | @candidate _ _ _ before after e =>
    have := List.sizeOf_lt_of_mem (show e ∈ before ++ e :: after by simp)
    simp only [Expr.alternative.sizeOf_spec]
    omega
  | operand | lhs | rhs | test | yes | no | letBody | lambdaBody | callee | object | piped
  | selected | guardBody =>
    simp
    try omega

/-- A part of a well-formed expression is well-formed.

**Proof sketch.** One case for each kind of part, whose being well-formed is a premise of the whole
being so. -/
lemma Spot.Part.wellFormed {K : Token.Kind → Prop} {every : Bool} {s t : Spot α}
    (h : s.Part every t) (hs : s.expr.WellFormed K) : t.expr.WellFormed K := by
  cases h with
  | item h =>
    cases hs with
    | array hitems => exact hitems _ h
  | field h =>
    cases hs with
    | record _ hfields => exact hfields _ h
  | operand =>
    cases hs with
    | unary he => exact he
  | lhs =>
    cases hs with
    | binary ha _ => exact ha
  | rhs =>
    cases hs with
    | binary _ hb => exact hb
  | test =>
    cases hs with
    | cond htest _ _ => exact htest
  | yes =>
    cases hs with
    | cond _ hyes _ => exact hyes
  | no =>
    cases hs with
    | cond _ _ hno => exact hno
  | bound =>
    cases hs with
    | letIn _ _ hvalues _ => exact hvalues _ (List.mem_append_right _ List.mem_cons_self)
  | letBody =>
    cases hs with
    | letIn _ _ _ hbody => exact hbody
  | lambdaBody =>
    cases hs with
    | lambda _ _ hbody => exact hbody
  | callee =>
    cases hs with
    | call hcallee _ => exact hcallee
  | argument h =>
    cases hs with
    | call _ hargs => exact hargs _ h
  | object =>
    cases hs with
    | member _ hobject => exact hobject
  | piped =>
    cases hs with
    | pipe _ hvalue _ => exact hvalue
  | pipeArgument h =>
    cases hs with
    | pipe _ _ hargs => exact hargs _ h
  | candidate =>
    cases hs with
    | alternative _ hcandidates => exact hcandidates _ (by simp)
  | constraint h =>
    cases hs with
    | select _ _ _ hconstraints _ => exact hconstraints _ h
  | selected =>
    cases hs with
    | select _ _ _ _ hargs => exact hargs _ (by simp)
  | message h =>
    cases hs with
    | select _ _ _ _ hargs => exact hargs _ (List.mem_cons_of_mem _ h)
  | guardTest h | checkTest h =>
    cases hs with
    | guarded _ hconditions _ => exact hconditions _ h
  | guardBody =>
    cases hs with
    | guarded _ _ hbody => exact hbody

/-! ## What lowers -/

/-- The expression lowers in the scope. -/
def Expr.Lowers (e : Expr α) (scope : Scope) (recover : Bool) : Prop :=
  ∃ ir, e.lower scope recover = .ok ir

section Outcomes

variable {ε β γ : Type}

/-- Two steps succeed where the first one does and the second one does with its outcome. -/
lemma exists_ok_bind {x : Except ε β} {f : β → Except ε γ} :
    (∃ c, (x >>= f) = .ok c) ↔ ∃ b, x = .ok b ∧ ∃ c, f b = .ok c := by
  constructor
  · rintro ⟨c, h⟩
    obtain ⟨b, hb, hc⟩ := exists_of_bind_eq_ok h
    exact ⟨b, hb, c, hc⟩
  · rintro ⟨b, rfl, c, hc⟩
    exact ⟨c, hc⟩

/-- A value is no error. -/
lemma exists_ok_pure (b : β) : ∃ c, (pure b : Except ε β) = .ok c := ⟨b, rfl⟩

end Outcomes

section Rows

variable {scope : Scope}

/-- A row lowers where all its expressions do. -/
lemma exists_lowerAll {es : List (Expr α)} :
    (∃ irs, lowerAll scope es = .ok irs) ↔ ∀ e ∈ es, e.Lowers scope false := by
  induction es with
  | nil => exact iff_of_true ⟨[], rfl⟩ (List.forall_mem_nil _)
  | cons e es ih =>
    rw [lowerAll, List.forall_mem_cons, ← ih]
    simp only [exists_ok_bind, exists_ok_pure, and_true, exists_and_right, Expr.Lowers]

/-- The fields of a record lower where all their values do. -/
lemma exists_lowerFields {es : List (String × Expr α)} :
    (∃ irs, lowerFields scope es = .ok irs) ↔ ∀ p ∈ es, p.2.Lowers scope false := by
  induction es with
  | nil => exact iff_of_true ⟨[], rfl⟩ (List.forall_mem_nil _)
  | cons p es ih =>
    rw [lowerFields, List.forall_mem_cons, ← ih]
    simp only [exists_ok_bind, exists_ok_pure, and_true, exists_and_right, Expr.Lowers]

/-- Conditions lower where all their tests do. -/
lemma exists_lowerConditions {es : List (Condition (Expr α))} :
    (∃ irs, lowerConditions scope es = .ok irs) ↔ ∀ c ∈ es, c.test.Lowers scope false := by
  induction es with
  | nil => exact iff_of_true ⟨[], rfl⟩ (List.forall_mem_nil _)
  | cons c es ih =>
    rw [lowerConditions, List.forall_mem_cons, ← ih]
    simp only [exists_ok_bind, exists_ok_pure, and_true, exists_and_right, Expr.Lowers]

/-- Candidates lower where each one does, all but the last one as candidates that are followed.

**Proof sketch.** By induction on the candidates: the row lowers where its first candidate and the
rest do, and a way to split it begins at the first candidate or in the rest. -/
lemma exists_lowerCandidates {es : List (Expr α)} :
    (∃ irs, lowerCandidates scope es = .ok irs) ↔
      ∀ (before : List (Expr α)) (e : Expr α) (after : List (Expr α)), es = before ++ e :: after →
        e.Lowers scope (!after.isEmpty) := by
  induction es with
  | nil => exact iff_of_true ⟨[], rfl⟩ (by simp)
  | cons e es ih =>
    have hsplit : (∃ irs, lowerCandidates scope (e :: es) = .ok irs) ↔
        e.Lowers scope (!es.isEmpty) ∧ ∃ irs, lowerCandidates scope es = .ok irs := by
      rw [lowerCandidates]
      simp only [exists_ok_bind, exists_ok_pure, and_true, exists_and_right, Expr.Lowers]
    rw [hsplit, ih]
    constructor
    · rintro ⟨hfirst, hrest⟩ before e' after heq
      cases before with
      | nil =>
        cases heq
        exact hfirst
      | cons b before =>
        cases heq
        exact hrest before e' after rfl
    · intro h
      refine ⟨h [] e es rfl, fun before e' after heq => ?_⟩
      exact h (e :: before) e' after (by rw [heq, List.cons_append])

end Rows

/-- What the names of a scope are once the bindings have been lowered in it. -/
lemma names_of_lowerBindings {scope inner : Scope} {es : List (String × Expr α)}
    {irs : List (String × Ir)} (h : lowerBindings scope es = .ok (irs, inner)) :
    inner.map Prod.fst = (es.map Prod.fst).reverse ++ scope.map Prod.fst := by
  induction es generalizing scope irs with
  | nil =>
    cases h
    rfl
  | cons p es ih =>
    obtain ⟨x, -, h⟩ := exists_of_bind_eq_ok h
    obtain ⟨⟨xs, inner'⟩, hxs, h⟩ := exists_of_bind_eq_ok h
    cases h
    rw [ih hxs]
    simp

/-- Each bound value lowers in a scope of the names before it. -/
lemma exists_of_lowerBindings {scope inner : Scope} {before after : List (String × Expr α)}
    {name : String} {e : Expr α} {irs : List (String × Ir)}
    (h : lowerBindings scope (before ++ (name, e) :: after) = .ok (irs, inner)) :
    ∃ outer : Scope, outer.map Prod.fst = (before.map Prod.fst).reverse ++ scope.map Prod.fst ∧
      e.Lowers outer false := by
  induction before generalizing scope inner irs with
  | nil =>
    obtain ⟨x, hx, -⟩ := exists_of_bind_eq_ok h
    exact ⟨scope, rfl, x, hx⟩
  | cons p before ih =>
    obtain ⟨x, -, h⟩ := exists_of_bind_eq_ok h
    obtain ⟨⟨xs, inner'⟩, hxs, -⟩ := exists_of_bind_eq_ok h
    obtain ⟨outer, hnames, hlowers⟩ := ih hxs
    exact ⟨outer, by rw [hnames]; simp, hlowers⟩

/-- Bindings lower if each value does in every scope of the names before it. -/
lemma exists_lowerBindings {scope : Scope} {es : List (String × Expr α)}
    (h : ∀ (before : List (String × Expr α)) (name : String) (e : Expr α)
      (after : List (String × Expr α)), es = before ++ (name, e) :: after → ∀ outer : Scope,
      outer.map Prod.fst = (before.map Prod.fst).reverse ++ scope.map Prod.fst →
        e.Lowers outer false) :
    ∃ irs inner, lowerBindings scope es = .ok (irs, inner) := by
  induction es generalizing scope with
  | nil => exact ⟨[], scope, rfl⟩
  | cons p es ih =>
    obtain ⟨name, e⟩ := p
    obtain ⟨x, hx⟩ := h [] name e es rfl scope rfl
    obtain ⟨xs, inner, hxs⟩ := @ih ((name, x.ty) :: scope) fun before n e' after heq outer hnames =>
      h ((name, e) :: before) n e' after (by rw [heq, List.cons_append]) outer
        (by rw [hnames]; simp)
    exact ⟨(name, x) :: xs, inner, by simp only [lowerBindings, hx, hxs, bind, Except.bind]; rfl⟩

section Constructs

variable {scope : Scope} {r : Bool} {note : α}

/-- A name is bound in a list where it is one of its keys. -/
lemma lookup_eq_none_iff_not_mem {β : Type} {name : String} {l : List (String × β)} :
    l.lookup name = none ↔ name ∉ l.map Prod.fst := by
  rw [List.lookup_eq_none_iff]
  simp only [List.mem_map, not_exists, not_and, bne_iff_ne]
  exact ⟨fun h p hp heq => h p hp heq.symm, fun h p hp heq => h p hp heq.symm⟩

/-- A variable lowers where it is in scope or a period constant. -/
lemma lowers_var {name : String} : (Expr.var note name).Lowers scope r ↔
    name ∈ scope.map Prod.fst ∨ name ∈ periods.map Prod.fst := by
  rw [← not_iff_not, not_or, ← lookup_eq_none_iff_not_mem, ← lookup_eq_none_iff_not_mem,
    Expr.Lowers, Expr.lower, lowerVariable]
  cases hscope : scope.lookup name with
  | some ty => simp
  | none => cases hperiod : periods.lookup name <;> simp

/-- An array lowers where its items do. -/
lemma lowers_array {items : List (Expr α)} :
    (Expr.array note items).Lowers scope r ↔ ∀ e ∈ items, e.Lowers scope false := by
  rw [Expr.Lowers, Expr.lower, ← exists_lowerAll]
  simp only [exists_ok_bind, exists_ok_pure, and_true]

/-- A record lowers where its values do. -/
lemma lowers_record {fields : List (String × Expr α)} :
    (Expr.record note fields).Lowers scope r ↔ ∀ p ∈ fields, p.2.Lowers scope false := by
  rw [Expr.Lowers, Expr.lower, ← exists_lowerFields]
  simp only [exists_ok_bind, exists_ok_pure, and_true]

/-- An operation lowers where its operand does. -/
lemma lowers_unary {op : UnaryOp} {e : Expr α} :
    (Expr.unary note op e).Lowers scope r ↔ e.Lowers scope false := by
  rw [Expr.Lowers, Expr.lower]
  simp only [exists_ok_bind, exists_ok_pure, and_true, Expr.Lowers]

/-- An operation lowers where both operands do. -/
lemma lowers_binary {op : BinaryOp} {a b : Expr α} :
    (Expr.binary note op a b).Lowers scope r ↔ a.Lowers scope false ∧ b.Lowers scope false := by
  rw [Expr.Lowers, Expr.lower]
  simp only [exists_ok_bind, exists_ok_pure, and_true, exists_and_right, Expr.Lowers]

/-- A conditional lowers where its condition and both branches do. -/
lemma lowers_cond {test yes no : Expr α} : (Expr.cond note test yes no).Lowers scope r ↔
    test.Lowers scope false ∧ yes.Lowers scope false ∧ no.Lowers scope false := by
  rw [Expr.Lowers, Expr.lower]
  simp only [exists_ok_bind, exists_ok_pure, and_true, exists_and_right, Expr.Lowers]

/-- A `let` lowers where its values do, and its body with the names bound. -/
lemma lowers_letIn {bindings : List (String × Expr α)} {body : Expr α} :
    (Expr.letIn note bindings body).Lowers scope r ↔
      ∃ irs inner, lowerBindings scope bindings = .ok (irs, inner) ∧ body.Lowers inner false := by
  rw [Expr.Lowers, Expr.lower]
  simp only [exists_ok_bind, exists_ok_pure, and_true, Prod.exists, Expr.Lowers]

/-- A function lowers where its body does with the parameters in scope. -/
lemma lowers_lambda {params : List String} {body : Expr α} :
    (Expr.lambda note params body).Lowers scope r ↔
      body.Lowers (scope.withParams params) false := by
  rw [Expr.Lowers, Expr.lower]
  simp only [exists_ok_bind, exists_ok_pure, and_true, Expr.Lowers, Scope.withParams]

/-- Parameters come before the names around a function. -/
lemma names_withParams (params : List String) :
    (scope.withParams params).map Prod.fst = params.reverse ++ scope.map Prod.fst := by
  rw [Scope.withParams, List.map_append, List.map_reverse, List.map_map]
  exact congrArg (List.reverse · ++ _) (List.map_id params)

/-- A name that stands for a value lowers. -/
lemma lowers_of_not_isOperatorName {e : Expr α} {name : String} (hname : e.varName? = some name)
    (h : isOperatorName scope name = false) : e.Lowers scope r := by
  cases e with
  | var note' name' =>
    cases hname
    rw [lowers_var, ← not_and_or.trans (or_congr not_not not_not), ← lookup_eq_none_iff_not_mem,
      ← lookup_eq_none_iff_not_mem]
    simpa [isOperatorName] using h
  | _ => cases hname

/-- A callee that is only a name always lowers: where it stands for no value, it names the call. -/
lemma lowers_call {callee : Expr α} {args : List (Expr α)} :
    (Expr.call note callee args).Lowers scope r ↔
      (∀ e ∈ args, e.Lowers scope false) ∧
        (callee.varName? = none → callee.Lowers scope false) := by
  rw [Expr.Lowers, Expr.lower, exists_ok_bind, ← exists_lowerAll, ← exists_and_right]
  refine exists_congr fun irs => and_congr_right fun _ => ?_
  cases hname : callee.varName? with
  | none =>
    simp only [Option.filter_none, exists_ok_bind, exists_ok_pure, and_true, Expr.Lowers,
      forall_const]
  | some name =>
    refine iff_of_true ?_ (by simp)
    cases hop : isOperatorName scope name with
    | true => exact ⟨operator name irs, by simp only [Option.filter, hop]; rfl⟩
    | false =>
      obtain ⟨x, hx⟩ := lowers_of_not_isOperatorName (r := false) hname hop
      exact ⟨invoke x irs, by simp only [Option.filter, hop, hx]; rfl⟩

/-- A member read lowers where its object does. -/
lemma lowers_member {object : Expr α} {field : String} :
    (Expr.member note object field).Lowers scope r ↔ object.Lowers scope false := by
  rw [Expr.Lowers, Expr.lower]
  simp only [exists_ok_bind, exists_ok_pure, and_true, Expr.Lowers]

/-- A pipe lowers where its value and its arguments do. -/
lemma lowers_pipe {value : Expr α} {function : String} {args : List (Expr α)} :
    (Expr.pipe note value function args).Lowers scope r ↔
      value.Lowers scope false ∧ ∀ e ∈ args, e.Lowers scope false := by
  rw [Expr.Lowers, Expr.lower, ← exists_lowerAll, exists_ok_bind]
  constructor
  · rintro ⟨x, hx, h⟩
    obtain ⟨xs, hxs, -⟩ := exists_ok_bind.mp h
    exact ⟨⟨x, hx⟩, xs, hxs⟩
  · rintro ⟨⟨x, hx⟩, xs, hxs⟩
    refine ⟨x, hx, exists_ok_bind.mpr ⟨xs, hxs, ?_⟩⟩
    split
    · exact exists_ok_pure _
    · split
      · exact exists_ok_pure _
      · exact exists_ok_pure _

/-- An alternative lowers where each candidate does, as one that another follows or as the last. -/
lemma lowers_alternative {candidates : List (Expr α)} :
    (Expr.alternative note candidates).Lowers scope r ↔
      ∀ (before : List (Expr α)) (e : Expr α) (after : List (Expr α)),
        candidates = before ++ e :: after → e.Lowers scope (!after.isEmpty) := by
  rw [Expr.Lowers, Expr.lower, ← exists_lowerCandidates]
  simp only [exists_ok_bind, exists_ok_pure, and_true]

/-- A guard lowers where its conditions and its body do. -/
lemma lowers_guard {conditions : List (Condition (Expr α))} {body : Expr α} :
    (Expr.guarded note .guard conditions body).Lowers scope r ↔
      (∀ c ∈ conditions, c.test.Lowers scope false) ∧ body.Lowers scope false := by
  rw [Expr.Lowers, Expr.lower, ← exists_lowerConditions]
  simp only [exists_ok_bind, exists_ok_pure, and_true, exists_and_right, Expr.Lowers]

/-- A check lowers where its body does, and its conditions with the value as `it`. -/
lemma lowers_check {conditions : List (Condition (Expr α))} {body : Expr α} :
    (Expr.guarded note .check conditions body).Lowers scope r ↔ ∃ value,
      body.lower scope false = .ok value ∧
        ∀ c ∈ conditions, c.test.Lowers ((itName, value.ty) :: scope) false := by
  rw [Expr.Lowers, Expr.lower]
  simp only [exists_ok_bind, exists_ok_pure, and_true, ← exists_lowerConditions]

/-- What is made of a value lowers where the type is known and the constraints lower. -/
lemma exists_select {typeName : String} {policy : SelectPolicy}
    {constraints : List (Condition (Expr α))} {value : Ir} {message : Option Ir} :
    (∃ ir, select scope typeName policy constraints value message = .ok ir) ↔
      ∃ s, selectable? typeName = some s ∧
        ∀ c ∈ constraints, c.test.Lowers ((itName, s.ty) :: scope) false := by
  rw [select]
  cases selectable? typeName with
  | none => simp
  | some s =>
    simp only [Option.some.injEq, exists_eq_left', ← exists_lowerConditions]
    cases constraints with
    | nil => exact iff_of_true ⟨_, rfl⟩ ⟨[], rfl⟩
    | cons c cs =>
      cases lowerConditions ((itName, s.ty) :: scope) (c :: cs) with
      | error failure => simp [Except.map]
      | ok tests => simp [Except.map]

/-- The value of a selector is lowered, and its message unless the selector is silent. -/
lemma exists_lowerSelected (typeName : String) {silent : Bool} {value : Expr α}
    {more : List (Expr α)} (hmore : more.length ≤ 1) :
    (∃ p, lowerSelected scope typeName silent (value :: more) = .ok p) ↔
      value.Lowers scope false ∧ (silent = false → ∀ e ∈ more, e.Lowers scope false) := by
  rw [lowerSelected, exists_ok_bind, Expr.Lowers, ← exists_and_right]
  refine exists_congr fun x => and_congr_right fun _ => ?_
  cases silent with
  | true => exact iff_of_true ⟨_, rfl⟩ (by simp)
  | false =>
    simp only [Bool.false_eq_true, ↓reduceIte, exists_ok_bind, exists_ok_pure, and_true,
      forall_const]
    rcases more with _ | ⟨e, _ | ⟨d, rest⟩⟩
    · exact iff_of_true ⟨none, rfl⟩ (List.forall_mem_nil _)
    · rw [lowerHead, exists_ok_bind, List.forall_mem_singleton, Expr.Lowers]
      simp only [exists_ok_pure, and_true]
    · simp only [List.length_cons] at hmore
      omega

/-- A selector that a candidate follows drops its message, if it has one. -/
lemma silent_iff {policy : SelectPolicy} {more : List (Expr α)}
    (hfits : Parser.arityFits policy (more.length + 1) = true) {P : Expr α → Prop} :
    ((r && policy != policy.recoverable) = false → ∀ e ∈ more, P e) ↔
      (r = false ∨ policy ≠ .assert → ∀ e ∈ more, P e) := by
  cases policy with
  | assert => cases r <;> simp [SelectPolicy.recoverable]
  | raise | orNull | check =>
    obtain rfl : more = [] := by simpa [Parser.arityFits] using hfits
    simp

/-- A selector lowers where its type is known, its value does and its constraints do with the value
as `it`, and its message unless that is dropped. -/
lemma lowers_select {typeName : String} {policy : SelectPolicy}
    {constraints : List (Condition (Expr α))} {value : Expr α} {more : List (Expr α)}
    (hfits : Parser.arityFits policy (value :: more).length = true) :
    (Expr.select note typeName policy constraints (value :: more)).Lowers scope r ↔
      value.Lowers scope false ∧
        (r = false ∨ policy ≠ .assert → ∀ e ∈ more, e.Lowers scope false) ∧
        ∃ s, selectable? typeName = some s ∧
          ∀ c ∈ constraints, c.test.Lowers ((itName, s.ty) :: scope) false := by
  have hmore : more.length ≤ 1 := by
    cases policy <;> simp only [Parser.arityFits, List.length_cons, Bool.or_eq_true, beq_iff_eq]
      at hfits <;> omega
  have hbind {x : Except TypeError (Ir × Option Ir)} {f : Ir × Option Ir → Except TypeError Ir} :
      (∃ ir, x.bind f = .ok ir) ↔ ∃ p, x = .ok p ∧ ∃ ir, f p = .ok ir := exists_ok_bind
  rw [← silent_iff hfits, ← and_assoc, ← exists_lowerSelected typeName hmore, Expr.Lowers,
    lower_select, hbind]
  simp only [exists_select, exists_and_right]

end Constructs

/-! ## Parts that lower -/

namespace Spot

/-- The expression lowers in some scope of the names that it sees. -/
def Lowers (s : Spot α) : Prop :=
  ∃ scope : Scope, scope.map Prod.fst = s.names ∧ s.expr.Lowers scope s.recovered

/-- The expression lowers in every scope of the names that it sees. -/
def AlwaysLowers (s : Spot α) : Prop :=
  ∀ scope : Scope, scope.map Prod.fst = s.names → s.expr.Lowers scope s.recovered

/-- A type is known where the table of types has its name. -/
lemma exists_selectable {typeName : String} :
    (∃ s, selectable? typeName = some s) ↔ typeName ∈ selectables.map Selectable.name := by
  rw [selectable?, ← Option.isSome_iff_exists, List.find?_isSome, List.mem_map]
  simp only [beq_iff_eq]

variable {s t : Spot α} {K : Token.Kind → Prop}

/-- A fault lowers in no scope.

**Proof sketch.** By cases on the expression: only names and selectors can be faults, and for both
what lowers has been found in the scope or among the types. -/
lemma Lowers.not_isFault (h : s.Lowers) (hform : s.expr.WellFormed K) : ¬s.IsFault := by
  obtain ⟨names, r, e⟩ := s
  obtain ⟨scope, rfl, hlowers⟩ := h
  cases e with
  | var note name =>
    rintro ⟨hunbound, hperiod⟩
    exact (lowers_var.mp hlowers).elim hunbound hperiod
  | select note typeName policy constraints args =>
    intro hunknown
    cases hform with
    | select _ _ hfits _ _ =>
      cases args with
      | nil => cases policy <;> cases hfits
      | cons value more =>
        obtain ⟨-, -, selectable, hs, -⟩ := (lowers_select hfits).mp hlowers
        exact hunknown (exists_selectable.mp ⟨selectable, hs⟩)
  | _ => exact id

/-- The parts of what lowers lower as well.

**Proof sketch.** One case for each kind of part: the lemma of the form says what lowers in it, and
the scope of the part is the one of the whole, extended by the names that are bound on the way. The
value of a binding sees the bindings before it, and a test of `it` sees the value that is tested. -/
lemma Lowers.part (h : s.Lowers) (hform : s.expr.WellFormed K) (hpart : s.Part false t) :
    t.Lowers := by
  obtain ⟨scope, hnames, hlowers⟩ := h
  cases hpart with
  | item hmem => exact ⟨scope, hnames, lowers_array.mp hlowers _ hmem⟩
  | field hmem => exact ⟨scope, hnames, lowers_record.mp hlowers _ hmem⟩
  | operand => exact ⟨scope, hnames, lowers_unary.mp hlowers⟩
  | lhs => exact ⟨scope, hnames, (lowers_binary.mp hlowers).1⟩
  | rhs => exact ⟨scope, hnames, (lowers_binary.mp hlowers).2⟩
  | test => exact ⟨scope, hnames, (lowers_cond.mp hlowers).1⟩
  | yes => exact ⟨scope, hnames, (lowers_cond.mp hlowers).2.1⟩
  | no => exact ⟨scope, hnames, (lowers_cond.mp hlowers).2.2⟩
  | bound =>
    obtain ⟨irs, inner, hbindings, -⟩ := lowers_letIn.mp hlowers
    obtain ⟨outer, houter, hvalue⟩ := exists_of_lowerBindings hbindings
    exact ⟨outer, houter.trans (by rw [hnames]), hvalue⟩
  | letBody =>
    obtain ⟨irs, inner, hbindings, hbody⟩ := lowers_letIn.mp hlowers
    exact ⟨inner, (names_of_lowerBindings hbindings).trans (by rw [hnames]), hbody⟩
  | lambdaBody =>
    exact ⟨_, (names_withParams _).trans (by rw [hnames]), lowers_lambda.mp hlowers⟩
  | callee hname => exact ⟨scope, hnames, (lowers_call.mp hlowers).2 hname⟩
  | argument hmem => exact ⟨scope, hnames, (lowers_call.mp hlowers).1 _ hmem⟩
  | object => exact ⟨scope, hnames, lowers_member.mp hlowers⟩
  | piped => exact ⟨scope, hnames, (lowers_pipe.mp hlowers).1⟩
  | pipeArgument hmem => exact ⟨scope, hnames, (lowers_pipe.mp hlowers).2 _ hmem⟩
  | candidate => exact ⟨scope, hnames, lowers_alternative.mp hlowers _ _ _ rfl⟩
  | @constraint names r note typeName policy constraints args c hmem =>
    -- A selector lowers by its policy only where its arguments fit that policy.
    cases hform with
    | select _ _ hfits _ _ =>
      cases args with
      | nil => cases policy <;> cases hfits
      | cons value more =>
        obtain ⟨-, -, selectable, -, hconstraints⟩ := (lowers_select hfits).mp hlowers
        refine ⟨(itName, selectable.ty) :: scope, ?_, hconstraints _ hmem⟩
        exact congrArg (itName :: ·) hnames
  | selected =>
    cases hform with
    | select _ _ hfits _ _ => exact ⟨scope, hnames, ((lowers_select hfits).mp hlowers).1⟩
  | message hmem hread =>
    cases hform with
    | select _ _ hfits _ _ =>
      refine ⟨scope, hnames, ((lowers_select hfits).mp hlowers).2.1 ?_ _ hmem⟩
      exact hread.resolve_left Bool.false_ne_true
  | guardTest hmem => exact ⟨scope, hnames, (lowers_guard.mp hlowers).1 _ hmem⟩
  | checkTest hmem =>
    obtain ⟨value, -, htests⟩ := lowers_check.mp hlowers
    exact ⟨(itName, value.ty) :: scope, congrArg (itName :: ·) hnames, htests _ hmem⟩
  | @guardBody names r note kind conditions body =>
    cases kind with
    | guard => exact ⟨scope, hnames, (lowers_guard.mp hlowers).2⟩
    | check =>
      obtain ⟨value, hvalue, -⟩ := lowers_check.mp hlowers
      exact ⟨scope, hnames, value, hvalue⟩

/-- What is no fault lowers if its parts do.

**Proof sketch.** By cases on the expression, with the same lemmas as in `Lowers.part` read
backwards. A name lowers as it is no fault, and a selector finds its type for the same reason. -/
lemma alwaysLowers_of_parts (hform : s.expr.WellFormed K) (hfault : ¬s.IsFault)
    (hparts : ∀ t, s.Part false t → t.AlwaysLowers) : s.AlwaysLowers := by
  obtain ⟨names, r, e⟩ := s
  rintro scope rfl
  cases e with
  | literal note value => exact ⟨_, rfl⟩
  | array note items => exact lowers_array.mpr fun e he => hparts _ (.item he) scope rfl
  | record note fields => exact lowers_record.mpr fun p hp => hparts _ (.field hp) scope rfl
  | var note name =>
    rw [IsFault, not_and_or, not_not, not_not] at hfault
    exact lowers_var.mpr hfault
  | unary note op e => exact lowers_unary.mpr (hparts _ .operand scope rfl)
  | binary note op a b =>
    exact lowers_binary.mpr ⟨hparts _ .lhs scope rfl, hparts _ .rhs scope rfl⟩
  | cond note test yes no =>
    exact lowers_cond.mpr
      ⟨hparts _ .test scope rfl, hparts _ .yes scope rfl, hparts _ .no scope rfl⟩
  | letIn note bindings body =>
    obtain ⟨irs, inner, hbindings⟩ := @exists_lowerBindings α scope bindings <| by
      rintro before name e after rfl outer houter
      exact hparts _ .bound outer houter
    refine lowers_letIn.mpr ⟨irs, inner, hbindings, ?_⟩
    exact hparts _ .letBody inner (names_of_lowerBindings hbindings)
  | lambda note params body =>
    exact lowers_lambda.mpr (hparts _ .lambdaBody _ (names_withParams params))
  | call note callee args =>
    exact lowers_call.mpr ⟨fun e he => hparts _ (.argument he) scope rfl,
      fun hname => hparts _ (.callee hname) scope rfl⟩
  | member note object field => exact lowers_member.mpr (hparts _ .object scope rfl)
  | pipe note value function args =>
    exact lowers_pipe.mpr
      ⟨hparts _ .piped scope rfl, fun e he => hparts _ (.pipeArgument he) scope rfl⟩
  | alternative note candidates =>
    refine lowers_alternative.mpr ?_
    rintro before e after rfl
    exact hparts _ .candidate scope rfl
  | select note typeName policy constraints args =>
    cases hform with
    | select _ _ hfits _ _ =>
      cases args with
      | nil => cases policy <;> cases hfits
      | cons value more =>
        obtain ⟨selectable, hs⟩ := exists_selectable.mpr (not_not.mp hfault)
        refine (lowers_select hfits).mpr ⟨hparts _ .selected scope rfl, fun hread e he => ?_,
          selectable, hs, fun c hc => hparts _ (.constraint hc) _ rfl⟩
        exact hparts _ (.message he (.inr hread)) scope rfl
  | guarded note kind conditions body =>
    have hbody := hparts _ .guardBody scope rfl
    cases kind with
    | guard => exact lowers_guard.mpr ⟨fun c hc => hparts _ (.guardTest hc) scope rfl, hbody⟩
    | check =>
      obtain ⟨value, hvalue⟩ := hbody
      exact lowers_check.mpr ⟨value, hvalue, fun c hc => hparts _ (.checkTest hc) _ rfl⟩

/-- What lowers has no fault at any depth. -/
lemma Lowers.within (h : s.Lowers) (hform : s.expr.WellFormed K) (hwithin : s.Within false t) :
    t.Lowers ∧ t.expr.WellFormed K := by
  induction hwithin with
  | refl => exact ⟨h, hform⟩
  | tail _ hpart ih => exact ⟨ih.1.part ih.2 hpart, hpart.wellFormed ih.2⟩

/-- What has no fault at any depth lowers, by induction over its size. -/
lemma alwaysLowers_of_within (hform : s.expr.WellFormed K)
    (hfaults : ∀ t, s.Within false t → ¬t.IsFault) : s.AlwaysLowers := by
  induction hsize : sizeOf s.expr using Nat.strongRecOn generalizing s with
  | _ n ih =>
    refine alwaysLowers_of_parts hform (hfaults s .refl) fun t hpart => ?_
    subst hsize
    exact ih _ hpart.sizeOf_lt (hpart.wellFormed hform)
      (fun u hu => hfaults u (.head hpart hu)) rfl

/-! ## Messages that are dropped -/

/-- What is a part is one with the messages that are dropped. -/
lemma Part.of_false (h : s.Part false t) : s.Part true t := by
  cases h with
  | message hmem _ => exact .message hmem (.inl rfl)
  | item hmem => exact .item hmem
  | field hmem => exact .field hmem
  | callee hname => exact .callee hname
  | argument hmem => exact .argument hmem
  | pipeArgument hmem => exact .pipeArgument hmem
  | constraint hmem => exact .constraint hmem
  | guardTest hmem => exact .guardTest hmem
  | checkTest hmem => exact .checkTest hmem
  | _ => constructor

/-- What is a part only with the messages that are dropped is such a message.

**Proof sketch.** Only messages are parts by either rule, and the narrower one leaves out the
message of an asserting selector whose failure is recovered. -/
lemma Part.cases_every (h : s.Part true t) : s.Part false t ∨
    ∃ names note typeName constraints value more message,
      s = ⟨names, true, .select note typeName .assert constraints (value :: more)⟩ ∧
        message ∈ more ∧ t = ⟨names, false, message⟩ := by
  cases h with
  | @message names r note typeName policy constraints value e more hmem _ =>
    by_cases hread : r = false ∨ policy ≠ .assert
    · exact .inl (.message hmem (.inr hread))
    · rw [not_or, not_not, Bool.not_eq_false] at hread
      obtain ⟨rfl, rfl⟩ := hread
      exact .inr ⟨names, note, typeName, constraints, value, more, e, rfl, hmem, rfl⟩
  | item hmem => exact .inl (.item hmem)
  | field hmem => exact .inl (.field hmem)
  | callee hname => exact .inl (.callee hname)
  | argument hmem => exact .inl (.argument hmem)
  | pipeArgument hmem => exact .inl (.pipeArgument hmem)
  | constraint hmem => exact .inl (.constraint hmem)
  | guardTest hmem => exact .inl (.guardTest hmem)
  | checkTest hmem => exact .inl (.checkTest hmem)
  | _ => exact .inl (by constructor)

/-- The way to a part at any depth leads through no dropped message, or there is a first one. -/
lemma within_cases (h : s.Within true t) : s.Within false t ∨
    ∃ names note typeName constraints value more message,
      s.Within false ⟨names, true, .select note typeName .assert constraints (value :: more)⟩ ∧
        message ∈ more ∧ Within true ⟨names, false, message⟩ t := by
  induction h with
  | refl => exact .inl .refl
  | tail _ hpart ih =>
    rcases ih with hread | ⟨names, note, typeName, constraints, value, more, message, hs, hm, ht⟩
    · rcases hpart.cases_every with hpart | ⟨names, note, typeName, constraints, value, more,
        message, rfl, hm, rfl⟩
      · exact .inl (hread.tail hpart)
      · exact .inr ⟨names, note, typeName, constraints, value, more, message, hread, hm, .refl⟩
    · exact .inr ⟨names, note, typeName, constraints, value, more, message, hs, hm, ht.tail hpart⟩

/-- A part that is read is a part. -/
lemma Within.of_false (h : s.Within false t) : s.Within true t :=
  Relation.ReflTransGen.mono (fun _ _ => Part.of_false) _ _ h

end Spot

/-- Every fault is read, or it stands in a message that is dropped. -/
lemma Expr.illScoped_true_iff {e : Expr α} :
    e.IllScoped true ↔ e.IllScoped false ∨ e.HasUnreadFault := by
  constructor
  · rintro ⟨fault, hwithin, hfault⟩
    rcases Spot.within_cases hwithin with hread | ⟨names, note, typeName, constraints, value, more,
      message, hs, hm, ht⟩
    · exact .inl ⟨fault, hread, hfault⟩
    · exact .inr ⟨names, note, typeName, constraints, value, more, message, fault, hs, hm, ht,
        hfault⟩
  · rintro (⟨fault, hwithin, hfault⟩ | ⟨names, note, typeName, constraints, value, more, message,
      fault, hs, hm, ht, hfault⟩)
    · exact ⟨fault, Spot.Within.of_false hwithin, hfault⟩
    · exact ⟨fault, ((Spot.Within.of_false hs).tail (.message hm (.inl rfl))).trans ht, hfault⟩

/-- **Lowering rejects what is ill-scoped.** The expression of a source does not lower exactly where
a part that is read is an unbound name or selects an unknown type. The parts that are not read are
the messages of assert selectors that a candidate follows.

**Proof sketch.** A fault lowers in no scope, and what is no fault lowers exactly if its parts do,
each in a scope of the names that it sees. The first part of this goes down from what lowers to all
its parts, the second one up from the parts by induction over their size. -/
theorem transform_fails_iff {source : String} {e : Expr Span} (h : parse source = .ok e) :
    ((∃ failure, transform e = .error failure) ↔ e.IllScoped false) ∧
      (e.IllScoped true ↔ (∃ failure, transform e = .error failure) ∨ e.HasUnreadFault) := by
  have hform : e.WellFormed fun _ => True := wellFormed_of_parse (fun _ _ _ _ => trivial) h
  have hfails : (∃ failure, transform e = .error failure) ↔ e.IllScoped false := by
    constructor
    · rintro ⟨failure, hfailure⟩
      by_contra hscoped
      have hlowers : e.root.AlwaysLowers := Spot.alwaysLowers_of_within hform fun t ht hfault =>
        hscoped ⟨t, ht, hfault⟩
      obtain ⟨ir, hir⟩ := hlowers [(inputName, .any)] rfl
      cases hfailure.symm.trans hir
    · rintro ⟨fault, hwithin, hfault⟩
      cases htransform : transform e with
      | error failure => exact ⟨failure, rfl⟩
      | ok ir =>
        have hlowers : e.root.Lowers := ⟨[(inputName, .any)], rfl, ir, htransform⟩
        obtain ⟨hpart, hpartForm⟩ := hlowers.within hform hwithin
        exact absurd hfault (hpart.not_isFault hpartForm)
  exact ⟨hfails, by rw [hfails, Expr.illScoped_true_iff]⟩

/-- The tokens of an assert selector with an unbound message, and a candidate behind it. -/
def droppedMessageTokens : List Token :=
  [⟨.ident "Int", "Int", 0⟩, ⟨.punct .bang, "!", 3⟩, ⟨.punct .openParen, "(", 4⟩,
   ⟨.ident "_", "_", 5⟩, ⟨.punct .comma, ",", 6⟩, ⟨.ident "x", "x", 8⟩,
   ⟨.punct .closeParen, ")", 9⟩, ⟨.punct .bar, "|", 11⟩, ⟨.literal (.int 0), "0", 13⟩,
   Token.atEnd 14]

/-- Their expression. -/
def droppedMessage : Expr Span :=
  .alternative ⟨0, 14⟩
    [.select ⟨0, 10⟩ "Int" .assert [] [.var ⟨5, 6⟩ "_", .var ⟨8, 9⟩ "x"],
     .literal ⟨13, 14⟩ (.int 0)]

/-- An unbound name in a message that is dropped goes unnoticed. -/
theorem transform_fails_droppedMessage :
    parse "Int!(_, x) | 0" = .ok droppedMessage ∧ (∃ ir, transform droppedMessage = .ok ir) ∧
      droppedMessage.IllScoped true ∧ ¬droppedMessage.IllScoped false := by
  have htokens : (tokenize "Int!(_, x) | 0").toOption = some droppedMessageTokens := by cbv
  have hparse : parse "Int!(_, x) | 0" = .ok droppedMessage := parse_eq_ok htokens rfl
  obtain ⟨ir, hir⟩ : ∃ ir, transform droppedMessage = .ok ir := ⟨_, rfl⟩
  have hunread : droppedMessage.HasUnreadFault := by
    refine ⟨[inputName], ⟨0, 10⟩, "Int", [], .var ⟨5, 6⟩ "_", [.var ⟨8, 9⟩ "x"], .var ⟨8, 9⟩ "x",
      ⟨[inputName], false, .var ⟨8, 9⟩ "x"⟩, .single ?_,
      List.mem_cons_self, .refl, by decide, by decide⟩
    exact @Spot.Part.candidate Span false [inputName] false ⟨0, 14⟩ [] [_] _
  obtain ⟨hfails, hill⟩ := transform_fails_iff hparse
  refine ⟨hparse, ⟨ir, hir⟩, hill.mpr (.inr hunread), fun hread => ?_⟩
  obtain ⟨failure, hfailure⟩ := hfails.mpr hread
  cases hfailure.symm.trans hir

end Retarget
