import Retarget.Proofs.Regrouping

set_option autoImplicit false

/-!
# Pipes

A pipe into a name is the call of the name on the value, and a pipe into a type without arguments is
the selector of the type that raises. Writing them so everywhere does not change what an expression is
lowered to, unless a pipe names a period constant that nothing in its scope shadows: that pipe calls
the function of the name, and the call invokes the constant.

A candidate that another one follows is the case to look at. There the selector gives null at once,
and the pipe raises and is softened afterwards.

## Main definitions

* `Retarget.Expr.unpiped` — the expression with calls and selectors in place of its pipes.
* `Retarget.Spot.IsPeriodPipe` — a pipe into a period constant that is not shadowed.
* `Retarget.Spot.Agrees` — an expression is lowered like the one without pipes.

## Main results

* `Retarget.transform_unpiped` — expressions are lowered like those without pipes, errors included.
-/

namespace Retarget

variable {α : Type}

/-! ## Expressions without pipes -/

/-- What a pipe stands for: a selector that raises, or a call whose first argument is the value. -/
def pipeTarget (note : α) (value : Expr α) (function : String) (args : List (Expr α)) : Expr α :=
  match selectable? function, args with
  | some _, [] => .select note function .raise [] [value]
  | _, _ => .call note (.var note function) (value :: args)

mutual

/-- The expression with what they stand for in place of its pipes, at every depth. -/
def Expr.unpiped : Expr α → Expr α
  | .literal note value => .literal note value
  | .array note items => .array note (unpipedAll items)
  | .record note fields => .record note (unpipedFields fields)
  | .var note name => .var note name
  | .unary note op operand => .unary note op operand.unpiped
  | .binary note op lhs rhs => .binary note op lhs.unpiped rhs.unpiped
  | .cond note test yes no => .cond note test.unpiped yes.unpiped no.unpiped
  | .letIn note bindings body => .letIn note (unpipedFields bindings) body.unpiped
  | .lambda note params body => .lambda note params body.unpiped
  | .call note callee args => .call note callee.unpiped (unpipedAll args)
  | .member note object field => .member note object.unpiped field
  | .pipe note value function args => pipeTarget note value.unpiped function (unpipedAll args)
  | .alternative note candidates => .alternative note (unpipedAll candidates)
  | .select note typeName policy constraints args =>
    .select note typeName policy (unpipedConditions constraints) (unpipedAll args)
  | .guarded note kind conditions body =>
    .guarded note kind (unpipedConditions conditions) body.unpiped

/-- A row of expressions. -/
def unpipedAll : List (Expr α) → List (Expr α)
  | [] => []
  | e :: es => e.unpiped :: unpipedAll es

/-- Expressions with names. -/
def unpipedFields : List (String × Expr α) → List (String × Expr α)
  | [] => []
  | (name, e) :: es => (name, e.unpiped) :: unpipedFields es

/-- Tests with labels. -/
def unpipedConditions : List (Condition (Expr α)) → List (Condition (Expr α))
  | [] => []
  | ⟨label, test⟩ :: es => ⟨label, test.unpiped⟩ :: unpipedConditions es

end

/-- The pipes are replaced in a row of expressions one by one. -/
@[simp] lemma unpipedAll_eq_map (es : List (Expr α)) : unpipedAll es = es.map Expr.unpiped := by
  induction es with
  | nil => rfl
  | cons e es ih => rw [unpipedAll, ih, List.map_cons]

/-- The pipes are replaced in expressions with names one by one. -/
@[simp] lemma unpipedFields_eq_map (es : List (String × Expr α)) :
    unpipedFields es = es.map (Prod.map id Expr.unpiped) := by
  induction es with
  | nil => rfl
  | cons p es ih => rw [unpipedFields, ih, List.map_cons, Prod.map_apply, id]

/-- The pipes are replaced in tests with labels one by one. -/
@[simp] lemma unpipedConditions_eq_map (es : List (Condition (Expr α))) :
    unpipedConditions es = es.map fun c => ⟨c.label, c.test.unpiped⟩ := by
  induction es with
  | nil => rfl
  | cons c es ih => rw [unpipedConditions, ih, List.map_cons]

/-- What a pipe stands for, by whether it is a selector. -/
lemma pipeTarget_cases (note : α) (value : Expr α) (function : String) (args : List (Expr α)) :
    (∃ s, selectable? function = some s ∧ args = [] ∧
      pipeTarget note value function args = .select note function .raise [] [value]) ∨
    (selectable? function = none ∨ args ≠ []) ∧
      pipeTarget note value function args = .call note (.var note function) (value :: args) := by
  cases hs : selectable? function with
  | none => exact .inr ⟨.inl rfl, by simp [pipeTarget, hs]⟩
  | some s =>
    cases args with
    | nil => exact .inl ⟨s, rfl, rfl, by simp [pipeTarget, hs]⟩
    | cons e es => exact .inr ⟨.inr (List.cons_ne_nil _ _), by simp [pipeTarget, hs]⟩

/-- A name stays the name that it is, and nothing else becomes one. -/
lemma varName?_unpiped (e : Expr α) : e.unpiped.varName? = e.varName? := by
  cases e with
  | pipe note value function args =>
    rw [Expr.unpiped]
    rcases pipeTarget_cases note value.unpiped function (unpipedAll args) with
      ⟨s, -, -, h⟩ | ⟨-, h⟩ <;> rw [h] <;> rfl
  | _ => rfl

/-! ## Pipes at their places -/

namespace Spot

/-- The expression is a pipe. -/
def IsPipe (s : Spot α) : Prop := ∃ note value function args, s.expr = .pipe note value function args

/-- The expression is a pipe into a period constant that no name in its scope shadows. -/
def IsPeriodPipe (s : Spot α) : Prop :=
  ∃ note value function args, s.expr = .pipe note value function args ∧
    function ∈ periods.map Prod.fst ∧ function ∉ s.names

/-- What is left of an expression is never a pipe. -/
lemma not_isPipe_unpiped {names : List String} {r : Bool} (e : Expr α) :
    ¬IsPipe ⟨names, r, e.unpiped⟩ := by
  rintro ⟨note, value, function, args, h⟩
  cases e with
  | pipe note' value' function' args' =>
    rw [Expr.unpiped] at h
    rcases pipeTarget_cases note' value'.unpiped function' (unpipedAll args') with
      ⟨s, -, -, htarget⟩ | ⟨-, htarget⟩ <;> rw [htarget] at h <;> cases h
  | _ => cases h

/-- The parts of an expression whose pipes are replaced are such expressions.

**Proof sketch.** One case for each construct: its parts without pipes are the parts with their
pipes replaced. What a pipe stands for has the value and the arguments for its parts, and a callee
that is a name is none. -/
lemma exists_unpiped_of_part {names : List String} {r : Bool} {e : Expr α} {t : Spot α}
    (h : Part true ⟨names, r, e.unpiped⟩ t) : ∃ e' : Expr α, t.expr = e'.unpiped := by
  have hmem {es : List (Expr α)} {x : Expr α} (h : x ∈ unpipedAll es) :
      ∃ e' : Expr α, x = e'.unpiped := by
    obtain ⟨e', -, rfl⟩ := List.mem_map.mp (unpipedAll_eq_map es ▸ h)
    exact ⟨e', rfl⟩
  have hfield {es : List (String × Expr α)} {p : String × Expr α} (h : p ∈ unpipedFields es) :
      ∃ e' : Expr α, p.2 = e'.unpiped := by
    obtain ⟨q, -, rfl⟩ := List.mem_map.mp (unpipedFields_eq_map es ▸ h)
    exact ⟨q.2, rfl⟩
  have htest {es : List (Condition (Expr α))} {c : Condition (Expr α)}
      (h : c ∈ unpipedConditions es) : ∃ e' : Expr α, c.test = e'.unpiped := by
    obtain ⟨d, -, rfl⟩ := List.mem_map.mp (unpipedConditions_eq_map es ▸ h)
    exact ⟨d.test, rfl⟩
  cases e with
  | literal note value | var note name => cases h
  | array note items =>
    cases h with
    | item h => exact hmem h
  | record note fields =>
    cases h with
    | field h => exact hfield h
  | unary note op e =>
    cases h with
    | operand => exact ⟨e, rfl⟩
  | binary note op a b =>
    cases h with
    | lhs => exact ⟨a, rfl⟩
    | rhs => exact ⟨b, rfl⟩
  | cond note test yes no =>
    cases h with
    | test => exact ⟨test, rfl⟩
    | yes => exact ⟨yes, rfl⟩
    | no => exact ⟨no, rfl⟩
  | letIn note bindings body =>
    rw [Expr.unpiped] at h
    generalize hbindings : unpipedFields bindings = es at h
    cases h with
    | bound => exact hfield (p := (_, _)) (hbindings ▸ List.mem_append_right _ List.mem_cons_self)
    | letBody => exact ⟨body, rfl⟩
  | lambda note params body =>
    cases h with
    | lambdaBody => exact ⟨body, rfl⟩
  | call note callee args =>
    cases h with
    | callee _ => exact ⟨callee, rfl⟩
    | argument h => exact hmem h
  | member note object field =>
    cases h with
    | object => exact ⟨object, rfl⟩
  | pipe note value function args =>
    rw [Expr.unpiped] at h
    rcases pipeTarget_cases note value.unpiped function (unpipedAll args) with
      ⟨s, -, -, htarget⟩ | ⟨-, htarget⟩
    · rw [htarget] at h
      cases h with
      | constraint h | message h _ => cases h
      | selected => exact ⟨value, rfl⟩
    · rw [htarget] at h
      cases h with
      | callee hname => cases hname
      | argument h =>
        rcases List.mem_cons.mp h with rfl | h
        · exact ⟨value, rfl⟩
        · exact hmem h
  | alternative note candidates =>
    rw [Expr.unpiped] at h
    generalize hcandidates : unpipedAll candidates = es at h
    cases h with
    | candidate => exact hmem (hcandidates ▸ List.mem_append_right _ List.mem_cons_self)
  | select note typeName policy constraints args =>
    rw [Expr.unpiped] at h
    generalize hargs : unpipedAll args = es at h
    cases h with
    | constraint h => exact htest h
    | selected => exact hmem (hargs ▸ List.mem_cons_self)
    | message h _ => exact hmem (hargs ▸ List.mem_cons_of_mem _ h)
  | guarded note kind conditions body =>
    cases h with
    | guardTest h | checkTest h => exact htest h
    | guardBody => exact ⟨body, rfl⟩

/-- No part of the expression is a pipe, at any depth. -/
lemma not_isPipe_of_within {e : Expr α} {t : Spot α} (h : e.unpiped.root.Within true t) :
    ¬t.IsPipe := by
  have hpart : ∃ e' : Expr α, t.expr = e'.unpiped := by
    induction h with
    | refl => exact ⟨e, rfl⟩
    | @tail s t _ hpart ih =>
      obtain ⟨e', he'⟩ := ih
      obtain ⟨names, r, expr⟩ := s
      subst he'
      exact exists_unpiped_of_part hpart
  obtain ⟨e', he'⟩ := hpart
  obtain ⟨names, r, expr⟩ := t
  subst he'
  exact not_isPipe_unpiped e'

end Spot

/-! ## Rows -/

section Rows

variable {scope : Scope} {f : Expr α → Expr α}

/-- Rows of expressions that are lowered alike one by one are lowered alike. -/
lemma lowerAll_map {es : List (Expr α)}
    (h : ∀ e ∈ es, (f e).lower scope false = e.lower scope false) :
    lowerAll scope (es.map f) = lowerAll scope es := by
  induction es with
  | nil => rfl
  | cons e es ih =>
    obtain ⟨he, hes⟩ := List.forall_mem_cons.mp h
    rw [List.map_cons, lowerAll, lowerAll, he, ih hes]

/-- Expressions with names that are lowered alike one by one are lowered alike. -/
lemma lowerFields_map {es : List (String × Expr α)}
    (h : ∀ p ∈ es, (f p.2).lower scope false = p.2.lower scope false) :
    lowerFields scope (es.map (Prod.map id f)) = lowerFields scope es := by
  induction es with
  | nil => rfl
  | cons p es ih =>
    obtain ⟨hp, hes⟩ := List.forall_mem_cons.mp h
    rw [List.map_cons, Prod.map_apply', lowerFields, lowerFields, hp, ih hes, id]

/-- Tests that are lowered alike one by one are lowered alike. -/
lemma lowerConditions_map {es : List (Condition (Expr α))}
    (h : ∀ c ∈ es, (f c.test).lower scope false = c.test.lower scope false) :
    lowerConditions scope (es.map fun c => ⟨c.label, f c.test⟩) = lowerConditions scope es := by
  induction es with
  | nil => rfl
  | cons c es ih =>
    obtain ⟨hc, hes⟩ := List.forall_mem_cons.mp h
    rw [List.map_cons, lowerConditions, lowerConditions, hc, ih hes]

/-- Bindings, each value of which is lowered the same in every scope of the names before it. -/
lemma lowerBindings_map {es : List (String × Expr α)}
    (h : ∀ (before : List (String × Expr α)) (name : String) (e : Expr α)
      (after : List (String × Expr α)), es = before ++ (name, e) :: after → ∀ outer : Scope,
      outer.map Prod.fst = (before.map Prod.fst).reverse ++ scope.map Prod.fst →
        (f e).lower outer false = e.lower outer false) :
    lowerBindings scope (es.map (Prod.map id f)) = lowerBindings scope es := by
  induction es generalizing scope with
  | nil => rfl
  | cons p es ih =>
    obtain ⟨name, e⟩ := p
    rw [List.map_cons, Prod.map_apply, id, lowerBindings, lowerBindings, h [] name e es rfl scope rfl]
    cases he : e.lower scope false with
    | error failure => rfl
    | ok ir =>
      simp only [bind, Except.bind]
      rw [ih fun before n e' after heq outer hnames => ?_]
      exact h ((name, e) :: before) n e' after (by rw [heq, List.cons_append]) outer
        (by rw [hnames]; simp)

/-- Candidates, all of which are lowered the same, and those that are followed up to softening. -/
lemma lowerCandidates_map {es : List (Expr α)}
    (h : ∀ e ∈ es, (f e).lower scope false = e.lower scope false ∧
      ((f e).lower scope true).map Ir.softened = (e.lower scope true).map Ir.softened) :
    lowerCandidates scope (es.map f) = lowerCandidates scope es := by
  induction es with
  | nil => rfl
  | cons e es ih =>
    obtain ⟨he, hes⟩ := List.forall_mem_cons.mp h
    rw [List.map_cons]
    by_cases hnil : es = []
    · rw [hnil, List.map_nil, lowerCandidates_singleton, lowerCandidates_singleton, he.1]
    · rw [lowerCandidates_cons (by simpa using hnil), lowerCandidates_cons hnil, he.2, ih hes]

/-- The value and the message of a selector. -/
lemma lowerSelected_map {args : List (Expr α)}
    (h : ∀ e ∈ args, (f e).lower scope false = e.lower scope false) (typeName : String)
    (silent : Bool) :
    lowerSelected scope typeName silent (args.map f) = lowerSelected scope typeName silent args := by
  cases args with
  | nil => rfl
  | cons value more =>
    obtain ⟨hvalue, hmore⟩ := List.forall_mem_cons.mp h
    have hhead : lowerHead scope (more.map f) = lowerHead scope more := by
      cases more with
      | nil => rfl
      | cons message rest =>
        rw [List.map_cons, lowerHead, lowerHead, hmore message List.mem_cons_self]
    rw [List.map_cons, lowerSelected, lowerSelected, hvalue, hhead]

/-- What is made of a selector whose constraints are lowered the same. -/
lemma select_map {typeName : String} {constraints : List (Condition (Expr α))}
    (h : ∀ ty, ∀ c ∈ constraints, (f c.test).lower ((itName, ty) :: scope) false =
      c.test.lower ((itName, ty) :: scope) false) (policy : SelectPolicy) (value : Ir)
    (message : Option Ir) :
    select scope typeName policy (constraints.map fun c => ⟨c.label, f c.test⟩) value message =
      select scope typeName policy constraints value message := by
  rw [select, select]
  cases selectable? typeName with
  | none => rfl
  | some s =>
    cases constraints with
    | nil => rfl
    | cons c cs =>
      have htests := lowerConditions_map (h s.ty)
      rw [List.map_cons] at htests
      simp only [List.map_cons, htests]

end Rows

/-! ## Lowering without pipes -/

section Constructs

variable {scope : Scope}

/-- The call of a name that is in scope, or of one that is no period constant. -/
lemma lower_call_name {note : α} {name : String} (args : List (Expr α))
    (h : name ∈ periods.map Prod.fst → name ∈ scope.map Prod.fst) :
    (Expr.call note (.var note name) args).lower scope false =
      (lowerAll scope args).map fun args =>
        match scope.lookup name with
        | some ty => invoke (.var name ty) args
        | none => operator name args := by
  rw [Expr.lower]
  cases lowerAll scope args with
  | error failure => rfl
  | ok irs =>
    cases hscope : scope.lookup name with
    | some ty =>
      have hvalue : (some name).filter (isOperatorName scope) = none := by
        simp [Option.filter, isOperatorName, hscope]
      simp only [Expr.varName?, hvalue, Expr.lower, lowerVariable, hscope]
      rfl
    | none =>
      have hperiod : periods.lookup name = none := by
        rw [lookup_eq_none_iff_not_mem] at hscope ⊢
        exact mt h hscope
      have hname : (some name).filter (isOperatorName scope) = some name := by
        simp [Option.filter, isOperatorName, hscope, hperiod]
      simp only [Expr.varName?, hname]
      rfl

/-- A pipe is lowered like what it stands for.

**Proof sketch.** By what the pipe stands for (`pipeTarget_cases`). A selector of one value has no
message and no constraints. A call has the piped value as its first argument, so it is no period
constant, and its named callee is looked up as the pipe does. -/
lemma lower_pipeTarget {note : α} {value : Expr α} {function : String} {args : List (Expr α)}
    (h : function ∈ periods.map Prod.fst → function ∈ scope.map Prod.fst) :
    (pipeTarget note value function args).lower scope false =
      (Expr.pipe note value function args).lower scope false := by
  rcases pipeTarget_cases note value function args with ⟨s, hs, rfl, htarget⟩ | ⟨hcall, htarget⟩
  · rw [htarget, lower_select, Expr.lower, lowerSelected, lowerAll]
    cases value.lower scope false with
    | error failure => rfl
    | ok ir => simp [hs, select, lowerHead, bind, Except.bind, pure, Except.pure]
  · rw [htarget, lower_call_name _ h, Expr.lower, lowerAll]
    cases value.lower scope false with
    | error failure => rfl
    | ok ir =>
      cases hargs : lowerAll scope args with
      | error failure => rfl
      | ok irs =>
        rcases hcall with hnone | hne
        · simp only [bind, Except.bind, pure, Except.pure, Except.map, hnone]
          cases scope.lookup function <;> rfl
        · obtain ⟨first, rest, rfl⟩ : ∃ first rest, irs = first :: rest := by
            obtain ⟨e, es, rfl⟩ := List.exists_cons_of_ne_nil hne
            obtain ⟨x, -, hrest⟩ := exists_of_bind_eq_ok hargs
            obtain ⟨xs, -, hrow⟩ := exists_of_bind_eq_ok hrest
            cases hrow
            exact ⟨x, xs, rfl⟩
          simp only [bind, Except.bind, pure, Except.pure, Except.map]
          cases selectable? function <;> cases scope.lookup function <;> rfl

/-- What a pipe stands for is steady. -/
lemma steady_pipeTarget (note : α) (value : Expr α) (function : String) (args : List (Expr α)) :
    (pipeTarget note value function args).Steady scope := by
  rcases pipeTarget_cases note value function args with ⟨s, -, -, htarget⟩ | ⟨-, htarget⟩
  · rw [htarget]
    exact .inr ⟨rfl, nofun⟩
  · rw [htarget]
    trivial

end Constructs

namespace Spot

/-- In every scope of the names that it sees, the expression is lowered like the one without pipes;
as a candidate that another one follows, it stands for the same candidates. -/
def Agrees (s : Spot α) : Prop :=
  ∀ scope : Scope, scope.map Prod.fst = s.names →
    s.expr.unpiped.lower scope false = s.expr.lower scope false ∧
      (s.expr.unpiped.lower scope true).map Ir.softened = (s.expr.lower scope true).map Ir.softened

/-- Steady expressions that are lowered the same on their own stand for the same candidates. -/
lemma agrees_of_steady {scope : Scope} {e f : Expr α} (he : e.Steady scope) (hf : f.Steady scope)
    (h : f.lower scope false = e.lower scope false) :
    f.lower scope false = e.lower scope false ∧
      (f.lower scope true).map Ir.softened = (e.lower scope true).map Ir.softened :=
  ⟨h, by rw [← hf.map_softened, ← he.map_softened, h]⟩

/-- An expression agrees if its parts do and it is no pipe into a period constant.

**Proof sketch.** By cases on the expression. Every form but a pipe lowers its parts and joins the
results, so the equations of the parts are rewritten one by one (`lowerAll_map`,
`lowerBindings_map`, `lowerCandidates_map`, `lowerConditions_map` for rows of parts). The equation
of a body that sees more names (a body of `let`, of a function or of a test of `it`) is taken in the
scope it is lowered in. A pipe itself becomes the selector or call that `lower_pipeTarget` names,
which needs that the function is no free period constant. Only a selector and a pipe into one read
whether a failure may be recovered, so both values are settled there. -/
lemma agrees_of_parts {s : Spot α} (hperiod : ¬s.IsPeriodPipe)
    (hparts : ∀ t, s.Part true t → t.Agrees) : s.Agrees := by
  obtain ⟨names, r, e⟩ := s
  rintro scope rfl
  have hplain {t : Expr α} (h : Part true ⟨scope.map Prod.fst, r, e⟩ ⟨scope.map Prod.fst, false, t⟩) :
      t.unpiped.lower scope false = t.lower scope false := (hparts _ h scope rfl).1
  cases e with
  | literal note value => exact ⟨rfl, rfl⟩
  | var note name => exact ⟨rfl, rfl⟩
  | array note items =>
    refine agrees_of_steady trivial trivial ?_
    rw [Expr.unpiped, unpipedAll_eq_map, Expr.lower, Expr.lower,
      lowerAll_map fun e he => hplain (.item he)]
  | record note fields =>
    refine agrees_of_steady trivial trivial ?_
    rw [Expr.unpiped, unpipedFields_eq_map, Expr.lower, Expr.lower,
      lowerFields_map fun e he => hplain (.field he)]
  | unary note op e =>
    refine agrees_of_steady trivial trivial ?_
    rw [Expr.unpiped, Expr.lower, Expr.lower, hplain .operand]
  | binary note op a b =>
    refine agrees_of_steady trivial trivial ?_
    rw [Expr.unpiped, Expr.lower, Expr.lower, hplain .lhs, hplain .rhs]
  | cond note test yes no =>
    refine agrees_of_steady trivial trivial ?_
    rw [Expr.unpiped, Expr.lower, Expr.lower, hplain .test, hplain .yes, hplain .no]
  | letIn note bindings body =>
    refine agrees_of_steady trivial trivial ?_
    have hbindings : lowerBindings scope (bindings.map (Prod.map id Expr.unpiped)) =
        lowerBindings scope bindings := by
      refine lowerBindings_map ?_
      rintro before name e after rfl outer houter
      exact (hparts _ .bound outer houter).1
    rw [Expr.unpiped, unpipedFields_eq_map, Expr.lower, Expr.lower, hbindings]
    cases hinner : lowerBindings scope bindings with
    | error failure => rfl
    | ok found =>
      -- The scope of the body is the one that lowering the bindings ends in.
      have hbody := (hparts _ .letBody found.2 (names_of_lowerBindings hinner)).1
      simp only [bind, Except.bind, hbody]
  | lambda note params body =>
    refine agrees_of_steady trivial trivial ?_
    have hbody := (hparts _ .lambdaBody _ (names_withParams params)).1
    rw [Expr.unpiped, Expr.lower, Expr.lower]
    exact congrArg (· >>= fun body => pure (Ir.lambda params body Ty.function)) hbody
  | call note callee args =>
    refine agrees_of_steady trivial trivial ?_
    have hcallee : callee.unpiped.lower scope false = callee.lower scope false := by
      -- A named callee is not lowered as an expression, and taking pipes out keeps it.
      cases hname : callee.varName? with
      | none => exact hplain (.callee hname)
      | some name =>
        cases callee with
        | var note name => rfl
        | _ => cases hname
    rw [Expr.unpiped, unpipedAll_eq_map, Expr.lower, Expr.lower,
      lowerAll_map fun e he => hplain (.argument he), varName?_unpiped, hcallee]
  | member note object field =>
    refine agrees_of_steady trivial trivial ?_
    rw [Expr.unpiped, Expr.lower, Expr.lower, hplain .object]
  | pipe note value function args =>
    have hnamed : function ∈ periods.map Prod.fst → function ∈ scope.map Prod.fst := by
      intro h
      by_contra hfree
      exact hperiod ⟨note, value, function, args, rfl, h, hfree⟩
    rw [Expr.unpiped]
    refine agrees_of_steady trivial (steady_pipeTarget _ _ _ _) ?_
    rw [lower_pipeTarget hnamed, unpipedAll_eq_map, Expr.lower, Expr.lower, hplain .piped,
      lowerAll_map fun e he => hplain (.pipeArgument he)]
  | alternative note candidates =>
    refine agrees_of_steady trivial trivial ?_
    have hcandidates : lowerCandidates scope (candidates.map Expr.unpiped) =
        lowerCandidates scope candidates := by
      refine lowerCandidates_map fun e he => ?_
      obtain ⟨before, after, rfl⟩ := List.append_of_mem he
      exact hparts _ .candidate scope rfl
    rw [Expr.unpiped, unpipedAll_eq_map, lower_alternative, lower_alternative, hcandidates]
  | select note typeName policy constraints args =>
    have hargs : ∀ e ∈ args, e.unpiped.lower scope false = e.lower scope false := by
      intro e he
      cases args with
      | nil => cases he
      | cons value more =>
        rcases List.mem_cons.mp he with rfl | he
        · exact hplain .selected
        · exact hplain (.message he (.inl rfl))
    -- A selector is the one form whose lowering asks whether its failure is recovered.
    have hsame (recover : Bool) :
        (Expr.select note typeName policy constraints args).unpiped.lower scope recover =
          (Expr.select note typeName policy constraints args).lower scope recover := by
      rw [Expr.unpiped, unpipedAll_eq_map, unpipedConditions_eq_map, lower_select, lower_select,
        lowerSelected_map hargs]
      simp only [select_map fun ty c hc => (hparts _ (.constraint hc) ((itName, ty) :: scope) rfl).1]
    exact ⟨hsame false, by rw [hsame true]⟩
  | guarded note kind conditions body =>
    refine agrees_of_steady trivial trivial ?_
    rw [Expr.unpiped, unpipedConditions_eq_map]
    cases kind with
    | guard =>
      rw [Expr.lower, Expr.lower, lowerConditions_map fun c hc => hplain (.guardTest hc),
        hplain .guardBody]
    | check =>
      rw [Expr.lower, Expr.lower, hplain .guardBody]
      cases body.lower scope false with
      | error failure => rfl
      | ok value =>
        have htests := lowerConditions_map fun c hc =>
          (hparts _ (.checkTest (c := c) hc) ((itName, value.ty) :: scope) rfl).1
        simp only [bind, Except.bind, htests]

/-- An expression agrees if none of its parts is a pipe into a period constant, by induction over its
size. -/
lemma agrees_of_within {s : Spot α} (h : ∀ t, s.Within true t → ¬t.IsPeriodPipe) : s.Agrees := by
  induction hsize : sizeOf s.expr using Nat.strongRecOn generalizing s with
  | _ n ih =>
    refine agrees_of_parts (h s .refl) fun t hpart => ?_
    subst hsize
    exact ih _ hpart.sizeOf_lt (fun u hu => h u (.head hpart hu)) rfl

end Spot

/-- **Pipes are calls.** Where no pipe names a period constant that is not shadowed, an expression is
lowered like the one that has calls and selectors in place of its pipes, errors included.

**Proof sketch.** Every construct is lowered by lowering its parts, each in a scope of the names that
it sees. A pipe looks its name up in the same scope as the call does. As a candidate that is followed
a pipe into a type raises and is softened; the selector gives null at once, and softening the former
gives the latter. -/
theorem transform_unpiped {e : Expr α} (h : ∀ s, e.root.Within true s → ¬s.IsPeriodPipe) :
    (∀ s, e.unpiped.root.Within true s → ¬s.IsPipe) ∧ transform e.unpiped = transform e :=
  ⟨fun _ hs => Spot.not_isPipe_of_within hs,
    (Spot.agrees_of_within h [(inputName, .any)] rfl).1⟩

/-- A pipe into a type that another candidate follows, and one into a name of a period constant that a
binding shadows. -/
def shadowedPeriod : Expr Unit :=
  .letIn () [("TODAY", .var () "_")]
    (.alternative () [.pipe () (.var () "_") "Int" [], .pipe () (.literal () (.int 1)) "TODAY" []])

/-- The first pipe is the selector and the second one the call of the bound name.

**Proof sketch.** All expressions of the source are listed by induction on how one lies within
another, six in number. Of the two pipes among them one leads into `Int`, which is no period
constant, and the other into a name that is bound. -/
theorem transform_unpiped_shadowedPeriod :
    (∀ s, shadowedPeriod.root.Within true s → ¬s.IsPeriodPipe) ∧
      (∃ ir, transform shadowedPeriod = .ok ir) ∧
      transform (.letIn () [("TODAY", .var () "_")] (.alternative ()
        [.select () "Int" .raise [] [.var () "_"],
          .call () (.var () "TODAY") [.literal () (.int 1)]])) = transform shadowedPeriod := by
  have hpipes : ∀ s, shadowedPeriod.root.Within true s → ¬s.IsPeriodPipe := by
    intro s hs
    have hparts : s.names = [inputName] ∧ s.expr = shadowedPeriod ∨
        s.names = ["TODAY", inputName] ∧
          s.expr = .alternative () [.pipe () (.var () "_") "Int" [],
            .pipe () (.literal () (.int 1)) "TODAY" []] ∨
        s.names = ["TODAY", inputName] ∧ s.expr = .pipe () (.var () "_") "Int" [] ∨
        s.names = ["TODAY", inputName] ∧ s.expr = .pipe () (.literal () (.int 1)) "TODAY" [] ∨
        s.expr = .var () "_" ∨ s.expr = .literal () (.int 1) := by
      induction hs with
      | refl => exact .inl ⟨rfl, rfl⟩
      | @tail s t _ hpart ih =>
        obtain ⟨names, r, e⟩ := s
        rcases ih with ⟨rfl, rfl⟩ | ⟨rfl, rfl⟩ | ⟨rfl, rfl⟩ | ⟨rfl, rfl⟩ | rfl | rfl
        · rw [shadowedPeriod] at hpart
          -- `cases` needs the row of bindings as a variable.
          generalize hbindings : [("TODAY", Expr.var () "_")] = bindings at hpart
          cases hpart with
          | @bound _ _ _ before after name e body =>
            have hmem : (name, e) ∈ [("TODAY", Expr.var () "_")] := by simp [hbindings]
            simp [(Prod.mk.inj (List.mem_singleton.mp hmem)).2]
          | letBody => simp [← hbindings]
        · generalize hcandidates : [Expr.pipe () (.var () "_") "Int" [],
            .pipe () (.literal () (.int 1)) "TODAY" []] = candidates at hpart
          cases hpart with
          | @candidate _ _ _ before after e =>
            have hmem : e ∈ [Expr.pipe () (.var () "_") "Int" [],
              .pipe () (.literal () (.int 1)) "TODAY" []] := by simp [hcandidates]
            rcases List.mem_cons.mp hmem with rfl | hmem
            · simp
            · simp [List.mem_singleton.mp hmem]
        · cases hpart with
          | piped => simp
          | pipeArgument h => cases h
        · cases hpart with
          | piped => simp
          | pipeArgument h => cases h
        · cases hpart
        · cases hpart
    rintro ⟨note, value, function, args, hexpr, hperiod, hfree⟩
    rcases hparts with ⟨hnames, heq⟩ | ⟨hnames, heq⟩ | ⟨hnames, heq⟩ | ⟨hnames, heq⟩ | heq | heq
    all_goals
      rw [heq] at hexpr
      cases hexpr
    · exact absurd hperiod (by decide)
    · exact hfree (hnames ▸ List.mem_cons_self)
  exact ⟨hpipes, ⟨_, rfl⟩, (transform_unpiped hpipes).2⟩

end Retarget
