import Retarget.Compile
import Retarget.Proofs.Typing

set_option autoImplicit false

/-!
# Calls of lowered forms

Every call of a lowered form has its type by one of a few rules: most have the type that follows from
the name and the types of the arguments, and the constructs that build values, read members, select
types and fail have types of their own.

## Main definitions

* `Retarget.CallRule` — the rules for the types of calls.
* `Retarget.Ir.Ruled` — all calls of a lowered form follow a rule.

## Main results

* `Retarget.ruled_of_lowerSource` — so do the calls of the lowered form of a source.
-/

namespace Retarget

variable {α : Type}

/-! ## Rules -/

/-- The selector calls of a type that give a value of the type. -/
def Selectable.valueCalls (s : Selectable) : List String :=
  ["as_" ++ s.stem, "as_" ++ s.stem ++ "_or_null", "assert_" ++ s.stem]

/-- The type of a call by its name and the types of its arguments. -/
inductive CallRule : String → List Ty → Ty → Prop
  /-- The type follows from the name and the types of the arguments. -/
  | operator (name : String) (types : List Ty) : CallRule name types (resultType name types)
  | array (types : List Ty) : CallRule "array" types (arrayType types)
  | record (types : List Ty) (fields : List (String × Ty)) : CallRule "record" types (.record fields)
  | member (object ty : Ty) : CallRule "field" [object, .string] ty
  | fail (ty : Ty) : CallRule "fail" [.string] ty
  | selector {s : Selectable} {name : String} (types : List Ty) : s ∈ selectables →
      name ∈ s.valueCalls → CallRule name types s.ty
  | check {s : Selectable} (types : List Ty) : s ∈ selectables →
      CallRule ("is_" ++ s.stem) types .bool

/-- The calls with types of their own. -/
def builtCalls : List String := ["array", "record", "field", "fail"] ++ Helper.selectorFunctions

/-- All other calls have the type that follows from the name and the types of the arguments. -/
lemma CallRule.eq_resultType {name : String} {types : List Ty} {ty : Ty} (h : CallRule name types ty)
    (hname : name ∉ builtCalls) : ty = resultType name types := by
  have hselector : ∀ s ∈ selectables, (∀ name ∈ s.valueCalls, name ∈ builtCalls) ∧
      "is_" ++ s.stem ∈ builtCalls := by
    decide
  cases h with
  | operator => rfl
  | array | record | member | fail => exact absurd (by decide) hname
  | selector _ hs hmem => exact absurd ((hselector _ hs).1 _ hmem) hname
  | check _ hs => exact absurd (hselector _ hs).2 hname

/-- All calls follow a rule. -/
inductive Ir.Ruled : Ir → Prop
  | literal {value : Literal} {ty : Ty} : Ruled (.literal value ty)
  | var {name : String} {ty : Ty} : Ruled (.var name ty)
  | letIn {bindings : List (String × Ir)} {body : Ir} {ty : Ty} : (∀ b ∈ bindings, Ruled b.2) →
      Ruled body → Ruled (.letIn bindings body ty)
  | lambda {params : List String} {body : Ir} {ty : Ty} : Ruled body →
      Ruled (.lambda params body ty)
  | cond {test yes no : Ir} {ty : Ty} : Ruled test → Ruled yes → Ruled no →
      Ruled (.cond test yes no ty)
  | alternative {candidates : List Ir} {ty : Ty} : (∀ c ∈ candidates, Ruled c) →
      Ruled (.alternative candidates ty)
  | call {name : String} {args : List Ir} {ty : Ty} : (∀ a ∈ args, Ruled a) →
      CallRule name (args.map Ir.ty) ty → Ruled (.call name args (args.map Ir.ty) ty)

/-- The names whose calls can have a type other than `any` by their arguments. -/
def typedCalls : List String :=
  truthCalls ++ stringCalls ++ integerCalls ++ dateCalls ++ dateTimeCalls ++
    ["map", "filter", "neg", "pos", "abs", "first", "last", "add", "sub", "mul", "div", "mod", "pow"]

/-- A name that no rule of types knows gives `any`. -/
lemma resultType_eq_any {name : String} (hname : name ∉ typedCalls) (types : List Ty) :
    resultType name types = .any := by
  simp only [typedCalls, List.mem_append, List.mem_cons, List.not_mem_nil, or_false, not_or] at hname
  obtain ⟨⟨⟨⟨⟨htruth, hstring⟩, hinteger⟩, hdate⟩, hdateTime⟩, hmap, hfilter, hneg, hpos, habs, hfirst,
    hlast, hadd, hsub, hmul, hdiv, hmod, hpow⟩ := hname
  unfold resultType
  rw [if_neg htruth, if_neg hstring, if_neg hinteger, if_neg hmap]
  match types with
  | [] => rw [constantType, if_neg hdate, if_neg hdateTime]
  | [_] => simp [hfilter, unaryType, hneg, hpos, habs, hfirst, hlast]
  | [_, _] => simp [hfilter, binaryType, hadd, hsub, hmul, hdiv, hmod, hpow]
  | _ :: _ :: _ :: _ => simp [hfilter]

namespace Selectable

/-- The selector calls of a type have no rule of their own by name. -/
lemma resultType_valueCalls : ∀ s ∈ selectables, ∀ name ∈ s.valueCalls, ∀ types : List Ty,
    resultType name types = .any := by
  intro s hs name hname types
  refine resultType_eq_any ?_ types
  revert s name
  decide

/-- A selector call that raises is one that gives a value. -/
lemma mem_valueCalls_of_raisingStem {name stem : String} (h : raisingStem? name = some stem) :
    ∃ s ∈ selectables, stem = s.stem ∧ name ∈ s.valueCalls := by
  unfold raisingStem? at h
  obtain ⟨s, hfound, rfl⟩ := Option.map_eq_some_iff.mp h
  refine ⟨s, List.mem_of_find?_eq_some hfound, rfl, ?_⟩
  have hraising := List.find?_some hfound
  simp only [Selectable.raising, List.contains_iff_mem, List.mem_cons, List.not_mem_nil,
    or_false] at hraising
  simp only [Selectable.valueCalls, List.mem_cons, List.not_mem_nil, or_false]
  tauto

/-- A selector call that raises is of one type only, and a check never raises. -/
lemma raisingStem_of_mem : ∀ s ∈ selectables, raisingStem? ("is_" ++ s.stem) = none ∧
    ∀ name ∈ s.valueCalls, ∀ stem ∈ raisingStem? name, stem = s.stem := by
  decide

end Selectable

section Names

variable {name : String} {types : List Ty} {ty : Ty}

/-- An array has the type of its items, or any type. -/
lemma CallRule.array_cases (h : CallRule name types ty) (hname : name = "array") :
    ty = .any ∨ ty = arrayType types := by
  have hselector : ∀ s ∈ selectables, "array" ∉ s.valueCalls ∧ "is_" ++ s.stem ≠ "array" := by decide
  cases h with
  | operator =>
    subst hname
    exact .inl (resultType_eq_any (by decide) types)
  | array => exact .inr rfl
  | record | member | fail => exact absurd hname (by decide)
  | selector _ hs hmem => exact absurd (hname ▸ hmem) (hselector _ hs).1
  | check _ hs => exact absurd hname (hselector _ hs).2

/-- A record has a type of records, or any type. -/
lemma CallRule.record_cases (h : CallRule name types ty) (hname : name = "record") :
    ty = .any ∨ ∃ fields, ty = .record fields := by
  have hselector : ∀ s ∈ selectables, "record" ∉ s.valueCalls ∧ "is_" ++ s.stem ≠ "record" := by
    decide
  cases h with
  | operator =>
    subst hname
    exact .inl (resultType_eq_any (by decide) types)
  | record => exact .inr ⟨_, rfl⟩
  | array | member | fail => exact absurd hname (by decide)
  | selector _ hs hmem => exact absurd (hname ▸ hmem) (hselector _ hs).1
  | check _ hs => exact absurd hname (hselector _ hs).2

/-- A selector call has the type that it selects, unless it is called by name. -/
lemma CallRule.selector_cases (h : CallRule name types ty) {s : Selectable} (hs : s ∈ selectables)
    (hname : name ∈ s.valueCalls) :
    ty = .any ∨ ∃ t ∈ selectables, name ∈ t.valueCalls ∧ ty = t.ty := by
  have hother : ∀ s ∈ selectables, "array" ∉ s.valueCalls ∧ "record" ∉ s.valueCalls ∧
      "field" ∉ s.valueCalls ∧ "fail" ∉ s.valueCalls ∧
      ∀ t ∈ selectables, "is_" ++ t.stem ∉ s.valueCalls := by
    decide
  obtain ⟨harray, hrecord, hfield, hfail, hcheck⟩ := hother s hs
  cases h with
  | operator => exact .inl (Selectable.resultType_valueCalls s hs name hname types)
  | array => exact absurd hname harray
  | record => exact absurd hname hrecord
  | member => exact absurd hname hfield
  | fail => exact absurd hname hfail
  | selector _ ht hmem => exact .inr ⟨_, ht, hmem, rfl⟩
  | check _ ht => exact absurd hname (hcheck _ ht)

/-- A check gives a truth value, unless it is called by name. -/
lemma CallRule.check_cases (h : CallRule name types ty) {s : Selectable} (hs : s ∈ selectables)
    (hname : name = "is_" ++ s.stem) : ty = .any ∨ ty = .bool := by
  have hother : ∀ s ∈ selectables, "is_" ++ s.stem ∉ ["array", "record", "field", "fail"] ∧
      (∀ t ∈ selectables, "is_" ++ s.stem ∉ t.valueCalls) ∧
      "is_" ++ s.stem ∉ typedCalls := by
    decide
  obtain ⟨hbuilt, hselector, htyped⟩ := hother s hs
  rw [← hname] at hbuilt hselector htyped
  cases h with
  | operator => exact .inl (resultType_eq_any htyped types)
  | array | record | member | fail => exact absurd (by decide) hbuilt
  | selector _ ht hmem => exact absurd hmem (hselector _ ht)
  | check => exact .inr rfl

end Names

/-! ## Softening -/

/-- The twin of a selector call that raises has the same type. -/
lemma CallRule.softened {name stem : String} {types : List Ty} {ty : Ty}
    (h : CallRule name types ty) (hstem : raisingStem? name = some stem) :
    CallRule ("as_" ++ stem ++ "_or_null") (types.take 1) ty := by
  obtain ⟨s, hs, rfl, hname⟩ := Selectable.mem_valueCalls_of_raisingStem hstem
  have htwin : "as_" ++ s.stem ++ "_or_null" ∈ s.valueCalls :=
    List.mem_cons_of_mem _ List.mem_cons_self
  cases h with
  | operator =>
    rw [Selectable.resultType_valueCalls s hs name hname types,
      ← Selectable.resultType_valueCalls s hs _ htwin (types.take 1)]
    exact .operator _ _
  | array => cases hstem
  | record => cases hstem
  | member => cases hstem
  | fail => cases hstem
  | @selector s' _ _ hs' hname' =>
    have hsame := (Selectable.raisingStem_of_mem s' hs').2 name hname' s.stem hstem
    rw [hsame]
    exact .selector _ hs' (List.mem_cons_of_mem _ List.mem_cons_self)
  | @check s' _ hs' =>
    rw [(Selectable.raisingStem_of_mem s' hs').1] at hstem
    cases hstem

namespace Ir.Ruled

/-- A constant has no calls. -/
lemma ofLiteral (value : Literal) : (Ir.ofLiteral value).Ruled := .literal

/-- The call of an operator on arguments that follow the rules. -/
lemma operator {args : List Ir} (h : ∀ a ∈ args, a.Ruled) (name : String) :
    (Retarget.operator name args).Ruled :=
  .call h (.operator _ _)

/-- A failure with a message follows the rules. -/
lemma fail (message : String) (ty : Ty) : (Ir.fail message ty).Ruled :=
  .call (List.forall_mem_singleton.mpr .literal) (.fail ty)

/-- The name `it` bound around a form that follows the rules. -/
lemma bindIt {value body : Ir} (hvalue : value.Ruled) (hbody : body.Ruled) :
    (Ir.bind [(itName, value)] body).Ruled :=
  .letIn (List.forall_mem_singleton.mpr hvalue) hbody

/-- Softening keeps the rules.

**Proof sketch.** By induction on the rules. Only calls change: a failure becomes null, and a
raising selector becomes its twin, which has the same rule with fewer arguments
(`CallRule.softened`). -/
lemma soften {ir : Ir} (h : ir.Ruled) : ir.soften.Ruled := by
  induction h with
  | literal => exact .literal
  | var => exact .var
  | letIn hvalues _ _ ih => exact .letIn hvalues ih
  | lambda hbody => exact .lambda hbody
  | cond htest _ _ _ ihyes ihno => exact .cond htest ihyes ihno
  | alternative h => exact .alternative h
  | @call name args ty hargs hrule =>
    rw [Ir.soften]
    split_ifs with hfail
    · exact .literal
    · cases hstem : raisingStem? name with
      | none => exact .call hargs hrule
      | some stem =>
        have hsoft := hrule.softened hstem
        rw [← List.map_take] at hsoft
        exact .call (fun a ha => hargs a (List.mem_of_mem_take ha)) hsoft

end Ir.Ruled

mutual

/-- The candidates that a candidate stands for keep the rules. -/
lemma Ir.Ruled.softened : ∀ {ir : Ir}, ir.Ruled → ∀ c ∈ ir.softened, c.Ruled
  | .alternative _ _, .alternative h, c, hc => ruled_softenedAll h c hc
  | .literal _ _, h, _, hc | .var _ _, h, _, hc | .letIn _ _ _, h, _, hc
  | .lambda _ _ _, h, _, hc | .cond _ _ _ _, h, _, hc | .call _ _ _ _, h, _, hc => by
    obtain rfl := List.mem_singleton.mp hc
    exact h.soften

/-- The candidates that a row of candidates stands for keep the rules. -/
lemma ruled_softenedAll :
    ∀ {irs : List Ir}, (∀ ir ∈ irs, ir.Ruled) → ∀ c ∈ softenedAll irs, c.Ruled
  | [], _, c, hc => by cases hc
  | ir :: irs, h, c, hc => by
    rcases List.mem_append.mp hc with hc | hc
    · exact (h ir (by simp)).softened c hc
    · exact ruled_softenedAll (fun d hd => h d (List.mem_cons_of_mem ir hd)) c hc

end

/-! ## Conditions and selectors -/

section Conditions

variable {tests : List (Condition Ir)} (htests : ∀ c ∈ tests, c.test.Ruled)

include htests

/-- Tests in front of a body that follows the rules. -/
lemma ruled_failFast {body : Ir} (hbody : body.Ruled) (label : String) :
    (failFast tests body label).Ruled := by
  unfold failFast
  generalize body.ty = ty
  induction tests with
  | nil => exact hbody
  | cons c cs ih =>
    have hrest := ih fun d hd => htests d (List.mem_cons_of_mem c hd)
    exact .cond (htests c (by simp)) hrest (.fail _ ty)

/-- Tests that hold together. -/
lemma ruled_allOf : (allOf tests).Ruled := by
  cases tests with
  | nil => exact .literal
  | cons c cs =>
    have hfirst := htests c (by simp)
    have hrest : ∀ d ∈ cs, d.test.Ruled := fun d hd => htests d (by simp [hd])
    rw [allOf]
    clear htests
    generalize c.test = conjunction at hfirst
    induction cs generalizing conjunction with
    | nil => exact hfirst
    | cons d ds ih =>
      have hboth : ∀ a ∈ [conjunction, d.test], a.Ruled := by
        simpa using ⟨hfirst, hrest d (by simp)⟩
      exact ih (fun e he => hrest e (List.mem_cons_of_mem d he)) _ (.operator hboth "and")

end Conditions

/-- A value in the call of a selector. -/
lemma ruled_dress {s : Selectable} (hs : s ∈ selectables) (policy : SelectPolicy) {value : Ir}
    {message : Option Ir} (hvalue : value.Ruled) (hmessage : ∀ m ∈ message, m.Ruled) :
    (dress s policy value message).Ruled := by
  have hone : ∀ a ∈ [value], a.Ruled := List.forall_mem_singleton.mpr hvalue
  cases policy with
  | raise => exact .call hone (.selector _ hs List.mem_cons_self)
  | orNull => exact .call hone (.selector _ hs (List.mem_cons_of_mem _ List.mem_cons_self))
  | check => exact .call hone (.check _ hs)
  | assert =>
    have hword : (message.getD (.ofString ("expected " ++ s.name))).Ruled := by
      cases message with
      | none => exact .literal
      | some m => exact hmessage m rfl
    exact .call (List.forall_mem_cons.mpr ⟨hvalue, List.forall_mem_singleton.mpr hword⟩)
      (.selector _ hs (by simp [Selectable.valueCalls]))

/-- A value in the call of a selector with tests. -/
lemma ruled_constrained {s : Selectable} (hs : s ∈ selectables) (policy : SelectPolicy)
    {tests : List (Condition Ir)} {value : Ir} {message : Option Ir}
    (htests : ∀ c ∈ tests, c.test.Ruled) (hvalue : value.Ruled) (hmessage : ∀ m ∈ message, m.Ruled) :
    (constrained s policy tests value message).Ruled := by
  cases policy with
  | raise | assert =>
    exact .bindIt (ruled_dress hs _ hvalue hmessage) (ruled_failFast htests .var _)
  | orNull =>
    have hequal : ∀ a ∈ [Ir.var itName s.ty, .ofLiteral .null], a.Ruled := by
      simpa using ⟨.var, .ofLiteral .null⟩
    exact .bindIt (ruled_dress hs _ hvalue (by simp))
      (.cond (.operator hequal "eq") .literal (.cond (ruled_allOf htests) .var .literal))
  | check =>
    exact .cond (ruled_dress hs .check hvalue (by simp))
      (.bindIt (ruled_dress hs .raise hvalue (by simp)) (ruled_allOf htests)) .literal

/-! ## Lowering -/

/-- A selector that is found is one of the table. -/
lemma mem_selectables {name : String} {s : Selectable} (h : selectable? name = some s) :
    s ∈ selectables :=
  List.mem_of_find?_eq_some h

/-- The call of a function that is a value. -/
lemma ruled_invoke {callee : Ir} {args : List Ir} (h : ∀ a ∈ callee :: args, a.Ruled) :
    (invoke callee args).Ruled := by
  have hany : resultType "invoke" ((callee :: args).map Ir.ty) = .any :=
    resultType_eq_any (by decide) _
  unfold invoke Ir.apply
  rw [← hany]
  exact .call h (.operator _ _)

/-- A variable is lowered to a form without calls. -/
lemma ruled_of_lowerVariable {scope : Scope} {name : String} {ir : Ir}
    (h : lowerVariable scope name = .ok ir) : ir.Ruled := by
  unfold lowerVariable at h
  split at h
  · cases h
    exact .var
  · split at h
    · cases h
      exact .operator (List.forall_mem_nil _) _
    · cases h

mutual

/-- The calls of the lowered form of an expression follow the rules, whatever is in scope.

**Proof sketch.** Recursion over the expression, as it is lowered, where rows of expressions,
fields, bindings, conditions and candidates have lemmas of their own. Each construct makes one call
of a rule of its own or none, of parts that follow the rules. -/
theorem ruled_of_lower :
    ∀ (e : Expr α) {scope : Scope} {recover : Bool} {ir : Ir},
      e.lower scope recover = .ok ir → ir.Ruled
  | .literal _ value, _, _, _, h => by
    cases h
    exact .literal
  | .var _ name, _, _, _, h => ruled_of_lowerVariable h
  | .array _ items, _, _, _, h => by
    obtain ⟨irs, hirs, h⟩ := exists_of_bind_eq_ok h
    cases h
    exact .call (ruled_of_lowerAll items hirs) (.array _)
  | .record _ fields, _, _, _, h => by
    obtain ⟨irs, hirs, h⟩ := exists_of_bind_eq_ok h
    cases h
    refine .call (fun a ha => ?_) (.record _ _)
    -- The names of the fields are constants between their values.
    obtain ⟨⟨name, value⟩, hfield, ha⟩ := List.mem_flatMap.mp ha
    have hvalue : value.Ruled := ruled_of_lowerFields fields hirs _ hfield
    rcases List.mem_cons.mp ha with rfl | ha
    · exact .literal
    · obtain rfl := List.mem_singleton.mp ha
      exact hvalue
  | .unary _ op operand, _, _, _, h => by
    obtain ⟨x, hx, h⟩ := exists_of_bind_eq_ok h
    cases h
    exact .operator (List.forall_mem_singleton.mpr (ruled_of_lower operand hx)) _
  | .binary _ op lhs rhs, _, _, _, h => by
    obtain ⟨x, hx, h⟩ := exists_of_bind_eq_ok h
    obtain ⟨y, hy, h⟩ := exists_of_bind_eq_ok h
    cases h
    have hboth : ∀ a ∈ [x, y], a.Ruled := by
      simpa using ⟨ruled_of_lower lhs hx, ruled_of_lower rhs hy⟩
    exact .operator hboth _
  | .cond _ test yes no, _, _, _, h => by
    obtain ⟨x, hx, h⟩ := exists_of_bind_eq_ok h
    obtain ⟨y, hy, h⟩ := exists_of_bind_eq_ok h
    obtain ⟨z, hz, h⟩ := exists_of_bind_eq_ok h
    cases h
    exact .cond (ruled_of_lower test hx) (ruled_of_lower yes hy) (ruled_of_lower no hz)
  | .letIn _ bindings body, _, _, _, h => by
    obtain ⟨⟨bound, inner⟩, hbound, h⟩ := exists_of_bind_eq_ok h
    obtain ⟨x, hx, h⟩ := exists_of_bind_eq_ok h
    cases h
    exact .letIn (ruled_of_lowerBindings bindings hbound) (ruled_of_lower body hx)
  | .lambda _ params body, _, _, _, h => by
    obtain ⟨x, hx, h⟩ := exists_of_bind_eq_ok h
    cases h
    exact .lambda (ruled_of_lower body hx)
  | .call _ callee args, _, _, _, h => by
    obtain ⟨irs, hirs, h⟩ := exists_of_bind_eq_ok h
    have hrow := ruled_of_lowerAll args hirs
    split at h
    · cases h
      exact .operator hrow _
    · obtain ⟨x, hx, h⟩ := exists_of_bind_eq_ok h
      cases h
      exact ruled_invoke (List.forall_mem_cons.mpr ⟨ruled_of_lower callee hx, hrow⟩)
  | .member _ object field, _, _, _, h => by
    obtain ⟨x, hx, h⟩ := exists_of_bind_eq_ok h
    cases h
    have hboth : ∀ a ∈ [x, .ofString field], a.Ruled := by
      simpa using ⟨ruled_of_lower object hx, .literal⟩
    exact .call hboth (.member _ _)
  | .pipe _ value function args, _, _, _, h => by
    obtain ⟨x, hx, h⟩ := exists_of_bind_eq_ok h
    obtain ⟨irs, hirs, h⟩ := exists_of_bind_eq_ok h
    have hfirst : x.Ruled := ruled_of_lower value hx
    have hall : ∀ a ∈ x :: irs, a.Ruled :=
      List.forall_mem_cons.mpr ⟨hfirst, ruled_of_lowerAll args hirs⟩
    split at h
    · rename_i hs
      cases h
      exact ruled_dress (mem_selectables hs) .raise hfirst (by simp)
    -- A pipe into a name that is bound calls its value.
    · split at h
      · cases h
        exact ruled_invoke (List.forall_mem_cons.mpr ⟨.var, hall⟩)
      · cases h
        exact .operator hall _
  | .alternative _ candidates, _, _, _, h => by
    obtain ⟨irs, hirs, h⟩ := exists_of_bind_eq_ok h
    cases h
    exact .alternative (ruled_of_lowerCandidates candidates hirs)
  | .select _ typeName policy constraints args, _, _, _, h => by
    obtain ⟨⟨value, message⟩, hselected, h⟩ := exists_of_bind_eq_ok h
    obtain ⟨hvalue, hmessage⟩ := ruled_of_lowerSelected args hselected
    dsimp only at h
    split at h
    · cases h
    · rename_i s hs
      split at h
      · cases h
        exact ruled_dress (mem_selectables hs) _ hvalue hmessage
      · obtain ⟨tests, htests, h⟩ := exists_of_bind_eq_ok h
        cases h
        exact ruled_constrained (mem_selectables hs) _ (ruled_of_lowerConditions _ htests) hvalue
          hmessage
  | .guarded _ .guard conditions body, _, _, _, h => by
    obtain ⟨tests, htests, h⟩ := exists_of_bind_eq_ok h
    obtain ⟨x, hx, h⟩ := exists_of_bind_eq_ok h
    cases h
    exact ruled_failFast (ruled_of_lowerConditions conditions htests) (ruled_of_lower body hx) _
  | .guarded _ .check conditions body, _, _, _, h => by
    obtain ⟨x, hx, h⟩ := exists_of_bind_eq_ok h
    obtain ⟨tests, htests, h⟩ := exists_of_bind_eq_ok h
    cases h
    exact .bindIt (ruled_of_lower body hx)
      (ruled_failFast (ruled_of_lowerConditions conditions htests) .var _)

/-- The same for a row of expressions. -/
theorem ruled_of_lowerAll :
    ∀ (es : List (Expr α)) {scope : Scope} {irs : List Ir}, lowerAll scope es = .ok irs →
      ∀ ir ∈ irs, ir.Ruled
  | [], _, _, h => by
    cases h
    exact List.forall_mem_nil _
  | e :: es, _, _, h => by
    obtain ⟨x, hx, h⟩ := exists_of_bind_eq_ok h
    obtain ⟨xs, hxs, h⟩ := exists_of_bind_eq_ok h
    cases h
    exact List.forall_mem_cons.mpr ⟨ruled_of_lower e hx, ruled_of_lowerAll es hxs⟩

/-- The same for the fields of a record. -/
theorem ruled_of_lowerFields :
    ∀ (es : List (String × Expr α)) {scope : Scope} {irs : List (String × Ir)},
      lowerFields scope es = .ok irs → ∀ p ∈ irs, p.2.Ruled
  | [], _, _, h => by
    cases h
    exact List.forall_mem_nil _
  | (_, e) :: es, _, _, h => by
    obtain ⟨x, hx, h⟩ := exists_of_bind_eq_ok h
    obtain ⟨xs, hxs, h⟩ := exists_of_bind_eq_ok h
    cases h
    exact List.forall_mem_cons.mpr ⟨ruled_of_lower e hx, ruled_of_lowerFields es hxs⟩

/-- The same for bindings. -/
theorem ruled_of_lowerBindings :
    ∀ (es : List (String × Expr α)) {scope inner : Scope} {irs : List (String × Ir)},
      lowerBindings scope es = .ok (irs, inner) → ∀ b ∈ irs, b.2.Ruled
  | [], _, _, _, h => by
    cases h
    exact List.forall_mem_nil _
  | (_, e) :: es, _, _, _, h => by
    obtain ⟨x, hx, h⟩ := exists_of_bind_eq_ok h
    obtain ⟨⟨xs, inner⟩, hxs, h⟩ := exists_of_bind_eq_ok h
    cases h
    exact List.forall_mem_cons.mpr ⟨ruled_of_lower e hx, ruled_of_lowerBindings es hxs⟩

/-- The same for conditions. -/
theorem ruled_of_lowerConditions :
    ∀ (es : List (Condition (Expr α))) {scope : Scope} {irs : List (Condition Ir)},
      lowerConditions scope es = .ok irs → ∀ c ∈ irs, c.test.Ruled
  | [], _, _, h => by
    cases h
    exact List.forall_mem_nil _
  | ⟨_, e⟩ :: es, _, _, h => by
    obtain ⟨x, hx, h⟩ := exists_of_bind_eq_ok h
    obtain ⟨xs, hxs, h⟩ := exists_of_bind_eq_ok h
    cases h
    exact List.forall_mem_cons.mpr ⟨ruled_of_lower e hx, ruled_of_lowerConditions es hxs⟩

/-- The same for the candidates of an alternative. -/
theorem ruled_of_lowerCandidates :
    ∀ (es : List (Expr α)) {scope : Scope} {irs : List Ir},
      lowerCandidates scope es = .ok irs → ∀ ir ∈ irs, ir.Ruled
  | [], _, _, h => by
    cases h
    exact List.forall_mem_nil _
  | [e], _, _, h => by
    obtain ⟨x, hx, h⟩ := exists_of_bind_eq_ok h
    cases h
    exact List.forall_mem_singleton.mpr (ruled_of_lower e hx)
  | e :: e' :: es, _, _, h => by
    obtain ⟨x, hx, h⟩ := exists_of_bind_eq_ok h
    obtain ⟨xs, hxs, h⟩ := exists_of_bind_eq_ok h
    obtain rfl : x.softened ++ xs = _ := Except.ok.inj h
    exact List.forall_mem_append.mpr
      ⟨(ruled_of_lower e hx).softened, ruled_of_lowerCandidates (e' :: es) hxs⟩

/-- The same for the value and the message of a selector. -/
theorem ruled_of_lowerSelected :
    ∀ (es : List (Expr α)) {scope : Scope} {typeName : String} {silent : Bool} {value : Ir}
      {message : Option Ir}, lowerSelected scope typeName silent es = .ok (value, message) →
        value.Ruled ∧ ∀ m ∈ message, m.Ruled
  | [], _, _, _, _, _, h => by cases h
  | [e], _, _, silent, _, _, h => by
    obtain ⟨x, hx, h⟩ := exists_of_bind_eq_ok h
    have hvalue := ruled_of_lower e hx
    cases silent <;> cases h <;> exact ⟨hvalue, by simp⟩
  | e :: m :: _, _, _, silent, _, _, h => by
    obtain ⟨x, hx, h⟩ := exists_of_bind_eq_ok h
    have hvalue := ruled_of_lower e hx
    cases silent with
    | true =>
      cases h
      exact ⟨hvalue, by simp⟩
    | false =>
      obtain ⟨word, hword, h⟩ := exists_of_bind_eq_ok h
      obtain ⟨y, hy, hword⟩ := exists_of_bind_eq_ok hword
      cases hword
      cases h
      exact ⟨hvalue, by simpa using ruled_of_lower m hy⟩

end

section Sources

variable {source : String} {ir : Ir}

/-- A source is lowered from its expression. -/
lemma exists_of_lowerSource (h : lowerSource source = .ok ir) :
    ∃ e, parse source = .ok e ∧ transform e = .ok ir := by
  unfold lowerSource at h
  split at h
  · cases h
  · rename_i e he
    cases htransform : transform e with
    | error failure =>
      rw [htransform] at h
      cases h
    | ok lowered =>
      rw [htransform] at h
      cases h
      exact ⟨e, he, htransform⟩

/-- The calls of the lowered form of a source follow the rules. -/
theorem ruled_of_lowerSource (h : lowerSource source = .ok ir) : ir.Ruled := by
  obtain ⟨e, -, htransform⟩ := exists_of_lowerSource h
  exact ruled_of_lower e htransform

/-- The lowered form of a source is typed where only the input is in scope. -/
theorem typed_of_lowerSource (h : lowerSource source = .ok ir) :
    ir.Typed [(inputName, .any)] false := by
  obtain ⟨e, -, htransform⟩ := exists_of_lowerSource h
  exact typed_of_lower e htransform

end Sources

end Retarget
