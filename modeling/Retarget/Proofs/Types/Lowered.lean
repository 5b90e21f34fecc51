import Retarget.Proofs.Lowered
import Retarget.Proofs.Regrouping
import Retarget.Proofs.Selectors.Types
import Retarget.Proofs.Types.Rules

set_option autoImplicit false

/-!
# Types of lowered forms

The types that lowering gives name the fields of each record once: a record literal keeps the last value
of a name that it repeats, and all other types are parts of types in scope, or put together by rules that
invent no record.

## Main definitions

* `Retarget.Scope.Distinct`, `Retarget.Ir.Distinct` — the types in scope and of a lowered form name the
  fields of each record once.

## Main results

* `Retarget.distinct_of_lower` — so do the types of what is lowered in such a scope.
-/

namespace Retarget

variable {α : Type}

/-! ## Records -/

/-- A field that is put into a record keeps its place, or comes last. -/
lemma names_putField (fields : List (String × Ty)) (name : String) (ty : Ty) :
    (Ty.putField fields name ty).map Prod.fst =
      if name ∈ fields.map Prod.fst then fields.map Prod.fst else fields.map Prod.fst ++ [name] := by
  have hany : (fields.any (·.1 == name)) = true ↔ name ∈ fields.map Prod.fst := by
    simp [List.any_eq_true]
  rw [Ty.putField]
  simp only [hany]
  split_ifs
  · rw [List.map_map]
    refine List.map_congr_left fun f _ => ?_
    simp only [Function.comp]
    split <;> rfl
  · simp

/-- One more field, or one with a new type. -/
lemma Ty.Distinct.putField {fields : List (String × Ty)} (h : (Ty.record fields).Distinct)
    (name : String) {ty : Ty} (hty : ty.Distinct) :
    (Ty.record (Ty.putField fields name ty)).Distinct := by
  obtain ⟨hnames, hfields⟩ := Ty.distinct_record_iff.mp h
  refine .record ?_ fun f hf => ?_
  · rw [names_putField]
    split_ifs with hmem
    · exact hnames
    · exact List.nodup_append.mpr ⟨hnames, List.nodup_singleton _, fun a ha b hb heq =>
        hmem (by rwa [← List.mem_singleton.mp hb, ← heq])⟩
  · rw [Ty.putField] at hf
    split_ifs at hf
    · obtain ⟨g, hg, rfl⟩ := List.mem_map.mp hf
      dsimp only
      split
      · exact hty
      · exact hfields g hg
    · rcases List.mem_append.mp hf with hf | hf
      · exact hfields f hf
      · obtain rfl := List.mem_singleton.mp hf
        exact hty

/-- Of a name that a record repeats, it has the last type only. -/
lemma Ty.distinct_recordOf {fields : List (String × Ty)} (h : ∀ f ∈ fields, f.2.Distinct) :
    (Ty.recordOf fields).Distinct := by
  have hfold (acc : List (String × Ty)) (hacc : (Ty.record acc).Distinct) :
      (Ty.record (fields.foldl (fun fs f => Ty.putField fs f.1 f.2) acc)).Distinct := by
    induction fields generalizing acc with
    | nil => exact hacc
    | cons f fields ih =>
      obtain ⟨hf, hfields⟩ := List.forall_mem_cons.mp h
      exact ih hfields _ (hacc.putField f.1 hf)
  exact hfold [] (.record List.nodup_nil (List.forall_mem_nil _))

/-- The type of a field names fields once where that of the object does. -/
lemma Ty.Distinct.field {object : Ty} (h : object.Distinct) (name : String) :
    (object.field name).Distinct := by
  cases object with
  | record fields =>
    rw [Ty.field]
    cases hfound : fields.lookup name with
    | none => exact distinct_any
    | some t => exact (distinct_record_iff.mp h).2 _ (mem_of_lookup hfound)
  | _ => exact distinct_any

/-! ## Lowered forms -/

/-- The types in scope name the fields of each record once. -/
def Scope.Distinct (scope : Scope) : Prop := ∀ p ∈ scope, p.2.Distinct

/-- The type of a lowered form names the fields of each record once, and so do the types of the
candidates that the form stands for. -/
def Ir.Distinct (ir : Ir) : Prop := ir.ty.Distinct ∧ ∀ c ∈ ir.softened, c.ty.Distinct

/-- One more name in scope, with such a type. -/
lemma Scope.Distinct.cons {scope : Scope} (h : scope.Distinct) (name : String) {ty : Ty}
    (hty : ty.Distinct) : Scope.Distinct ((name, ty) :: scope) :=
  List.forall_mem_cons.mpr ⟨hty, h⟩

/-- Only the input is in scope of a whole expression. -/
lemma Scope.distinct_input : Scope.Distinct [(inputName, .any)] :=
  List.forall_mem_singleton.mpr Ty.distinct_any

/-- The types of constants have no records. -/
lemma Literal.distinct_ty (value : Literal) : value.ty.Distinct := by
  cases value <;> exact .single nofun nofun

/-- The types of selectors name fields once. -/
lemma Selectable.distinct_ty {s : Selectable} (hs : s ∈ selectables) : s.ty.Distinct := by
  simp only [selectables, List.mem_cons, List.not_mem_nil, or_false] at hs
  rcases hs with rfl | rfl | rfl | rfl | rfl | rfl | rfl <;> exact .single (by decide) (by decide)

/-- What is no alternative stands for itself. -/
lemma Ir.Distinct.of_ty {ir : Ir} (h : ∀ candidates ty, ir ≠ .alternative candidates ty)
    (hty : ir.ty.Distinct) : ir.Distinct := by
  refine ⟨hty, ?_⟩
  rw [softened_eq_singleton h, List.forall_mem_singleton, Ir.Typed.ty_soften]
  exact hty

/-- Lowered forms whose types name fields once. -/
lemma distinct_tys {irs : List Ir} (h : ∀ ir ∈ irs, ir.ty.Distinct) :
    ∀ t ∈ irs.map Ir.ty, t.Distinct :=
  List.forall_mem_map.mpr h

/-- An array of items whose types name fields once. -/
lemma distinct_arrayType {items : List Ty} (h : ∀ t ∈ items, t.Distinct) :
    (arrayType items).Distinct := by
  unfold arrayType
  split
  · exact .unknownItem
  · exact .array (.joinAll h)

/-- The call of an operator on such arguments. -/
lemma distinct_operator (name : String) {args : List Ir} (h : ∀ a ∈ args, a.ty.Distinct) :
    (operator name args).Distinct :=
  .of_ty nofun (distinct_resultType name (distinct_tys h))

/-- The call of a function that is a value has the unknown type. -/
lemma distinct_invoke (callee : Ir) (args : List Ir) : (invoke callee args).Distinct :=
  .of_ty nofun Ty.distinct_any

/-! ## Conditions and selectors -/

section Conditions

variable {tests : List (Condition Ir)}

/-- Conditions around a body have the type of the body, or null beside it. -/
lemma distinct_failFast {body : Ir} (hbody : body.Distinct) (label : String) :
    (failFast tests body label).Distinct := by
  cases tests with
  | nil => exact hbody
  | cons t ts =>
    refine .of_ty nofun ?_
    rw [ty_failFast _ _ (Ty.join_self hbody.1)]
    exact hbody.1

/-- Tests that hold together have such a type. -/
lemma distinct_allOf (h : ∀ t ∈ tests, t.test.ty.Distinct) : (allOf tests).ty.Distinct := by
  by_cases hone : ∃ t, tests = [t]
  · obtain ⟨t, rfl⟩ := hone
    exact h t List.mem_cons_self
  · rw [ty_allOf fun t ht => hone ⟨t, ht⟩]
    exact Ty.distinct_bool

/-- A selector has the type that it selects, or it is a check and joins the booleans. -/
lemma distinct_selected {s : Selectable} (hs : s ∈ selectables) (policy : SelectPolicy)
    (h : ∀ t ∈ tests, t.test.ty.Distinct) (value : Ir) (message : Option Ir) :
    (selected s policy tests value message).Distinct := by
  have hne : ∀ candidates ty, selected s policy tests value message ≠ .alternative candidates ty := by
    intro candidates ty
    cases tests with
    | nil => exact dress_ne_alternative _ _ _ _ _ _
    | cons t ts => exact constrained_ne_alternative _ _ _ _ _ _ _
  refine .of_ty hne ?_
  by_cases hpolicy : policy = .check
  · subst hpolicy
    cases tests with
    | nil => exact Ty.distinct_bool
    | cons t ts => exact (distinct_allOf h).join Ty.distinct_bool
  · rw [ty_selected_dressed hs hpolicy]
    exact s.distinct_ty hs

end Conditions

/-! ## Lowering -/

/-- A variable has such a type where the scope does. -/
lemma distinct_of_lowerVariable {scope : Scope} {name : String} {ir : Ir} (hscope : scope.Distinct)
    (h : lowerVariable scope name = .ok ir) : ir.Distinct := by
  unfold lowerVariable at h
  split at h
  · rename_i ty hty
    cases h
    exact .of_ty (by simp) (hscope _ (Ty.mem_of_lookup hty))
  · split at h
    · cases h
      exact distinct_operator _ (List.forall_mem_nil _)
    · cases h

mutual

/-- What is lowered in a scope whose types name fields once has such types.

**Proof sketch.** Induction over the expression, along with the rows of expressions in it. Every
construct but an alternative, and a guard without conditions, lowers to a node that stands for itself,
so that its own type is all there is to look at. -/
theorem distinct_of_lower :
    ∀ (e : Expr α) {scope : Scope} {recover : Bool} {ir : Ir}, scope.Distinct →
      e.lower scope recover = .ok ir → ir.Distinct
  | .literal _ value, _, _, _, _, h => by
    cases h
    exact .of_ty nofun value.distinct_ty
  | .var _ name, _, _, _, hscope, h => distinct_of_lowerVariable hscope h
  | .array _ items, _, _, _, hscope, h => by
    obtain ⟨irs, hirs, h⟩ := exists_of_bind_eq_ok h
    cases h
    have hitems := distinct_of_lowerAll items hscope hirs
    exact .of_ty nofun (distinct_arrayType (distinct_tys fun ir hir => (hitems ir hir).1))
  | .record _ fields, _, _, _, hscope, h => by
    obtain ⟨irs, hirs, h⟩ := exists_of_bind_eq_ok h
    cases h
    have hfields := distinct_of_lowerFields fields hscope hirs
    exact .of_ty nofun (Ty.distinct_recordOf (List.forall_mem_map.mpr fun p hp => (hfields p hp).1))
  | .unary _ op operand, _, _, _, hscope, h => by
    obtain ⟨x, hx, h⟩ := exists_of_bind_eq_ok h
    cases h
    exact distinct_operator _ (List.forall_mem_singleton.mpr (distinct_of_lower operand hscope hx).1)
  | .binary _ op lhs rhs, _, _, _, hscope, h => by
    obtain ⟨x, hx, h⟩ := exists_of_bind_eq_ok h
    obtain ⟨y, hy, h⟩ := exists_of_bind_eq_ok h
    cases h
    exact distinct_operator _ (List.forall_mem_cons.mpr ⟨(distinct_of_lower lhs hscope hx).1,
      List.forall_mem_singleton.mpr (distinct_of_lower rhs hscope hy).1⟩)
  | .cond _ test yes no, _, _, _, hscope, h => by
    obtain ⟨x, -, h⟩ := exists_of_bind_eq_ok h
    obtain ⟨y, hy, h⟩ := exists_of_bind_eq_ok h
    obtain ⟨z, hz, h⟩ := exists_of_bind_eq_ok h
    cases h
    exact .of_ty nofun
      ((distinct_of_lower yes hscope hy).1.join (distinct_of_lower no hscope hz).1)
  | .letIn _ bindings body, _, _, _, hscope, h => by
    obtain ⟨⟨bound, inner⟩, hbound, h⟩ := exists_of_bind_eq_ok h
    obtain ⟨x, hx, h⟩ := exists_of_bind_eq_ok h
    cases h
    have hinner := distinct_of_lowerBindings bindings hscope hbound
    exact .of_ty nofun (distinct_of_lower body hinner hx).1
  | .lambda _ params body, _, _, _, _, h => by
    obtain ⟨x, -, h⟩ := exists_of_bind_eq_ok h
    cases h
    exact .of_ty nofun (.single nofun nofun)
  | .call _ callee args, _, _, _, hscope, h => by
    obtain ⟨irs, hirs, h⟩ := exists_of_bind_eq_ok h
    split at h
    · cases h
      exact distinct_operator _ fun a ha => (distinct_of_lowerAll args hscope hirs a ha).1
    · obtain ⟨x, -, h⟩ := exists_of_bind_eq_ok h
      cases h
      exact distinct_invoke _ _
  | .member _ object field, _, _, _, hscope, h => by
    obtain ⟨x, hx, h⟩ := exists_of_bind_eq_ok h
    cases h
    exact .of_ty nofun ((distinct_of_lower object hscope hx).1.field field)
  | .pipe _ value function args, _, _, _, hscope, h => by
    obtain ⟨x, hx, h⟩ := exists_of_bind_eq_ok h
    obtain ⟨irs, hirs, h⟩ := exists_of_bind_eq_ok h
    split at h
    · rename_i s hs
      cases h
      exact .of_ty nofun (s.distinct_ty (mem_selectables hs))
    · split at h
      · cases h
        exact distinct_invoke _ _
      · cases h
        have hrow := distinct_of_lowerAll args hscope hirs
        exact distinct_operator _ (List.forall_mem_cons.mpr
          ⟨(distinct_of_lower value hscope hx).1, fun a ha => (hrow a ha).1⟩)
  | .alternative _ candidates, _, _, _, hscope, h => by
    obtain ⟨irs, hirs, h⟩ := exists_of_bind_eq_ok h
    cases h
    obtain ⟨htypes, hsoftened⟩ := distinct_of_lowerCandidates candidates hscope hirs
    exact ⟨.joinAll (distinct_tys htypes), hsoftened⟩
  | .select note typeName policy constraints args, scope, recover, ir, hscope, h => by
    cases hs : selectable? typeName with
    | none =>
      rw [lower_select] at h
      obtain ⟨p, -, h⟩ := exists_of_bind_eq_ok h
      rw [select, hs] at h
      cases h
    | some s =>
      have hmem := mem_selectables hs
      obtain ⟨tests, value, message, lowered, htests, -, rfl⟩ := exists_of_lower_select hs h
      have hit := hscope.cons itName (s.distinct_ty hmem)
      exact distinct_selected hmem _ (distinct_of_lowerConditions constraints hit htests) _ _
  | .guarded _ .guard conditions body, _, _, _, hscope, h => by
    obtain ⟨tests, -, h⟩ := exists_of_bind_eq_ok h
    obtain ⟨x, hx, h⟩ := exists_of_bind_eq_ok h
    cases h
    exact distinct_failFast (distinct_of_lower body hscope hx) _
  | .guarded _ .check conditions body, _, _, _, hscope, h => by
    obtain ⟨x, hx, h⟩ := exists_of_bind_eq_ok h
    obtain ⟨tests, -, h⟩ := exists_of_bind_eq_ok h
    cases h
    have hit : (Ir.var itName x.ty).Distinct := .of_ty nofun (distinct_of_lower body hscope hx).1
    exact .of_ty nofun (distinct_failFast hit _).1

/-- The same for a row of expressions. -/
theorem distinct_of_lowerAll :
    ∀ (es : List (Expr α)) {scope : Scope} {irs : List Ir}, scope.Distinct →
      lowerAll scope es = .ok irs → ∀ ir ∈ irs, ir.Distinct
  | [], _, _, _, h => by
    cases h
    exact List.forall_mem_nil _
  | e :: es, _, _, hscope, h => by
    obtain ⟨x, hx, h⟩ := exists_of_bind_eq_ok h
    obtain ⟨xs, hxs, h⟩ := exists_of_bind_eq_ok h
    cases h
    exact List.forall_mem_cons.mpr
      ⟨distinct_of_lower e hscope hx, distinct_of_lowerAll es hscope hxs⟩

/-- The same for the fields of a record. -/
theorem distinct_of_lowerFields :
    ∀ (es : List (String × Expr α)) {scope : Scope} {irs : List (String × Ir)}, scope.Distinct →
      lowerFields scope es = .ok irs → ∀ p ∈ irs, p.2.Distinct
  | [], _, _, _, h => by
    cases h
    exact List.forall_mem_nil _
  | (_, e) :: es, _, _, hscope, h => by
    obtain ⟨x, hx, h⟩ := exists_of_bind_eq_ok h
    obtain ⟨xs, hxs, h⟩ := exists_of_bind_eq_ok h
    cases h
    exact List.forall_mem_cons.mpr
      ⟨distinct_of_lower e hscope hx, distinct_of_lowerFields es hscope hxs⟩

/-- Bindings put such types into scope. -/
theorem distinct_of_lowerBindings :
    ∀ (es : List (String × Expr α)) {scope inner : Scope} {irs : List (String × Ir)},
      scope.Distinct → lowerBindings scope es = .ok (irs, inner) → inner.Distinct
  | [], _, _, _, hscope, h => by
    cases h
    exact hscope
  | (name, e) :: es, _, _, _, hscope, h => by
    obtain ⟨x, hx, h⟩ := exists_of_bind_eq_ok h
    obtain ⟨⟨xs, inner⟩, hxs, h⟩ := exists_of_bind_eq_ok h
    cases h
    exact distinct_of_lowerBindings es (hscope.cons name (distinct_of_lower e hscope hx).1) hxs

/-- The same for conditions. -/
theorem distinct_of_lowerConditions :
    ∀ (es : List (Condition (Expr α))) {scope : Scope} {irs : List (Condition Ir)}, scope.Distinct →
      lowerConditions scope es = .ok irs → ∀ c ∈ irs, c.test.ty.Distinct
  | [], _, _, _, h => by
    cases h
    exact List.forall_mem_nil _
  | ⟨_, e⟩ :: es, _, _, hscope, h => by
    obtain ⟨x, hx, h⟩ := exists_of_bind_eq_ok h
    obtain ⟨xs, hxs, h⟩ := exists_of_bind_eq_ok h
    cases h
    exact List.forall_mem_cons.mpr
      ⟨(distinct_of_lower e hscope hx).1, distinct_of_lowerConditions es hscope hxs⟩

/-- The same for the candidates of an alternative, and for those that they stand for. -/
theorem distinct_of_lowerCandidates :
    ∀ (es : List (Expr α)) {scope : Scope} {irs : List Ir}, scope.Distinct →
      lowerCandidates scope es = .ok irs →
      (∀ c ∈ irs, c.ty.Distinct) ∧ ∀ c ∈ softenedAll irs, c.ty.Distinct
  | [], _, _, _, h => by
    cases h
    exact ⟨List.forall_mem_nil _, List.forall_mem_nil _⟩
  | [e], _, _, hscope, h => by
    obtain ⟨x, hx, h⟩ := exists_of_bind_eq_ok h
    obtain rfl : [x] = _ := Except.ok.inj h
    obtain ⟨hty, hsoftened⟩ := distinct_of_lower e hscope hx
    rw [softenedAll_singleton]
    exact ⟨List.forall_mem_singleton.mpr hty, hsoftened⟩
  | e :: e' :: es, _, _, hscope, h => by
    obtain ⟨x, hx, h⟩ := exists_of_bind_eq_ok h
    obtain ⟨xs, hxs, h⟩ := exists_of_bind_eq_ok h
    obtain rfl : x.softened ++ xs = _ := Except.ok.inj h
    have hfirst := (distinct_of_lower e hscope hx).2
    obtain ⟨htypes, hsoftened⟩ := distinct_of_lowerCandidates (e' :: es) hscope hxs
    rw [softenedAll_append, softenedAll_softened]
    exact ⟨List.forall_mem_append.mpr ⟨hfirst, htypes⟩,
      List.forall_mem_append.mpr ⟨hfirst, hsoftened⟩⟩

end

end Retarget
