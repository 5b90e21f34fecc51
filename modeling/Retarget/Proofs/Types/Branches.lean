import Mathlib.Data.List.Perm.Basic
import Mathlib.Data.List.Forall2
import Retarget.Proofs.Types.Lowered

set_option autoImplicit false

/-!
# Types of arrays and alternatives

The types of the items of an array and of the candidates of an alternative are joined one by one, from
left to right. Since the join is a least upper bound, neither order nor grouping matters: the type is
every join of the types of the items, each lowered by itself. A candidate that is an alternative gives
its own candidates to the row it stands in, unless it is the last one. As long as it has some, that is
one more way of grouping.

## Main definitions

* `Retarget.Expr.offers` — the candidates that an expression comes to, groups taken apart.
* `Retarget.Expr.filled` — each group of an expression has candidates.
* `Retarget.TypesOf` — the types of a row of expressions.

## Main results

* `Retarget.isLUB_join_branches` — joins are least upper bounds, and what follows for the types of
  arrays and alternatives.
-/

namespace Retarget

variable {α : Type}

namespace Ty

/-- The type of an array whose items have the common type. -/
def arrayOf (t : Ty) : Ty := if t.isAny then .array none else .array (some t)

/-- An array has the type of the common type of its items. -/
lemma arrayType_eq (items : List Ty) : arrayType items = arrayOf (joinAll items) := by
  unfold arrayType arrayOf
  split
  · rename_i hany
    rw [hany]
    rfl
  · rename_i hany
    have hknown : (joinAll items).isAny = false := by
      cases hjoin : joinAll items with
      | any => exact absurd hjoin hany
      | _ => rfl
    rw [hknown]
    rfl

/-- Arrays of equal types have equal types. -/
lemma arrayOf_same {a b : Ty} (h : a.same b = true) : (arrayOf a).same (arrayOf b) = true := by
  have htag := tag_of_same h
  cases a <;> cases b <;> first | exact h | cases htag

end Ty

/-! ## Candidates and groups -/

mutual

/-- The candidates that an expression comes to: those of an alternative, groups among them taken apart,
or itself. -/
def Expr.offers : Expr α → List (Expr α)
  | .alternative _ candidates => offersAll candidates
  | e => [e]

/-- The candidates that a row of expressions comes to. -/
def offersAll : List (Expr α) → List (Expr α)
  | [] => []
  | e :: es => e.offers ++ offersAll es

end

mutual

/-- The expression is no alternative without candidates, has no such group and does not guard one with
no condition. -/
def Expr.filled : Expr α → Bool
  | .alternative _ candidates => !candidates.isEmpty && allFilled candidates
  | .guarded _ .guard [] body => body.filled
  | _ => true

/-- All expressions of the row are filled. -/
def allFilled : List (Expr α) → Bool
  | [] => true
  | e :: es => e.filled && allFilled es

end

/-- The types of a row of expressions, each lowered by itself. -/
def TypesOf (scope : Scope) (es : List (Expr α)) (ts : List Ty) : Prop :=
  List.Forall₂ (fun e t => ∃ recover ir, e.lower scope recover = .ok ir ∧ ir.ty = t) es ts

section Lowering

variable {scope : Scope} {recover : Bool} {e : Expr α} {es : List (Expr α)} {ir : Ir} {ts us : List Ty}

/-- Only an alternative, and what a guard without conditions has inside, is lowered to one.

**Proof sketch.** By cases on the expression: each other form is lowered to a node of another kind,
once its parts have been. A selector gives a dressed or a constrained value, neither of which is an
alternative. -/
lemma ne_alternative_of_lower (hgroup : ∀ note candidates, e ≠ .alternative note candidates)
    (hguard : ∀ note body, e ≠ .guarded note .guard [] body) (h : e.lower scope recover = .ok ir)
    (candidates : List Ir) (ty : Ty) : ir ≠ .alternative candidates ty := by
  rintro rfl
  cases e with
  | alternative note candidates => exact hgroup note candidates rfl
  | literal => cases h
  | var note name =>
    simp only [Expr.lower, lowerVariable] at h
    split at h
    · cases h
    · split at h <;> cases h
  | array | record | unary | lambda | member =>
    obtain ⟨x, -, h⟩ := exists_of_bind_eq_ok h
    cases h
  | binary | letIn =>
    obtain ⟨x, -, h⟩ := exists_of_bind_eq_ok h
    obtain ⟨y, -, h⟩ := exists_of_bind_eq_ok h
    cases h
  | cond =>
    obtain ⟨x, -, h⟩ := exists_of_bind_eq_ok h
    obtain ⟨y, -, h⟩ := exists_of_bind_eq_ok h
    obtain ⟨z, -, h⟩ := exists_of_bind_eq_ok h
    cases h
  | call =>
    obtain ⟨x, -, h⟩ := exists_of_bind_eq_ok h
    split at h
    · cases h
    · obtain ⟨y, -, h⟩ := exists_of_bind_eq_ok h
      cases h
  | pipe =>
    obtain ⟨x, -, h⟩ := exists_of_bind_eq_ok h
    obtain ⟨y, -, h⟩ := exists_of_bind_eq_ok h
    split at h
    · cases h
    · split at h <;> cases h
  | select note typeName policy constraints args =>
    rw [lower_select] at h
    obtain ⟨p, -, h⟩ := exists_of_bind_eq_ok h
    obtain ⟨s, -, ⟨-, h⟩ | ⟨-, tests, h⟩⟩ := exists_of_select h
    · exact dress_ne_alternative _ _ _ _ _ _ h.symm
    · exact constrained_ne_alternative _ _ _ _ _ _ _ h.symm
  | guarded note kind conditions body =>
    cases kind with
    | check =>
      obtain ⟨x, -, h⟩ := exists_of_bind_eq_ok h
      obtain ⟨y, -, h⟩ := exists_of_bind_eq_ok h
      cases h
    | guard =>
      obtain ⟨tests, htests, h⟩ := exists_of_bind_eq_ok h
      obtain ⟨x, -, h⟩ := exists_of_bind_eq_ok h
      cases conditions with
      | nil => exact hguard note body rfl
      | cons c cs =>
        -- The first condition makes the guard a conditional.
        obtain ⟨t, -, htests⟩ := exists_of_bind_eq_ok htests
        obtain ⟨more, -, htests⟩ := exists_of_bind_eq_ok htests
        cases htests
        cases h

/-- A candidate has the same type whether another one follows it or not.

**Proof sketch.** An expression that is lowered alike in both positions has one type. Else it is a
selector other than a check, and such a one has the type that it selects in either position. -/
lemma ty_eq_of_lower {r r' : Bool} {ir' : Ir} (h : e.lower scope r = .ok ir)
    (h' : e.lower scope r' = .ok ir') : ir.ty = ir'.ty := by
  rcases @loud_or_quiet α scope e with
    ⟨note, typeName, policy, constraints, args, rfl, hloud⟩ | ⟨hsame, -⟩
  · -- The policies differ, but both hand on the dressed value.
    have hcheck : policy ≠ .check := by
      rintro rfl
      exact hloud rfl
    have hty {r : Bool} {ir : Ir} {s : Selectable} (hs : selectable? typeName = some s)
        (h : (Expr.select note typeName policy constraints args).lower scope r = .ok ir) :
        ir.ty = s.ty := by
      obtain ⟨tests, value, message, lowered, -, hlowered, rfl⟩ := exists_of_lower_select hs h
      exact ty_selected_dressed (mem_selectables hs) (mt hlowered.mp hcheck) tests value message
    cases hs : selectable? typeName with
    | none =>
      rw [lower_select] at h
      obtain ⟨p, -, h⟩ := exists_of_bind_eq_ok h
      rw [select, hs] at h
      cases h
    | some s => rw [hty hs h, hty hs h']
  · have hany (r : Bool) : e.lower scope r = e.lower scope false := by
      cases r with
      | false => rfl
      | true => exact hsame
    rw [hany r] at h
    rw [hany r'] at h'
    rw [Except.ok.inj (h.symm.trans h')]

/-- What lowers lowers as a candidate that another one follows.

**Proof sketch.** Only a selector that raises is lowered otherwise when another candidate follows.
Its twin needs the same type and the same tests, and its value lowers already. -/
lemma Expr.Lowers.followed (h : e.Lowers scope false) (recover : Bool) : e.Lowers scope recover := by
  cases recover with
  | false => exact h
  | true =>
    rcases @loud_or_quiet α scope e with
      ⟨note, typeName, policy, constraints, args, rfl, hloud⟩ | ⟨hsame, -⟩
    · obtain ⟨ir, h⟩ := h
      rw [lower_loud hloud] at h
      obtain ⟨⟨value, message⟩, hselected, h⟩ := exists_of_bind_eq_ok h
      obtain ⟨s, hs, hconstraints⟩ := exists_select.mp ⟨ir, h⟩
      cases args with
      | nil => cases hselected
      | cons e more =>
        obtain ⟨x, hx, -⟩ := exists_of_bind_eq_ok hselected
        obtain ⟨twin, htwin⟩ := exists_select.mpr ⟨s, hs, hconstraints⟩
        refine ⟨twin, ?_⟩
        rw [lower_loud hloud, lowerSelected, hx]
        exact htwin
    · rwa [Expr.Lowers, hsame]

/-! ## Types of rows -/

namespace TypesOf

/-- One expression has the type of its lowered form. -/
lemma singleton (h : e.lower scope recover = .ok ir) : TypesOf scope [e] [ir.ty] :=
  .cons ⟨recover, ir, h, rfl⟩ .nil

/-- A row of expressions has one row of types. -/
lemma unique (h : TypesOf scope es ts) (h' : TypesOf scope es us) : ts = us := by
  induction h generalizing us with
  | nil =>
    cases h'
    rfl
  | cons h _ ih =>
    obtain ⟨r, x, hx, rfl⟩ := h
    cases h' with
    | cons h' hrest =>
      obtain ⟨r', y, hy, rfl⟩ := h'
      rw [ty_eq_of_lower hx hy, ih hrest]

/-- In a scope whose types name fields once, the types of expressions do. -/
lemma distinct (h : TypesOf scope es ts) (hscope : scope.Distinct) : ∀ t ∈ ts, t.Distinct := by
  induction h with
  | nil => exact List.forall_mem_nil _
  | cons h _ ih =>
    obtain ⟨r, x, hx, rfl⟩ := h
    exact List.forall_mem_cons.mpr ⟨(distinct_of_lower _ hscope hx).1, ih⟩

/-- Expressions in another order have their types in that order. -/
lemma perm {es' : List (Expr α)} (h : TypesOf scope es ts) (h' : TypesOf scope es' us)
    (hperm : es.Perm es') : ts.Perm us := by
  obtain ⟨vs, hvs, hperm'⟩ := List.perm_comp_forall₂ hperm.symm h
  rw [unique h' hvs]
  exact hperm'.symm

end TypesOf

/-- The types of lowered expressions are those of each lowered by itself. -/
lemma typesOf_lowerAll {irs : List Ir} (h : lowerAll scope es = .ok irs) :
    TypesOf scope es (irs.map Ir.ty) := by
  induction es generalizing irs with
  | nil =>
    cases h
    exact .nil
  | cons e es ih =>
    obtain ⟨x, hx, h⟩ := exists_of_bind_eq_ok h
    obtain ⟨xs, hxs, h⟩ := exists_of_bind_eq_ok h
    cases h
    exact .cons ⟨false, x, hx, rfl⟩ (ih hxs)

end Lowering

/-! ## Groups -/

/-- What is said of a candidate that stands for itself. -/
lemma exists_typesOf_single {scope : Scope} {recover : Bool} {e : Expr α} {ir : Ir}
    (hoffers : e.offers = [e]) (hplain : ∀ candidates ty, ir ≠ .alternative candidates ty)
    (h : e.lower scope recover = .ok ir) :
    ∃ ts, ts ≠ [] ∧ TypesOf scope e.offers ts ∧ Ty.SameBounds [ir.ty] ts ∧
      Ty.SameBounds (ir.softened.map Ir.ty) ts := by
  rw [hoffers, softened_eq_singleton hplain]
  refine ⟨[ir.ty], List.cons_ne_nil _ _, .singleton h, .refl _, ?_⟩
  rw [List.map_singleton, Ir.Typed.ty_soften]
  exact .refl _

mutual

/-- The type of a candidate has the same bounds as those of the candidates that it comes to, and so
have the types of the candidates that it gives to the row it stands in.

**Proof sketch.** Induction over the expression, along with the rows of candidates in it. Only
alternatives and guards without conditions give more than themselves. -/
theorem exists_typesOf_offers {scope : Scope} (hscope : scope.Distinct) :
    ∀ (e : Expr α) {recover : Bool} {ir : Ir}, e.filled = true → e.lower scope recover = .ok ir →
      ∃ ts, ts ≠ [] ∧ TypesOf scope e.offers ts ∧ Ty.SameBounds [ir.ty] ts ∧
        Ty.SameBounds (ir.softened.map Ir.ty) ts := by
  intro e recover ir hfilled h
  cases e with
  | alternative note candidates =>
    obtain ⟨hsome, hfilled⟩ : candidates ≠ [] ∧ allFilled candidates = true := by
      simpa [Expr.filled] using hfilled
    obtain ⟨irs, hirs, h⟩ := exists_of_bind_eq_ok h
    cases h
    obtain ⟨ts, hts, htypes, hrow, hsoft⟩ := exists_typesOf_offersAll hscope candidates hfilled hirs
    have hirs_ne : irs.map Ir.ty ≠ [] := by
      cases candidates with
      | nil => exact absurd rfl hsome
      | cons e es => simpa using ne_nil_of_lowerCandidates hirs
    have hjoin : Ty.SameBounds [Ty.joinAll (irs.map Ir.ty)] (irs.map Ir.ty) :=
      .joinAll hirs_ne (distinct_tys (distinct_of_lowerCandidates candidates hscope hirs).1)
    exact ⟨ts, hts hsome, htypes, hjoin.trans hrow, hsoft⟩
  | guarded note kind conditions body =>
    cases kind with
    | check => exact exists_typesOf_single rfl (ne_alternative_of_lower nofun nofun h) h
    | guard =>
      cases conditions with
      | cons c cs => exact exists_typesOf_single rfl (ne_alternative_of_lower nofun nofun h) h
      | nil =>
        -- The guard leaves its body as it is, and that may be an alternative, which is taken apart in
        -- the row although the guard is one candidate.
        obtain ⟨tests, htests, hbody⟩ := exists_of_bind_eq_ok h
        cases htests
        obtain ⟨x, hx, hbody⟩ := exists_of_bind_eq_ok hbody
        obtain rfl : x = ir := Except.ok.inj hbody
        obtain ⟨ts, -, -, hty, hsoft⟩ := exists_typesOf_offers hscope body hfilled hx
        exact ⟨[x.ty], List.cons_ne_nil _ _, .singleton h, .refl _, hsoft.trans hty.symm⟩
  | _ => exact exists_typesOf_single rfl (ne_alternative_of_lower nofun nofun h) h

/-- The same for a row of candidates.

**Proof sketch.** By recursion on the row. The last candidate is lowered as it stands and the others
are softened, and each offers its types with either bound. -/
theorem exists_typesOf_offersAll {scope : Scope} (hscope : scope.Distinct) :
    ∀ (es : List (Expr α)) {irs : List Ir}, allFilled es = true → lowerCandidates scope es = .ok irs →
      ∃ ts, (es ≠ [] → ts ≠ []) ∧ TypesOf scope (offersAll es) ts ∧
        Ty.SameBounds (irs.map Ir.ty) ts ∧ Ty.SameBounds ((softenedAll irs).map Ir.ty) ts
  | [], _, _, h => by
    cases h
    exact ⟨[], absurd rfl, .nil, .refl _, .refl _⟩
  | [e], _, hfilled, h => by
    have he : e.filled = true := by simpa [allFilled] using hfilled
    obtain ⟨x, hx, h⟩ := exists_of_bind_eq_ok h
    obtain rfl : [x] = _ := Except.ok.inj h
    obtain ⟨ts, hts, htypes, hty, hsoft⟩ := exists_typesOf_offers hscope e he hx
    rw [offersAll, offersAll, List.append_nil, softenedAll_singleton]
    exact ⟨ts, fun _ => hts, htypes, hty, hsoft⟩
  | e :: e' :: es, _, hfilled, h => by
    obtain ⟨he, hes⟩ : e.filled = true ∧ allFilled (e' :: es) = true := by
      rwa [allFilled, Bool.and_eq_true] at hfilled
    obtain ⟨x, hx, h⟩ := exists_of_bind_eq_ok h
    obtain ⟨xs, hxs, h⟩ := exists_of_bind_eq_ok h
    obtain rfl : x.softened ++ xs = _ := Except.ok.inj h
    obtain ⟨ts, hts, htypes, -, hsoft⟩ := exists_typesOf_offers hscope e he hx
    obtain ⟨us, -, htypes', hrow, hsoft'⟩ := exists_typesOf_offersAll hscope (e' :: es) hes hxs
    rw [offersAll, softenedAll_append, softenedAll_softened, List.map_append, List.map_append]
    exact ⟨ts ++ us, fun _ => List.append_ne_nil_of_left_ne_nil hts _, List.rel_append htypes htypes',
      hsoft.append hrow, hsoft.append hsoft'⟩

end

mutual

/-- An expression lowers where all candidates that it comes to do. -/
theorem lowers_of_offers {scope : Scope} : ∀ (e : Expr α) (recover : Bool),
    (∀ c ∈ e.offers, c.Lowers scope false) → e.Lowers scope recover := by
  intro e recover h
  cases e with
  | alternative note candidates =>
    obtain ⟨irs, hirs⟩ := exists_lowerCandidates_of_offers candidates h
    exact ⟨_, by rw [lower_alternative, hirs]; rfl⟩
  | _ => exact (h _ List.mem_cons_self).followed recover

/-- The same for a row of candidates. -/
theorem exists_lowerCandidates_of_offers {scope : Scope} : ∀ es : List (Expr α),
    (∀ c ∈ offersAll es, c.Lowers scope false) → ∃ irs, lowerCandidates scope es = .ok irs
  | [], _ => ⟨[], rfl⟩
  | e :: es, h => by
    rw [offersAll, List.forall_mem_append] at h
    obtain ⟨x, hx⟩ := lowers_of_offers e (!es.isEmpty) h.1
    obtain ⟨xs, hxs⟩ := exists_lowerCandidates_of_offers es h.2
    exact ⟨_, by rw [lowerCandidates, hx, hxs]; rfl⟩

end

/-! ## Arrays and alternatives -/

section Branches

variable {scope : Scope} {recover : Bool} {note : α} {es : List (Expr α)} {ir : Ir}

/-- An array has the type of its items' common type. -/
lemma exists_typesOf_array (h : (Expr.array note es).lower scope recover = .ok ir) :
    ∃ ts, TypesOf scope es ts ∧ ir.ty = Ty.arrayOf (Ty.joinAll ts) := by
  obtain ⟨irs, hirs, h⟩ := exists_of_bind_eq_ok h
  cases h
  exact ⟨_, typesOf_lowerAll hirs, Ty.arrayType_eq _⟩

/-- The type of an alternative is the join of the types of all candidates, groups taken apart. -/
lemma exists_typesOf_alternative (hscope : scope.Distinct) (hfilled : allFilled es = true)
    (h : (Expr.alternative note es).lower scope recover = .ok ir) :
    ∃ ts, TypesOf scope (offersAll es) ts ∧ ir.ty.same (Ty.joinAll ts) = true := by
  by_cases hnone : es = []
  · subst hnone
    cases h
    exact ⟨[], .nil, rfl⟩
  · have hall : (Expr.alternative note es).filled = true := by simp [Expr.filled, hnone, hfilled]
    obtain ⟨ts, hts, htypes, hbounds, -⟩ := exists_typesOf_offers hscope _ hall h
    have hdistinct := htypes.distinct hscope
    refine ⟨ts, htypes, ?_⟩
    exact (hbounds.trans (Ty.SameBounds.joinAll hts hdistinct).symm).same
      (distinct_of_lower _ hscope h).1 (.joinAll hdistinct)

end Branches

/-- **Types have least upper bounds.** Sameness of types is an equivalence, the one of types that are
above each other, and the join of two types is the least type above both. So joining is commutative,
associative and idempotent, and null is neutral. The type of an array is that of arrays of the join of
the types of its items, and the type of an alternative is the join of the types of its candidates, in
every order and grouping. For alternatives this is so as long as groups have candidates.

**Proof sketch.** The types above a join are those above both types; all laws follow from that. The
candidates that a group gives to the row it stands in have the same types above them as its own type,
as long as there are any. -/
theorem isLUB_join_branches :
    (Equivalence fun a b : ProperTy => a.ty.same b.ty = true) ∧
    (∀ a b : ProperTy, (a.ty.same b.ty = true ↔ a.ty.Reordered b.ty) ∧
      (AntisymmRel (· ≤ ·) a b ↔ a.ty.same b.ty = true) ∧ IsLUB {a, b} (a.join b)) ∧
    (∀ a b c : ProperTy, (a.ty.join b.ty).same (b.ty.join a.ty) = true ∧
      ((a.ty.join b.ty).join c.ty).same (a.ty.join (b.ty.join c.ty)) = true) ∧
    (∀ a : ProperTy, a.ty.join a.ty = a.ty ∧ Ty.null.join a.ty = a.ty ∧ a.ty.join .null = a.ty) ∧
    ∀ scope : Scope, scope.Distinct →
      (∀ (note : α) (recover : Bool) (items : List (Expr α)) (ir : Ir),
        (Expr.array note items).lower scope recover = .ok ir →
        (∃ ts, TypesOf scope items ts ∧ ir.ty = Ty.arrayOf (Ty.joinAll ts) ∧
          ∀ t, Ty.Joins ts t → ir.ty.same (Ty.arrayOf t) = true) ∧
        ∀ (note' : α) (recover' : Bool) (items' : List (Expr α)), items.Perm items' →
          ∃ ir', (Expr.array note' items').lower scope recover' = .ok ir' ∧
            ir.ty.same ir'.ty = true) ∧
      (∀ (note : α) (recover : Bool) (es : List (Expr α)) (ir : Ir), allFilled es = true →
        (Expr.alternative note es).lower scope recover = .ok ir →
        (∃ ts, TypesOf scope (offersAll es) ts ∧ ir.ty.same (Ty.joinAll ts) = true ∧
          ∀ t, Ty.Joins ts t → ir.ty.same t = true) ∧
        ∀ (note' : α) (recover' : Bool) (es' : List (Expr α)) (ir' : Ir), allFilled es' = true →
          (offersAll es).Perm (offersAll es') →
          (Expr.alternative note' es').lower scope recover' = .ok ir' → ir.ty.same ir'.ty = true) ∧
      ∀ (note : α) (recover : Bool) (es : List (Expr α)),
        (∀ e ∈ offersAll es, e.Lowers scope false) →
          (Expr.alternative note es).Lowers scope recover := by
  refine ⟨ProperTy.equivalence_same, fun a b => ⟨Ty.same_iff_reordered a.distinct b.distinct,
    ProperTy.antisymmRel_iff, ProperTy.isLUB_join a b⟩, fun a b c =>
    ⟨Ty.join_comm_same a.distinct b.distinct, Ty.join_assoc_same a.distinct b.distinct c.distinct⟩,
    fun a => ⟨Ty.join_self a.distinct, a.ty.null_join, a.ty.join_null⟩, fun scope hscope =>
    ⟨fun note recover items ir h => ?arrays, fun note recover es ir hfilled h => ?alternatives,
      fun note recover es h => lowers_of_offers (.alternative note es) recover h⟩⟩
  case arrays =>
    obtain ⟨ts, htypes, hty⟩ := exists_typesOf_array h
    have hts := htypes.distinct hscope
    refine ⟨⟨ts, htypes, hty, fun t ht => ?_⟩, fun note' recover' items' hperm => ?_⟩
    · rw [hty]
      exact Ty.arrayOf_same (Ty.same_symm (ht.distinct hts) (.joinAll hts) (ht.same_joinAll hts))
    · obtain ⟨ir', h'⟩ : (Expr.array note' items').Lowers scope recover' :=
        lowers_array.mpr fun e he => lowers_array.mp ⟨ir, h⟩ e (hperm.mem_iff.mpr he)
      obtain ⟨us, htypes', hty'⟩ := exists_typesOf_array h'
      refine ⟨ir', h', ?_⟩
      rw [hty, hty']
      exact Ty.arrayOf_same (Ty.same_joinAll_of_perm (htypes.perm htypes' hperm) hts)
  case alternatives =>
    obtain ⟨ts, htypes, hty⟩ := exists_typesOf_alternative hscope hfilled h
    have hts := htypes.distinct hscope
    have hir := (distinct_of_lower _ hscope h).1
    refine ⟨⟨ts, htypes, hty, fun t ht => ?_⟩, fun note' recover' es' ir' hfilled' hperm h' => ?_⟩
    · exact Ty.same_trans hir hty
        (Ty.same_symm (ht.distinct hts) (.joinAll hts) (ht.same_joinAll hts))
    · obtain ⟨us, htypes', hty'⟩ := exists_typesOf_alternative hscope hfilled' h'
      have hus := htypes'.distinct hscope
      have hir' := (distinct_of_lower _ hscope h').1
      have hjoins := Ty.same_joinAll_of_perm (htypes.perm htypes' hperm) hts
      exact Ty.same_trans hir (Ty.same_trans hir hty hjoins)
        (Ty.same_symm hir' (.joinAll hus) hty')

/-- A record of a number and a text, in either order. -/
def pairRecord (swapped : Bool) : Expr Unit :=
  let number := ("a", .literal () (.int 1))
  let text := ("b", .literal () (.string "x"))
  .record () (if swapped then [text, number] else [number, text])

/-- A missing record. -/
def noRecord : Expr Unit := .literal () .null

/-- The first of two arrangements of the same candidates starts with a record in one order of fields,
the second with the same in the other order, and that order is the one in its type. -/
theorem isLUB_join_branches_records :
    ∃ ir ir',
      transform (.alternative () [pairRecord false, .alternative () [noRecord, pairRecord true]]) =
        .ok ir ∧
      transform (.alternative () [.alternative () [pairRecord true, pairRecord false], noRecord]) =
        .ok ir' ∧
      ir.ty = .record [("a", .int), ("b", .string)] ∧ ir'.ty = .record [("b", .string), ("a", .int)] ∧
      ir.ty.same ir'.ty = true := by
  refine ⟨_, _, rfl, rfl, rfl, rfl, ?_⟩
  obtain ⟨-, -, -, -, hbranches⟩ := @isLUB_join_branches Unit
  obtain ⟨-, halternatives, -⟩ := hbranches _ Scope.distinct_input
  have hmoved : [pairRecord false, noRecord, pairRecord true].Perm
      [pairRecord true, pairRecord false, noRecord] :=
    @List.perm_append_comm _ [pairRecord false, noRecord] [pairRecord true]
  have hfirst := halternatives () false
    [pairRecord false, .alternative () [noRecord, pairRecord true]] _ rfl rfl
  exact hfirst.2 () false [.alternative () [pairRecord true, pairRecord false], noRecord] _ rfl
    hmoved rfl

/-- An alternative without candidates gives nothing to the row it stands in, but in the last place it
keeps its own type, which is above all others. -/
theorem ty_alternative_emptyGroup :
    let one : Expr Unit := .literal () (.int 1)
    let empty : Expr Unit := .alternative () []
    [empty, one].Perm [one, empty] ∧
      ∃ ir ir', transform (.alternative () [empty, one]) = .ok ir ∧
        transform (.alternative () [one, empty]) = .ok ir' ∧
        ir.ty = .int ∧ ir'.ty = .any ∧ ir.ty.same ir'.ty = false :=
  ⟨.swap _ _ _, _, _, rfl, rfl, rfl, rfl, rfl⟩

end Retarget
