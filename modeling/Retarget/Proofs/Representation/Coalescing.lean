import Mathlib
import Retarget.Proofs.Representation.Places

set_option autoImplicit false

/-!
# Alternatives in SQL

An alternative is a call of `COALESCE` over its candidates, with a failure behind them. `COALESCE` skips
what the database takes for null. The null of `jsonb` is a value to the database but a null of the
language, so an alternative gives it where it comes before all other values.

## Main definitions

* `Retarget.Sql.Database` — what expressions give in a database with an input.
* `Retarget.Sql.firstPresent` — what `COALESCE` gives.
* `Retarget.Sql.firstValue` — the first candidate that is null in neither way.

## Main results

* `Retarget.Sql.coalesce_eq_firstValue_iff` — an alternative gives the first candidate that is null in
  neither way, unless the null of `jsonb` comes first.
-/

namespace Retarget.Sql

/-! ## Values -/

/-- What an expression gives when it does not raise. -/
inductive Datum (α : Type)
  /-- The null of the database. -/
  | absent
  /-- The null of `jsonb`. -/
  | jsonNull
  | value (v : α)
deriving DecidableEq, Repr

variable {α : Type}

/-- The first of the arguments that is not the null of the database; an argument that raises, raises
when it is reached. -/
def firstPresent : List (Option (Datum α)) → Option (Datum α)
  | [] => some .absent
  | none :: _ => none
  | some .absent :: rest => firstPresent rest
  | some .jsonNull :: _ => some .jsonNull
  | some (.value v) :: _ => some (.value v)

/-- The first of the candidates that is null in neither way; where there is none, nothing but a raise is
left. -/
def firstValue : List (Option (Datum α)) → Option (Datum α)
  | [] | none :: _ => none
  | some .absent :: rest | some .jsonNull :: rest => firstValue rest
  | some (.value v) :: _ => some (.value v)

/-- The null of `jsonb` comes before all values and raises. -/
def nullComesFirst : List (Option (Datum α)) → Bool
  | some .absent :: rest => nullComesFirst rest
  | some .jsonNull :: _ => true
  | _ => false

/-- The first value is not the null of `jsonb`. -/
lemma firstValue_ne_jsonNull (ds : List (Option (Datum α))) : firstValue ds ≠ some .jsonNull := by
  fun_induction firstValue ds <;> simp_all

/-- With a raise behind them, the first argument that is present is the first value unless the null of
`jsonb` comes first. -/
lemma firstPresent_eq_firstValue_iff (ds : List (Option (Datum α))) :
    firstPresent (ds ++ [none]) = firstValue ds ↔ nullComesFirst ds = false := by
  fun_induction nullComesFirst ds with
  | case1 rest ih => exact ih
  | case2 rest => exact iff_of_false (firstValue_ne_jsonNull rest).symm (by decide)
  | case3 ds habsent hnull =>
    refine iff_of_true ?_ rfl
    match ds with
    | [] => rfl
    | none :: _ => rfl
    | some .absent :: rest => exact (habsent rest rfl).elim
    | some .jsonNull :: rest => exact (hnull rest rfl).elim
    | some (.value v) :: _ => rfl

/-- Without the null of `jsonb` among the candidates it does not come first. -/
lemma nullComesFirst_eq_false {ds : List (Option (Datum α))} (h : some .jsonNull ∉ ds) :
    nullComesFirst ds = false := by
  fun_induction nullComesFirst ds with
  | case1 rest ih => exact ih fun hmem => h (List.mem_cons_of_mem _ hmem)
  | case2 rest => exact absurd List.mem_cons_self h
  | case3 => rfl

/-- The raise behind the arguments is reached only where all of them are absent. -/
lemma all_absent_of_firstPresent {ds : List (Option (Datum α))} (hraise : none ∉ ds)
    (h : firstPresent (ds ++ [none]) = none) : ∀ d ∈ ds, d = some .absent := by
  induction ds with
  | nil => exact List.forall_mem_nil _
  | cons d ds ih =>
    obtain ⟨hd, hrest⟩ := not_or.mp (mt List.mem_cons.mpr hraise)
    match d with
    | none => exact absurd rfl hd
    | some .absent => exact List.forall_mem_cons.mpr ⟨rfl, ih hrest h⟩
    | some .jsonNull => cases h
    | some (.value v) => cases h

/-! ## Databases -/

/-- Values of the representation may be the null of `jsonb`. -/
def Representation.holdsJson (r : Representation) : Bool :=
  r == .single .jsonb || r == .single .other

/-- What expressions give in a database with an input. `COALESCE` gives its first argument that is not
null to the database, the failure helper raises, and only values of `jsonb` are its null. -/
structure Database (prelude : Prelude) (α : Type) where
  /-- What an expression gives, if it does not raise. -/
  eval : Expression → Option (Datum α)
  coalesce : ∀ parts, eval (.coalesce parts) = firstPresent (parts.map eval)
  failure : ∀ ty message, eval (.failure ty message) = none
  typed : ∀ e, (e.representation prelude).holdsJson = false → eval e ≠ some .jsonNull

/-- The candidates of an alternative of a type, as `COALESCE` takes them. -/
def candidateParts (env : List (String × Ir)) (candidates : List Ir) (ty : Ty) : List Expression :=
  (arguments (scopeExpressions env) candidates).map (Argument.branch ty)

section Alternatives

variable {prelude : Prelude} {env : List (String × Ir)} {recovered : Bool} {candidates : List Ir}
  {ty : Ty}

/-- Candidates with a failure behind them give the first one that is not null to the database, and
raise where there is none. -/
lemma eval_coalesce (db : Database prelude α) (parts : List Expression) (ty : Ty) (message : String) :
    db.eval (.coalesce (parts ++ [.failure ty message])) = firstPresent (parts.map db.eval ++ [none]) := by
  rw [db.coalesce, List.map_append, List.map_singleton, db.failure]

/-- Types whose common one is not of `jsonb` values are not so themselves. -/
lemma tag_of_join {a b : Ty} (h : (a.join b).tag ∉ [Tag.any, .record]) :
    a.tag ∉ [Tag.any, .record] ∧ b.tag ∉ [Tag.any, .record] := by
  rcases Ty.join_cases a b with ⟨hsame, hjoin⟩ | ⟨rfl, hjoin⟩ | ⟨rfl, hjoin⟩ |
    ⟨x, y, rfl, rfl, -⟩ | hjoin
  · rw [hjoin] at h
    exact ⟨h, Ty.tag_of_same hsame ▸ h⟩
  · exact ⟨by decide, hjoin ▸ h⟩
  · exact ⟨hjoin ▸ h, by decide⟩
  · exact ⟨by simp [Ty.tag], by simp [Ty.tag]⟩
  · exact absurd (by rw [hjoin]; decide) h

/-- Types whose common type is known, and no record, are so themselves. -/
lemma tag_of_joinAll {ts : List Ty} (h : (Ty.joinAll ts).tag ∉ [Tag.any, .record]) :
    ∀ t ∈ ts, t.tag ∉ [Tag.any, .record] := by
  cases ts with
  | nil => exact List.forall_mem_nil _
  | cons t ts =>
    rw [Ty.joinAll] at h
    induction ts generalizing t with
    | nil => simpa using h
    | cons u ts ih =>
      rw [List.foldl_cons] at h
      obtain ⟨hjoin, hrest⟩ := List.forall_mem_cons.mp (ih (t.join u) h)
      obtain ⟨ht, hu⟩ := tag_of_join hjoin
      exact List.forall_mem_cons.mpr ⟨ht, List.forall_mem_cons.mpr ⟨hu, hrest⟩⟩

/-- Values of other types are never the null of `jsonb`. -/
lemma FitsIn.holdsJson {r : Representation} (h : FitsIn recovered ty r)
    (htag : ty.tag ∉ [Tag.any, .record]) : r.holdsJson = false := by
  rcases h with hfits | ⟨-, rfl⟩
  · cases ty with
    | array item =>
      obtain ⟨b, rfl, -⟩ := hfits
      rfl
    | function => exact (not_fits_function r hfits).elim
    | record | any => simp [Ty.tag] at htag
    | int | float | bool | string | date | dateTime | duration | null =>
      rw [(fits_iff_of_base rfl).mp hfits]
      rfl
  · rfl

/-- The null of `jsonb` is no candidate of an alternative of another type, where the candidates are
represented as their types say. -/
lemma jsonNull_not_mem (db : Database prelude α) {code : String}
    (h : Place.Sound code ⟨env, recovered, .alternative candidates ty⟩)
    (hparts : ∀ q, Place.Part ⟨env, recovered, .alternative candidates ty⟩ q → q.Fits prelude)
    (htag : ty.tag ∉ [Tag.any, .record]) :
    some .jsonNull ∉ (candidateParts env candidates ty).map db.eval := by
  have hany : ty.isAny = false := by cases ty <;> first | rfl | simp [Ty.tag] at htag
  have htyped := h.typed
  cases htyped with
  | alternative =>
    rw [candidateParts, arguments_eq_map, List.map_map, List.map_map]
    intro hmem
    obtain ⟨c, hc, hnull⟩ := List.mem_map.mp hmem
    simp only [Function.comp_apply, Place.representation_branch hany] at hnull
    have hfits := Place.fitsIn_candidate hparts hc (by simp [dropsBranch, hany])
    exact db.typed _ (hfits.holdsJson (tag_of_joinAll htag _ (List.mem_map_of_mem hc))) hnull

end Alternatives

/-! ## Sources -/

section Sources

variable {source : String} {form : OutputForm} {ir : Ir} {out : Compiled}

/-- Every alternative of a source is a call of `COALESCE` in its SQL code. It gives the first candidate
that is null in neither way exactly where the null of `jsonb` does not come first, which it never does
among candidates of other types; and the failure is reached only where all candidates are null.

**Proof sketch.** The call has the first of the values that is not absent (`eval_coalesce`), and
this differs from the first one that is null in neither way where the null of `jsonb` comes before
it. Candidates that fit a type other than `any` or a record are no `jsonb` and hence never its null.
-/
theorem coalesce_eq_firstValue_iff (hsource : lowerSource source = .ok ir)
    (hcompile : compile source .sql form = .ok out) {env : List (String × Ir)} {recovered : Bool}
    {candidates : List Ir} {ty : Ty}
    (hstands : Place.Stands ir ⟨env, recovered, .alternative candidates ty⟩) {prelude : Prelude}
    (db : Database prelude α) :
    let call := Expression.coalesce
      (candidateParts env candidates ty ++ [.failure ty (quote "no alternative matched")])
    let values := (candidateParts env candidates ty).map db.eval
    quoting.Within call.text out.code ∧
      (db.eval call = firstValue values ↔ nullComesFirst values = false) ∧
      (none ∉ values → db.eval call = none → ∀ d ∈ values, d = some .absent) ∧
      (ty.tag ∉ [Tag.any, .record] →
        (∀ q, Place.Part ⟨env, recovered, .alternative candidates ty⟩ q → q.Fits prelude) →
          db.eval call = firstValue values) := by
  intro call values
  have hsound := hstands.sound hsource hcompile
  have hcall : call = (Place.mk env recovered (.alternative candidates ty)).expression := rfl
  have heval : db.eval call = firstPresent (values ++ [none]) := eval_coalesce db _ ty _
  refine ⟨hcall ▸ hsound.within, ?_, fun hraise hnone => ?_, fun htag hparts => ?_⟩
  · rw [heval]
    exact firstPresent_eq_firstValue_iff values
  · rw [heval] at hnone
    exact all_absent_of_firstPresent hraise hnone
  · rw [heval, firstPresent_eq_firstValue_iff]
    exact nullComesFirst_eq_false (jsonNull_not_mem db hsound hparts htag)

end Sources

/-! ### A member that is null -/

/-- The null of `jsonb` may come from either of two branches. -/
lemma Representation.holdsJson_common {r : Representation} (h : r.holdsJson = true)
    (s : Representation) : (r.common s).holdsJson = true ∧ (s.common r).holdsJson = true := by
  obtain rfl | rfl : r = .single .jsonb ∨ r = .single .other := by simpa [holdsJson] using h
  · rcases s with s | s <;> cases s <;> decide
  · rcases s with s | s <;> cases s <;> decide

/-- The null of `jsonb` may come from any of a row of branches. -/
lemma Representation.holdsJson_commonAll {rs : List Representation} {r : Representation}
    (hr : r ∈ rs) (h : r.holdsJson = true) : (commonAll rs).holdsJson = true := by
  induction rs using List.reverseRecOn with
  | nil => cases hr
  | append_singleton rs s ih =>
    rw [commonAll_append_singleton]
    rcases List.mem_append.mp hr with hr | hr
    · exact (holdsJson_common (ih hr) s).1
    · obtain rfl := List.mem_singleton.mp hr
      exact (holdsJson_common h _).2

/-- What is first among the arguments is one of them. -/
lemma mem_of_firstPresent {ds : List (Option (Datum α))} (h : firstPresent ds = some .jsonNull) :
    some .jsonNull ∈ ds := by
  fun_induction firstPresent ds with
  | case1 => cases h
  | case2 => cases h
  | case3 rest ih => exact List.mem_cons_of_mem _ (ih h)
  | case4 => exact List.mem_cons_self
  | case5 => cases h

namespace NullMember

mutual

/-- Every member is the null of `jsonb`, and everything else is the number one. -/
def eval : Expression → Option (Datum Nat)
  | .coalesce parts => firstPresent (evals parts)
  | .failure _ _ => none
  | .member _ _ => some .jsonNull
  | _ => some (.value 1)

/-- The same for a row of expressions. -/
def evals : List Expression → List (Option (Datum Nat))
  | [] => []
  | e :: es => eval e :: evals es

end

/-- A row of expressions is evaluated one by one. -/
lemma evals_eq_map (es : List Expression) : evals es = es.map eval := by
  induction es with
  | nil => rfl
  | cons e es ih => exact congrArg _ ih

mutual

/-- An expression that gives the null of `jsonb` has a representation with it. -/
lemma holdsJson_of_eval (prelude : Prelude) : ∀ e, eval e = some .jsonNull →
    (e.representation prelude).holdsJson = true
  | .member _ _, _ => rfl
  | .coalesce parts, h => by
    obtain ⟨r, hr, hholds⟩ := holdsJson_of_evals prelude parts (mem_of_firstPresent h)
    exact Representation.holdsJson_commonAll hr hholds
  | .failure _ _, h => by cases h
  | .code _ _, h | .input _, h | .constant _, h | .fixed _ _, h | .operation _ _ _, h
  | .negated _, h | .call _ _, h | .helper _ _, h | .cast _ _, h | .memberText _ _, h
  | .array _, h | .parens _, h | .firstItem _, h | .lastItem _, h | .choice _ _ _, h => by cases h

/-- One of a row of expressions that gives the null of `jsonb` has a representation with it. -/
lemma holdsJson_of_evals (prelude : Prelude) : ∀ es, some .jsonNull ∈ evals es →
    ∃ r ∈ Expression.representations prelude es, r.holdsJson = true
  | [], h => by cases h
  | e :: es, h => by
    rcases List.mem_cons.mp h with h | h
    · exact ⟨_, List.mem_cons_self, holdsJson_of_eval prelude e h.symm⟩
    · obtain ⟨r, hr, hholds⟩ := holdsJson_of_evals prelude es h
      exact ⟨r, List.mem_cons_of_mem _ hr, hholds⟩

end

end NullMember

/-- A database with an input whose members are all null. -/
def nullMembers : Database documentedPrelude Nat where
  eval := NullMember.eval
  coalesce parts := by rw [NullMember.eval, NullMember.evals_eq_map]
  failure _ _ := rfl
  typed e h hnull := by
    rw [NullMember.holdsJson_of_eval documentedPrelude e hnull] at h
    cases h

/-- A member, or one. -/
def memberOrOne : Ir :=
  .alternative
    [.call "field" [.var "_" .any, .ofLiteral (.string "a")] [.any, .string] .any,
     .ofLiteral (.int 1)] .any

/-- The tokens of the alternative. -/
def memberOrOneTokens : List Token :=
  [⟨.ident "_", "_", 0⟩, ⟨.punct .dot, ".", 1⟩, ⟨.ident "a", "a", 2⟩, ⟨.punct .bar, "|", 4⟩,
   ⟨.literal (.int 1), "1", 6⟩, Token.atEnd 7]

/-- Where the member is the null of `jsonb`, the alternative gives that in place of one. -/
theorem coalesce_eq_firstValue_nullMember :
    lowerSource "_.a | 1" = .ok memberOrOne ∧
      compile "_.a | 1" .sql .fragment =
        .ok ⟨"COALESCE((_ -> 'a'), to_jsonb(1), elo_fail('no alternative matched'))", ["elo_fail"]⟩ ∧
      firstValue ((candidateParts [] [.call "field" [.var "_" .any, .ofLiteral (.string "a")]
        [.any, .string] .any, .ofLiteral (.int 1)] .any).map nullMembers.eval) = some (.value 1) ∧
      nullMembers.eval (Sql.expression [] memberOrOne) ≠ some (.value 1) := by
  have htokens : (tokenize "_.a | 1").toOption = some memberOrOneTokens := by cbv
  have hsource : lowerSource "_.a | 1" = .ok memberOrOne := lowerSource_eq_ok htokens rfl rfl
  have hcompile : compile "_.a | 1" .sql .fragment =
      .ok ⟨"COALESCE((_ -> 'a'), to_jsonb(1), elo_fail('no alternative matched'))", ["elo_fail"]⟩ := by
    simp only [compile, hsource]
    rfl
  obtain ⟨-, hiff, -⟩ := coalesce_eq_firstValue_iff hsource hcompile .refl nullMembers
  refine ⟨hsource, hcompile, rfl, fun heq => ?_⟩
  cases hiff.mp heq

end Retarget.Sql
