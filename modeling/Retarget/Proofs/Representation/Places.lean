import Mathlib
import Retarget.Proofs.Quoting.Constants
import Retarget.Proofs.Representation.Fits

set_option autoImplicit false

/-!
# Representations in compiled SQL

The nodes of a lowered form that SQL code writes, each where its names stand for their values. From a
node one comes to the nodes that its code is made of, and what is true of the lowered form of a source
stays true on the way.

## Main definitions

* `Retarget.Sql.Place` — a node with the values of its names, and `Place.Part`, what it is made of.
* `Retarget.Sql.Place.Fits` — its code is represented as its type says.
* `Retarget.Sql.Place.IsOdd` — the nodes whose code is not.

## Main results

* `Retarget.Sql.Place.Sound.part` — one step keeps the types and shows in the code.
* `Retarget.Sql.Place.fits_iff` — what is made of parts that fit does so unless it is odd.
* `Retarget.Sql.representations_fit_iff` — all nodes of a source fit where none is odd.
-/

namespace Retarget.Sql

/-! ## Places -/

/-- A node of a lowered form where the names stand for values, each of which sees the names behind it.
A candidate that another one follows is `recovered`. -/
structure Place where
  env : List (String × Ir)
  recovered : Bool
  ir : Ir

namespace Place

/-- The expression of the node. -/
def expression (p : Place) : Expression := Sql.expression (scopeExpressions p.env) p.ir

/-- The second place is a part that the code of the first is made of. -/
inductive Part : Place → Place → Prop
  | argument {env : List (String × Ir)} {recovered : Bool} {name : String} {args : List Ir}
      {argTypes : List Ty} {ty : Ty} {form : CallForm} {a : Ir} : a ∈ args →
      registry.lookup name (argTypes.map Ty.tag) = .ok form →
      target.operand a ∈ form.written ⟨name, Target.operands target args, argTypes, ty⟩ →
      Part ⟨env, recovered, .call name args argTypes ty⟩ ⟨env, false, a⟩
  | test {env : List (String × Ir)} {recovered : Bool} {test yes no : Ir} {ty : Ty} :
      Part ⟨env, recovered, .cond test yes no ty⟩ ⟨env, false, test⟩
  | yes {env : List (String × Ir)} {recovered : Bool} {test yes no : Ir} {ty : Ty} :
      dropsBranch ty yes = false → Part ⟨env, recovered, .cond test yes no ty⟩ ⟨env, recovered, yes⟩
  | no {env : List (String × Ir)} {recovered : Bool} {test yes no : Ir} {ty : Ty} :
      dropsBranch ty no = false → Part ⟨env, recovered, .cond test yes no ty⟩ ⟨env, recovered, no⟩
  | candidate {env : List (String × Ir)} {recovered : Bool} {candidates : List Ir} {ty : Ty} {c : Ir} :
      c ∈ candidates.dropLast → dropsBranch ty c = false →
      Part ⟨env, recovered, .alternative candidates ty⟩ ⟨env, true, c⟩
  | last {env : List (String × Ir)} {recovered : Bool} {candidates : List Ir} {ty : Ty} {c : Ir} :
      c ∈ candidates.getLast? → dropsBranch ty c = false →
      Part ⟨env, recovered, .alternative candidates ty⟩ ⟨env, false, c⟩
  | bind {env : List (String × Ir)} {recovered : Bool} {name : String} {value : Ir}
      {bindings : List (String × Ir)} {body : Ir} {ty : Ty} :
      Part ⟨env, recovered, .letIn ((name, value) :: bindings) body ty⟩
        ⟨(name, value) :: env, recovered, .letIn bindings body ty⟩
  | body {env : List (String × Ir)} {recovered : Bool} {body : Ir} {ty : Ty} :
      Part ⟨env, recovered, .letIn [] body ty⟩ ⟨env, recovered, body⟩
  | use {env : List (String × Ir)} {recovered : Bool} {name : String} {value : Ir} {ty : Ty} :
      Part ⟨(name, value) :: env, recovered, .var name ty⟩ ⟨env, false, value⟩
  | skip {env : List (String × Ir)} {recovered : Bool} {name other : String} {value : Ir} {ty : Ty} :
      name ≠ other →
      Part ⟨(other, value) :: env, recovered, .var name ty⟩ ⟨env, recovered, .var name ty⟩

/-- The place stands in the code of a lowered form. -/
def Stands (ir : Ir) (p : Place) : Prop := Relation.ReflTransGen Part ⟨[], false, ir⟩ p

/-! ## What is true of every place -/

/-- The types of the names. -/
def scope (env : List (String × Ir)) : Scope :=
  env.map (fun b => (b.1, b.2.ty)) ++ [(inputName, .any)]

/-- The values of names have their types, and their calls follow the rules. -/
def SoundNames : List (String × Ir) → Prop
  | [] => True
  | (_, value) :: env => value.Typed (scope env) false ∧ value.Ruled ∧ SoundNames env

/-- The place has its types, and its code stands in the code. -/
structure Sound (code : String) (p : Place) : Prop where
  names : SoundNames p.env
  lexical : p.ir.Lexical
  typed : p.ir.Typed (scope p.env) p.recovered
  ruled : p.ir.Ruled
  shows : ∃ names, TargetKind.sql.Bound p.env names ∧ TargetKind.sql.Shows names p.ir code

section Steps

variable {code : String} {p q : Place}

/-- What is written as a part of the code of a place stands in the code. -/
lemma Sound.shows_part (h : p.Sound code) {part : Ir}
    (hpart : ∀ names fragment, TargetKind.sql.quoting.SealsNames names →
      (TargetKind.sql.target.fragment p.ir).Succeeds names fragment →
        TargetKind.sql.Shows names part fragment.code) :
    ∃ names, TargetKind.sql.Bound p.env names ∧ TargetKind.sql.Shows names part code := by
  obtain ⟨names, hbound, fragment, hfragment, hwithin⟩ := h.shows
  exact ⟨names, hbound, (hpart names fragment hbound.sealsNames hfragment).within hwithin⟩

/-- One step to a part keeps what is true of a place.

**Proof sketch.** One case for each kind of part. That the part is lexical, typed and ruled is a
premise of the whole being so; that its code stands in the code of the source is what the whole
writes, which names the parts it writes (`writes_call`, `writes_cond`, `shows_candidate`). A binding
passes its value on to the rest of the bindings, and a name passes to its value in the environment
in which that value was written. -/
theorem Sound.part (h : p.Sound code) (hpart : Part p q) : q.Sound code := by
  -- `h` itself is still needed, for what it shows.
  obtain ⟨hnames, hlexical, htyped, hruled, -⟩ := id h
  cases hpart with
  | @argument env recovered name args argTypes ty form a ha hlookup hwritten =>
    cases htyped with
    | call hargsTyped =>
      cases hlexical with
      | call hargs =>
        cases hruled with
        | call hargsRuled =>
          refine ⟨hnames, hargs a ha, hargsTyped a ha, hargsRuled a ha,
            h.shows_part fun names fragment hseals hfragment => ?_⟩
          -- The form that the call was written in is the one that the part was found by.
          obtain ⟨form', hlookup', hwrites⟩ :=
            writes_call (TargetKind.sound_operands hseals hargs) hfragment
          cases hlookup.symm.trans hlookup'
          exact TargetKind.shows_of_writes .sql hwrites hwritten
  | @test env recovered test yes no ty =>
    cases htyped with
    | cond htestTyped =>
      cases hlexical with
      | cond htest hyes hno =>
        cases hruled with
        | cond htestRuled =>
          refine ⟨hnames, htest, htestTyped, htestRuled,
            h.shows_part fun names fragment hseals hfragment => ?_⟩
          have hwrites := TargetKind.writes_cond hseals htest hyes hno hfragment
          exact TargetKind.shows_of_writes .sql hwrites List.mem_cons_self
  | @yes env recovered test yes no ty hdrops =>
    cases htyped with
    | cond _ hyesTyped =>
      cases hlexical with
      | cond htest hyes hno =>
        cases hruled with
        | cond _ hyesRuled =>
          refine ⟨hnames, hyes, hyesTyped, hyesRuled,
            h.shows_part fun names fragment hseals hfragment => ?_⟩
          have hwrites := TargetKind.writes_cond hseals htest hyes hno hfragment
          refine TargetKind.shows_of_writes .sql hwrites ?_
          simp [TargetKind.branch, TargetKind.dropsBranch, hdrops]
  | @no env recovered test yes no ty hdrops =>
    cases htyped with
    | cond _ _ hnoTyped =>
      cases hlexical with
      | cond htest hyes hno =>
        cases hruled with
        | cond _ _ hnoRuled =>
          refine ⟨hnames, hno, hnoTyped, hnoRuled,
            h.shows_part fun names fragment hseals hfragment => ?_⟩
          have hwrites := TargetKind.writes_cond hseals htest hyes hno hfragment
          refine TargetKind.shows_of_writes .sql hwrites ?_
          simp [TargetKind.branch, TargetKind.dropsBranch, hdrops]
  | @candidate env recovered candidates ty c hc hdrops =>
    cases htyped with
    | alternative hinit =>
      cases hlexical with
      | alternative hcandidates =>
        cases hruled with
        | alternative hruled =>
          have hmem := List.mem_of_mem_dropLast hc
          exact ⟨hnames, hcandidates c hmem, hinit c hc, hruled c hmem,
            h.shows_part fun names fragment hseals hfragment =>
              TargetKind.shows_candidate hseals hcandidates hmem hdrops hfragment⟩
  | @last env recovered candidates ty c hc hdrops =>
    cases htyped with
    | alternative _ hlast =>
      cases hlexical with
      | alternative hcandidates =>
        cases hruled with
        | alternative hruled =>
          have hmem := List.mem_of_getLast? hc
          exact ⟨hnames, hcandidates c hmem, hlast c hc, hruled c hmem,
            h.shows_part fun names fragment hseals hfragment =>
              TargetKind.shows_candidate hseals hcandidates hmem hdrops hfragment⟩
  | @bind env recovered name value bindings body ty =>
    cases htyped with
    | letIn hvaluesTyped hbodyTyped =>
      cases hlexical with
      | letIn hidentifiers hvalues hbody =>
        cases hruled with
        | letIn hvaluesRuled hbodyRuled =>
          obtain ⟨hvalue, hmoreValues⟩ := List.forall_mem_cons.mp hvalues
          obtain ⟨-, hmoreIdentifiers⟩ := List.forall_mem_cons.mp hidentifiers
          obtain ⟨hvalueRuled, hmoreRuled⟩ := List.forall_mem_cons.mp hvaluesRuled
          have hvalueTyped := hvaluesTyped [] name value bindings rfl
          obtain ⟨names, hbound, fragment, hfragment, hwithin⟩ := h.shows
          -- The code of the value comes first, and the rest is written with it bound.
          obtain ⟨inner, hinner, hrest⟩ := TargetKind.exists_of_bind hfragment
          refine ⟨⟨hvalueTyped, hvalueRuled, hnames⟩, .letIn hmoreIdentifiers hmoreValues hbody,
            .letIn (fun before n v after heq => ?_) ?_, .letIn hmoreRuled hbodyRuled,
            _, .cons rfl hbound hvalue ⟨_, _, hvalueTyped⟩ hinner, fragment, hrest, hwithin⟩
          · have hlater := hvaluesTyped ((name, value) :: before) n v after (by rw [heq, List.cons_append])
            rwa [Scope.bound_cons] at hlater
          · rwa [Scope.bound_cons] at hbodyTyped
  | @body env recovered body ty =>
    cases htyped with
    | letIn _ hbodyTyped =>
      cases hlexical with
      | letIn _ _ hbody =>
        cases hruled with
        | letIn _ hbodyRuled => exact ⟨hnames, hbody, hbodyTyped, hbodyRuled, h.shows⟩
  | @use env recovered name value ty =>
    obtain ⟨hvalueTyped, hvalueRuled, hrest⟩ := hnames
    obtain ⟨names, hbound, fragment, hfragment, hwithin⟩ := h.shows
    cases hbound with
    | @cons _ names _ _ inner hkind hboundRest hvalue _ hinner =>
      rw [TargetKind.fragment_var, List.lookup_cons_self] at hfragment
      subst hfragment
      have hsound := TargetKind.sound_operand hboundRest.sealsNames hvalue
      -- A use writes the code of the value, in parentheses or not.
      have hwrites := writes_substituted value (hsound.writes hinner)
      refine ⟨hrest, hvalue, hvalueTyped, hvalueRuled, names, hboundRest, ?_⟩
      exact (TargetKind.shows_of_writes .sql hwrites List.mem_cons_self).within hwithin
  | @skip env recovered name other value ty hne =>
    obtain ⟨-, -, hrest⟩ := hnames
    obtain ⟨names, hbound, fragment, hfragment, hwithin⟩ := h.shows
    cases hbound with
    | @cons _ names _ _ inner hkind hboundRest hvalue _ hinner =>
      rw [TargetKind.fragment_var, List.lookup_cons, beq_false_of_ne hne] at hfragment
      refine ⟨hrest, hlexical, ?_, hruled, names, hboundRest, fragment, ?_, hwithin⟩
      · cases htyped with
        | var hlookup =>
          refine .var ?_
          change List.lookup name ((other, value.ty) :: scope env) = _ at hlookup
          rwa [List.lookup_cons, beq_false_of_ne hne] at hlookup
      · rwa [TargetKind.fragment_var]

/-- What is true of a place is true of all that stands in its code. -/
theorem Sound.stands (h : p.Sound code) (hstands : Relation.ReflTransGen Part p q) : q.Sound code := by
  induction hstands with
  | refl => exact h
  | tail _ hpart ih => exact ih.part hpart

end Steps

/-! ## The way down ends -/

/-- The values of names are places from which the way down ends. -/
def EndingNames (env : List (String × Ir)) : Prop :=
  ∀ name value rest, (name, value) :: rest <:+ env →
    ∀ recovered, Acc (fun q p => Part p q) ⟨rest, recovered, value⟩

/-- The names further outside are places from which the way down ends. -/
lemma EndingNames.tail {b : String × Ir} {env : List (String × Ir)} (h : EndingNames (b :: env)) :
    EndingNames env :=
  fun name value rest hsuffix => h name value rest (hsuffix.trans (List.suffix_cons b env))

/-- One more name, from whose value the way down ends. -/
lemma EndingNames.cons {name : String} {value : Ir} {env : List (String × Ir)} (h : EndingNames env)
    (hvalue : ∀ recovered, Acc (fun q p => Part p q) ⟨env, recovered, value⟩) :
    EndingNames ((name, value) :: env) := by
  intro name' value' rest hsuffix
  rcases List.suffix_cons_iff.mp hsuffix with heq | hsuffix
  · cases heq
    exact hvalue
  · exact h name' value' rest hsuffix

/-- The way down from a name goes on from its value. -/
lemma acc_var {env : List (String × Ir)} (h : EndingNames env) (recovered : Bool) (name : String)
    (ty : Ty) : Acc (fun q p => Part p q) ⟨env, recovered, .var name ty⟩ := by
  induction env with
  | nil => exact .intro _ nofun
  | cons b env ih =>
    refine .intro _ fun q hpart => ?_
    cases hpart with
    | use => exact h _ _ _ (List.suffix_refl _) false
    | skip => exact ih h.tail

mutual

/-- The way down from a node ends where it ends from the values of the names. -/
theorem acc_ir : ∀ (ir : Ir) {env : List (String × Ir)} (recovered : Bool), EndingNames env →
    Acc (fun q p => Part p q) ⟨env, recovered, ir⟩
  | .literal _ _, _, _, _ => .intro _ nofun
  | .var name ty, _, recovered, h => acc_var h recovered name ty
  | .letIn bindings body ty, _, recovered, h =>
    acc_bindings bindings ty recovered (fun h recovered => acc_ir body recovered h) h
  | .lambda _ _ _, _, _, _ => .intro _ nofun
  | .cond test yes no ty, _, recovered, h => by
    refine .intro _ fun q hpart => ?_
    cases hpart with
    | test => exact acc_ir test false h
    | yes => exact acc_ir yes recovered h
    | no => exact acc_ir no recovered h
  | .alternative candidates ty, _, _, h => by
    refine .intro _ fun q hpart => ?_
    cases hpart with
    | candidate hc => exact acc_irs candidates _ (List.mem_of_mem_dropLast hc) true h
    | last hc => exact acc_irs candidates _ (List.mem_of_getLast? hc) false h
  | .call name args argTypes ty, _, _, h => by
    refine .intro _ fun q hpart => ?_
    cases hpart with
    | argument ha => exact acc_irs args _ ha false h
termination_by structural ir => ir

/-- The same for a row of nodes. -/
theorem acc_irs : ∀ (irs : List Ir), ∀ ir ∈ irs, ∀ {env : List (String × Ir)} (recovered : Bool),
    EndingNames env → Acc (fun q p => Part p q) ⟨env, recovered, ir⟩
  | [], _, hir, _, _, _ => by cases hir
  | ir :: irs, ir', hir, _, recovered, h => by
    rcases List.mem_cons.mp hir with heq | hir
    · rw [heq]
      exact acc_ir ir recovered h
    · exact acc_irs irs ir' hir recovered h
termination_by structural irs => irs

/-- The same for bindings over a body. -/
theorem acc_bindings : ∀ (bindings : List (String × Ir)) {body : Ir} (ty : Ty) (recovered : Bool),
    (∀ {env : List (String × Ir)}, EndingNames env → ∀ recovered,
      Acc (fun q p => Part p q) ⟨env, recovered, body⟩) →
    ∀ {env : List (String × Ir)}, EndingNames env →
      Acc (fun q p => Part p q) ⟨env, recovered, .letIn bindings body ty⟩
  | [], _, _, recovered, hbody, _, h => by
    refine .intro _ fun q hpart => ?_
    cases hpart with
    | body => exact hbody h recovered
  | (name, value) :: bindings, _, ty, recovered, hbody, _, h => by
    refine .intro _ fun q hpart => ?_
    cases hpart with
    | bind =>
      exact acc_bindings bindings ty recovered hbody (h.cons fun recovered => acc_ir value recovered h)
termination_by structural bindings => bindings

end

/-- From the values of all names the way down ends. -/
lemma endingNames (env : List (String × Ir)) : EndingNames env := by
  induction env with
  | nil => exact fun _ _ _ hsuffix => by simp at hsuffix
  | cons b env ih => exact ih.cons fun recovered => acc_ir b.2 recovered ih

/-- The way down from places to their parts always ends. -/
theorem wellFounded_part : WellFounded (fun q p => Part p q) :=
  ⟨fun p => acc_ir p.ir p.recovered (endingNames p.env)⟩

/-! ## Representations -/

/-- The place may be null because it is a candidate that another one follows. A call never is. -/
def mayBeNull (p : Place) : Bool :=
  match p.ir with
  | .call _ _ _ _ => false
  | _ => p.recovered

/-- The code of the place is represented as its type says. -/
def Fits (prelude : Prelude) (p : Place) : Prop :=
  FitsIn p.mayBeNull p.ir.ty (p.expression.representation prelude)

/-- An odd call, or an alternative whose failure does not have the type of its candidates. -/
def IsOdd (prelude : Prelude) (p : Place) : Prop :=
  match p.ir with
  | .call name args _ ty => IsOddCall prelude name (arguments (scopeExpressions p.env) args) ty
  | .alternative _ ty => ty.tag ∈ columnless
  | _ => False

section Fits

variable {prelude : Prelude} {code : String} {env : List (String × Ir)} {recovered : Bool}

/-- A place that fits does so as a candidate. -/
lemma Fits.fitsIn {ir : Ir} (h : Fits prelude ⟨env, recovered, ir⟩) :
    FitsIn recovered ir.ty ((Place.mk env recovered ir).expression.representation prelude) := by
  refine h.mono fun hnull => ?_
  cases ir with
  | call => cases hnull
  | literal | var | letIn | lambda | cond | alternative => exact hnull

/-- A call that is written has a form. -/
lemma Sound.exists_form {name : String} {args : List Ir} {argTypes : List Ty} {ty : Ty}
    (h : Sound code ⟨env, recovered, .call name args argTypes ty⟩) :
    ∃ form, registry.lookup name (argTypes.map Ty.tag) = .ok form := by
  obtain ⟨names, -, fragment, hfragment, -⟩ := h.shows
  obtain ⟨form, hlookup, -⟩ := Registry.exists_of_call hfragment
  exact ⟨form, hlookup⟩

/-- The argument of a sign is a part of it.

**Proof sketch.** The one entry of either name takes one operand and writes it, also where a minus
sign falls back to its helper, since an operand of type `any` is not null. -/
lemma Sound.sign_argument {name : String} (hname : name = "neg" ∨ name = "pos") {args : List Ir}
    {ty : Ty} (h : Sound code ⟨env, recovered, .call name args (args.map Ir.ty) ty⟩) :
    ∃ a, args = [a] ∧ Part ⟨env, recovered, .call name args (args.map Ir.ty) ty⟩ ⟨env, false, a⟩ := by
  obtain ⟨form, hlookup⟩ := h.exists_form
  have hneg : entriesOf "neg" = [([.any], .negation)] := rfl
  have hpos : entriesOf "pos" = [([.any], .shared .identity)] := rfl
  rcases hname with rfl | rfl
  · obtain ⟨signature, hmem, hcovers⟩ := mem_entriesOf hlookup (by decide)
    obtain ⟨hsignature, rfl⟩ : signature = [.any] ∧ form = .negation := by simpa [hneg] using hmem
    obtain ⟨a, rfl⟩ := exists_one hsignature hcovers
    refine ⟨a, rfl, .argument List.mem_cons_self hlookup ?_⟩
    rw [CallForm.written]
    split_ifs with hany
    · have hnull : a.ty.isNull = false := by
        change a.ty.isAny = true at hany
        cases htype : a.ty <;> first | rfl | simp [htype, Ty.isAny] at hany
      simp [Target.operands, Target.operand, converted, hnull]
    · exact List.mem_cons_self
  · obtain ⟨signature, hmem, hcovers⟩ := mem_entriesOf hlookup (by decide)
    obtain ⟨hsignature, rfl⟩ : signature = [.any] ∧ form = .shared .identity := by
      simpa [hpos] using hmem
    obtain ⟨a, rfl⟩ := exists_one hsignature hcovers
    exact ⟨a, rfl, .argument List.mem_cons_self hlookup List.mem_cons_self⟩

/-- What looks narrow is an integer.

**Proof sketch.** By induction on parts: narrow are an integer literal, a sign before what is
narrow, and a length, and the rules for their results say `int`. -/
lemma Sound.ty_of_isNarrow {p : Place} (h : p.Sound code) (hnarrow : isNarrow p.ir = true) :
    p.ir.ty = .int := by
  induction p using wellFounded_part.induction with
  | _ p ih =>
    obtain ⟨env, recovered, ir⟩ := p
    cases ir with
    | literal value ty =>
      cases value with
      | int v => cases h.typed; rfl
      | float | bool | string | date | dateTime | duration | null => cases hnarrow
    | call name args argTypes ty =>
      cases h.ruled with
      | call _ hrule =>
        simp only [isNarrow] at hnarrow
        split_ifs at hnarrow with hsign
        · obtain ⟨a, rfl, hpart⟩ := h.sign_argument hsign
          have hinner : isNarrow a = true := by simpa [allNarrow] using hnarrow
          have ha : a.ty = .int := ih _ hpart (h.part hpart) hinner
          have hty := hrule.eq_resultType (by rcases hsign with rfl | rfl <;> decide)
          rw [List.map_cons, List.map_nil, ha] at hty
          rcases hsign with rfl | rfl <;> exact hty
        · obtain rfl : name = "length" := by simpa using hnarrow
          exact hrule.eq_resultType (by decide)
    | var | letIn | lambda | cond | alternative => cases hnarrow

/-- A bound value stays what it is where its name stands. -/
lemma fits_substituted {value : Ir} (h : Sound code ⟨env, false, value⟩) {e : Expression}
    (hfits : Sql.Fits value.ty (e.representation prelude)) :
    Sql.Fits value.ty ((e.substituted value).representation prelude) := by
  unfold Expression.substituted
  split_ifs with hnarrow
  · have hint : value.ty = .int := h.ty_of_isNarrow hnarrow
    rw [hint, fits_iff_of_base rfl]
    rfl
  · rwa [Expression.representation]
  · exact hfits

/-- A name fits where its value does.

**Proof sketch.** By cases on the environment. Without bindings the name is the input, whose type is
unknown and whose column is `jsonb`. With a binding the name is either bound by it, so that the
fitting value is substituted, or is looked up in the rest. -/
lemma fits_var_iff {name : String} {ty : Ty} (h : Sound code ⟨env, recovered, .var name ty⟩)
    (hparts : ∀ q, Part ⟨env, recovered, .var name ty⟩ q → q.Fits prelude) :
    Fits prelude ⟨env, recovered, .var name ty⟩ := by
  have htyped := h.typed
  cases htyped with
  | var hlookup =>
    cases env with
    | nil =>
      -- Only the input is in scope.
      have hinput : ty = .any := by
        change List.lookup name [(inputName, Ty.any)] = some ty at hlookup
        rw [List.lookup_cons] at hlookup
        split at hlookup
        · exact (Option.some.inj hlookup).symm
        · cases hlookup
      subst hinput
      exact .inl rfl
    | cons b env =>
      obtain ⟨other, value⟩ := b
      change List.lookup name ((other, value.ty) :: scope env) = some ty at hlookup
      by_cases hname : name = other
      · subst hname
        rw [List.lookup_cons_self] at hlookup
        cases hlookup
        have hvalue := fitsIn_false.mp (hparts _ .use).fitsIn
        have hsubstituted := fits_substituted (h.part .use) hvalue
        refine .inl ?_
        rw [Place.expression, Sql.expression, scopeExpressions, List.lookup_cons_self]
        exact hsubstituted
      · have hrest := (hparts _ (.skip hname)).fitsIn
        simpa only [Place.Fits, Place.mayBeNull, Place.expression, Sql.expression, scopeExpressions,
          List.lookup_cons, beq_false_of_ne hname] using hrest

/-- A branch of unknown type. -/
lemma fitsIn_jsonb {ir : Ir} {e : Expression}
    (h : ir.ty.isNull = false → FitsIn recovered ir.ty (e.representation prelude)) :
    FitsIn recovered .any ((Argument.jsonb (ir, e)).representation prelude) := by
  unfold Argument.jsonb
  split
  · rename_i hany
    rw [show ir.ty = .any from hany] at h
    exact h rfl
  · rename_i fields hrecord
    rw [show ir.ty = .record fields from hrecord] at h
    exact (h rfl).imp id id
  · exact .inl rfl
  · exact .inl rfl

/-- A branch of a type that is known. -/
lemma representation_branch {ty : Ty} (hany : ty.isAny = false) (a : Argument) :
    a.branch ty = a.2 := by
  rw [Argument.branch, hany]
  rfl

/-- A conditional fits where its branches do. -/
lemma fits_cond {test yes no : Ir} {ty : Ty} (h : Sound code ⟨env, recovered, .cond test yes no ty⟩)
    (hparts : ∀ q, Part ⟨env, recovered, .cond test yes no ty⟩ q → q.Fits prelude) :
    Fits prelude ⟨env, recovered, .cond test yes no ty⟩ := by
  change FitsIn recovered ty (Representation.common _ _)
  have hyes (hdrops : dropsBranch ty yes = false) := (hparts _ (.yes hdrops)).fitsIn
  have hno (hdrops : dropsBranch ty no = false) := (hparts _ (.no hdrops)).fitsIn
  by_cases hany : ty.isAny = true
  · obtain rfl : ty = .any := by cases ty <;> first | rfl | cases hany
    refine FitsIn.common (fitsIn_jsonb fun hnull => hyes ?_) (fitsIn_jsonb fun hnull => hno ?_)
    · simp [dropsBranch, hnull]
    · simp [dropsBranch, hnull]
  · rw [Bool.not_eq_true] at hany
    rw [representation_branch hany, representation_branch hany]
    have htyped := h.typed
    cases htyped with
    | cond =>
      refine (hyes (by simp [dropsBranch, hany])).join (hno (by simp [dropsBranch, hany])) fun heq => ?_
      rw [heq] at hany
      cases hany

/-- Candidates are represented as their types say, or are null. -/
lemma fitsIn_candidate {candidates : List Ir} {ty : Ty}
    (hparts : ∀ q, Part ⟨env, recovered, .alternative candidates ty⟩ q → q.Fits prelude) {c : Ir}
    (hc : c ∈ candidates) (hdrops : dropsBranch ty c = false) :
    FitsIn true c.ty ((Sql.expression (scopeExpressions env) c).representation prelude) := by
  have hne := List.ne_nil_of_mem hc
  rw [← List.dropLast_concat_getLast hne, List.mem_append, List.mem_singleton] at hc
  rcases hc with hc | heq
  · exact (hparts _ (.candidate hc hdrops)).fitsIn
  · have hlast : c ∈ candidates.getLast? := heq ▸ List.getLast?_eq_some_getLast hne
    exact (hparts _ (.last hlast hdrops)).fitsIn.mono fun _ => rfl

/-- Single values that are not null are no values of a type without a column type. -/
lemma not_fitsIn_single {ty : Ty} (htag : ty.tag ∈ columnless) {c : Base} (hc : c ≠ .null) :
    ¬FitsIn recovered ty (.single c) := by
  rintro (hfits | ⟨-, hnull⟩)
  · cases ty with
    | array item =>
      obtain ⟨_, hsingle, -⟩ := hfits
      cases hsingle
    | null => exact hc (Representation.single.inj ((fits_iff_of_base rfl).mp hfits))
    | function => exact not_fits_function _ hfits
    | int | float | bool | string | date | dateTime | duration | record | any =>
      simp [Ty.tag, columnless] at htag
  · exact hc (Representation.single.inj hnull)

/-- Candidates of such a type do not go together with a failure that is `jsonb`. -/
lemma not_fitsIn_common {ty : Ty} (htag : ty.tag ∈ columnless) {r : Representation}
    (h : FitsIn true ty r) : ¬FitsIn recovered ty (r.common (.single .jsonb)) := by
  have hsingle : r = .single .null ∨ ∃ b, r = .array b := by
    rcases h with hfits | ⟨-, hnull⟩
    · cases ty with
      | array item =>
        obtain ⟨b, hb, -⟩ := hfits
        exact .inr ⟨b, hb⟩
      | null => exact .inl ((fits_iff_of_base rfl).mp hfits)
      | function => exact (not_fits_function _ hfits).elim
      | int | float | bool | string | date | dateTime | duration | record | any =>
        simp [Ty.tag, columnless] at htag
    · exact .inl hnull
  rcases hsingle with rfl | ⟨b, rfl⟩
  · rw [Representation.common_null_left]
    exact not_fitsIn_single htag (by decide)
  · exact not_fitsIn_single htag (show Base.other ≠ .null by decide)

/-- An alternative whose candidates fit does so unless its type has no column type.

**Proof sketch.** The code is a `COALESCE` over the candidates and a failure of the type of the
alternative. The candidates together fit that type or are null, being its join; a failure fits it
whenever the type has a column (`fits_failure_iff`). A type without one writes a failure of another
type, with which nothing has a common type. -/
lemma fits_alternative_iff {candidates : List Ir} {ty : Ty}
    (h : Sound code ⟨env, recovered, .alternative candidates ty⟩)
    (hparts : ∀ q, Part ⟨env, recovered, .alternative candidates ty⟩ q → q.Fits prelude) :
    Fits prelude ⟨env, recovered, .alternative candidates ty⟩ ↔ ty.tag ∉ columnless := by
  have hfailure := fits_failure_iff prelude ty (quote "no alternative matched")
  -- The representation is the common one of the candidates and of the failure at the end.
  have hrepresentation : (Place.mk env recovered (.alternative candidates ty)).expression.representation
      prelude = (Representation.commonAll (candidates.map fun c =>
        (Argument.branch ty (c, Sql.expression (scopeExpressions env) c)).representation prelude)).common
        ((Expression.failure ty (quote "no alternative matched")).representation prelude) := by
    change Representation.commonAll (Expression.representations prelude (_ ++ _)) = _
    rw [Expression.representations_eq_map, List.map_append, arguments_eq_map, List.map_map, List.map_map, List.map_singleton,
      Representation.commonAll_append_singleton]
    rfl
  rw [Place.Fits, hrepresentation]
  change FitsIn recovered ty _ ↔ _
  -- The candidates alone are represented as the type of the alternative says, or are null.
  have hcandidates : FitsIn true ty (Representation.commonAll (candidates.map fun c =>
      (Argument.branch ty (c, Sql.expression (scopeExpressions env) c)).representation prelude)) := by
    by_cases hany : ty.isAny = true
    · obtain rfl : ty = .any := by cases ty <;> first | rfl | cases hany
      refine FitsIn.commonAll fun r hr => ?_
      obtain ⟨c, hc, rfl⟩ := List.mem_map.mp hr
      exact fitsIn_jsonb fun hnull => fitsIn_candidate hparts hc (by simp [dropsBranch, hnull])
    · rw [Bool.not_eq_true] at hany
      simp only [representation_branch hany]
      have htyped := h.typed
      cases htyped with
      | alternative =>
        refine FitsIn.joinAll ?_ fun heq => ?_
        · rw [List.forall₂_map_left_iff, List.forall₂_map_right_iff, List.forall₂_same]
          exact fun c hc => fitsIn_candidate hparts hc (by simp [dropsBranch, hany])
        · rw [heq] at hany
          cases hany
  by_cases htag : ty.tag ∈ columnless
  · have hnone : column? ty = none := by
      cases ty <;> first | rfl | simp [Ty.tag, columnless] at htag
    rw [Expression.representation_failure prelude hnone]
    exact iff_of_false (not_fitsIn_common htag hcandidates) (not_not.mpr htag)
  · exact iff_of_true (.inl (hcandidates.common_right (hfailure.mpr htag))) htag

end Fits

/-- What is made of parts that are represented as their types say is itself unless it is odd.

**Proof sketch.** By cases on the form. Literals have the type of their column; names, bindings and
conditions take over what their parts have; alternatives and calls have the lemmas
`fits_alternative_iff` and `fits_call_iff`. Functions are never written in SQL. -/
theorem fits_iff {prelude : Prelude} {code : String} {p : Place} (h : p.Sound code)
    (hparts : ∀ q, Part p q → q.Fits prelude) : p.Fits prelude ↔ ¬p.IsOdd prelude := by
  obtain ⟨env, recovered, ir⟩ := p
  cases ir with
  | literal value ty =>
    refine iff_of_true ?_ id
    have htyped := h.typed
    cases htyped with
    | literal => exact .inl ((fits_iff_of_base (base_literal value)).mpr rfl)
    | replaced => exact .inr ⟨rfl, rfl⟩
  | var name ty => exact iff_of_true (fits_var_iff h hparts) id
  | letIn bindings body ty =>
    refine iff_of_true ?_ id
    cases bindings with
    | nil =>
      have htyped := h.typed
      cases htyped with
      | letIn => exact (hparts _ .body).fitsIn
    | cons b bindings =>
      have hrest := hparts ⟨b :: env, recovered, .letIn bindings body ty⟩ .bind
      rw [Place.Fits, Place.expression, Sql.expression] at hrest ⊢
      rwa [boundExpressions]
  | lambda params body ty =>
    obtain ⟨names, -, fragment, hfragment, -⟩ := h.shows
    exact (Emit.succeeds_fail.mp hfragment).elim
  | cond test yes no ty => exact iff_of_true (fits_cond h hparts) id
  | alternative candidates ty => exact fits_alternative_iff h hparts
  | call name args argTypes ty =>
    obtain ⟨form, hlookup⟩ := h.exists_form
    have hruled := h.ruled
    cases hruled with
    | call _ hrule =>
      have hargs : PartsFit prelude (scopeExpressions env) name args ty form := fun a ha hwritten =>
        fitsIn_false.mp (hparts _ (.argument ha hlookup hwritten)).fitsIn
      have hcall := fits_call_iff prelude hlookup hrule hargs
      have hexpression : (Place.mk env recovered (.call name args (args.map Ir.ty) ty)).expression =
          callExpression name (args.map Ir.ty) ty (arguments (scopeExpressions env) args) form := by
        rw [Place.expression, Sql.expression, hlookup]
      rw [Place.Fits, hexpression]
      exact fitsIn_false.trans hcall

end Place

/-! ## Sources -/

section Sources

variable {source : String} {form : OutputForm} {ir : Ir} {out : Compiled}

/-- Every place of a source has its types and stands in the compiled code. -/
lemma Place.Stands.sound (hsource : lowerSource source = .ok ir)
    (hcompile : compile source .sql form = .ok out) {p : Place} (h : p.Stands ir) :
    p.Sound out.code := by
  obtain ⟨fragment, hfragment, hwithin⟩ := TargetKind.exists_within_of_compile hsource hcompile
  have hroot : Place.Sound out.code ⟨[], false, ir⟩ :=
    ⟨trivial, lexical_of_lowerSource hsource, typed_of_lowerSource hsource,
      ruled_of_lowerSource hsource, [], .nil, fragment, hfragment, hwithin⟩
  exact hroot.stands h

/-- The code of a place is that of its expression. -/
lemma Place.Sound.within {code : String} {p : Place} (h : p.Sound code) :
    quoting.Within p.expression.text code := by
  obtain ⟨names, hbound, fragment, hfragment, hwithin⟩ := h.shows
  have hspelled := spells_expression p.ir (scopeExpressions p.env)
  rw [names_scopeExpressions hbound] at hspelled
  rwa [← hspelled.2 fragment hfragment] at hwithin

/-- The expressions of the nodes that are written for a source stand in its SQL code, and all of them
are represented as their types say exactly where none of them is odd.

**Proof sketch.** At each place `fits_iff` says that it fits where its parts do and it is not odd.
From left to right this is used at the place alone; from right to left all parts fit by induction on
them, which is well-founded as values of names stand before these. -/
theorem representations_fit_iff (prelude : Prelude) (hsource : lowerSource source = .ok ir)
    (hcompile : compile source .sql form = .ok out) :
    (∀ p : Place, p.Stands ir → quoting.Within p.expression.text out.code) ∧
      ((∀ p : Place, p.Stands ir → p.Fits prelude) ↔
        ∀ p : Place, p.Stands ir → ¬p.IsOdd prelude) := by
  have hsound {p : Place} (h : p.Stands ir) : p.Sound out.code := h.sound hsource hcompile
  refine ⟨fun p hp => (hsound hp).within, fun hfits p hp => ?_, fun hregular p => ?_⟩
  · exact (Place.fits_iff (hsound hp) fun q hpart => hfits q (hp.tail hpart)).mp (hfits p hp)
  · -- From the parts to the whole, down to which every way ends.
    induction p using Place.wellFounded_part.induction with
    | _ p ih =>
      intro hp
      refine (Place.fits_iff (hsound hp) fun q hpart => ?_).mpr (hregular p hp)
      exact ih q hpart (hp.tail hpart)

end Sources

/-- A string times an integer. -/
def textProduct : Ir :=
  .call "mul" [.ofLiteral (.string "a"), .ofLiteral (.int 2)] [.string, .int] .any

/-- The tokens of the product. -/
def textProductTokens : List Token :=
  [⟨.literal (.string "a"), "'a'", 0⟩, ⟨.punct .star, "*", 4⟩, ⟨.literal (.int 2), "2", 6⟩,
   Token.atEnd 7]

/-- The helpers by their documentation. -/
def documentedPrelude : Prelude where
  returns name :=
    if name ∈ truthCalls ∨ name ∈ selectables.map (fun s => "is_" ++ s.stem) then .boolean
    else if name ∈ stringCalls then .text
    else if name ∈ integerCalls then .integer
    else ((selectables.find? (name ∈ ·.valueCalls)).bind fun s => base? s.ty).getD .jsonb
  truth := by decide
  string := by decide
  integer := by decide
  selector := by decide
  check := by decide
  untyped := by decide

/-- The product of a string and an integer has no known type, but is written with an operator. -/
theorem representations_fit_textProduct :
    lowerSource "'a' * 2" = .ok textProduct ∧
      compile "'a' * 2" .sql .fragment = .ok ⟨"'a' * 2", []⟩ ∧
      ∃ p : Place, p.Stands textProduct ∧ ¬p.Fits documentedPrelude := by
  have htokens : (tokenize "'a' * 2").toOption = some textProductTokens := by cbv
  have hsource : lowerSource "'a' * 2" = .ok textProduct := lowerSource_eq_ok htokens rfl rfl
  have hcompile : compile "'a' * 2" .sql .fragment = .ok ⟨"'a' * 2", []⟩ := by
    simp only [compile, hsource]
    rfl
  have hodd : Place.IsOdd documentedPrelude ⟨[], false, textProduct⟩ :=
    (isOddCall_arithmetic (by decide)).mpr ⟨rfl, by decide⟩
  obtain ⟨-, hiff⟩ := representations_fit_iff documentedPrelude hsource hcompile
  refine ⟨hsource, hcompile, by_contra fun hnone => ?_⟩
  have hfits (p : Place) (hp : p.Stands textProduct) : p.Fits documentedPrelude :=
    by_contra fun hp' => hnone ⟨p, hp, hp'⟩
  exact hiff.mp hfits _ .refl hodd

end Retarget.Sql
