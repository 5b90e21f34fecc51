import Retarget.Proofs.Naming.Layout

set_option autoImplicit false

/-!
# The layout of a lowered form

A target with functions writes a binding as a function that is called at once. An outline says how
such a target lays out each construct. The layout of a lowered form then follows its structure and
keeps for every variable the place of its binder, by the scopes of the lowered form alone.

## Main definitions

* `Retarget.Ir.Named` — the names of a lowered form are identifiers.
* `Retarget.Outline`, `Retarget.Outline.layout` — how a target lays out lowered forms.
* `Retarget.Outline.Describes` — the outline lays out what the target writes.
* `Retarget.Outline.tree` — the layout of compiled code.
* `Retarget.Stands` — a piece stands in a code, inside of functions with parameters.

## Main results

* `Retarget.Outline.Describes.spelled_tree` — the layout of compiled code spells it, and the helpers
  in it are those that are reported.
* `Retarget.Outline.KeepsNames.wellNamed_tree` — the names in it are well placed.
* `Retarget.Stands.wellNamed` — what stands inside of functions sees their parameters.
-/

namespace Retarget

/-- A name is among names that one is added to where it is that one or was among them. -/
lemma Helper.mem_insert {name n : String} {names : List String} :
    n ∈ Helper.insert name names ↔ n = name ∨ n ∈ names := by
  induction names with
  | nil => simp [Helper.insert]
  | cons m names ih =>
    rw [Helper.insert]
    split_ifs with hless heq
    · simp
    · subst heq
      simp
    · simp only [List.mem_cons, ih]
      tauto

/-- Sorting keeps the helpers. -/
lemma Helper.mem_sorted {name : String} {names : List String} :
    name ∈ Helper.sorted names ↔ name ∈ names := by
  induction names with
  | nil => simp [Helper.sorted]
  | cons n names ih =>
    rw [List.mem_cons, ← ih]
    exact Helper.mem_insert

/-! ## Names of lowered forms -/

/-- The names of variables and binders are identifiers. -/
inductive Ir.Named : Ir → Prop
  | literal {value : Literal} {ty : Ty} : Named (.literal value ty)
  | var {name : String} {ty : Ty} : IsIdentifier name → Named (.var name ty)
  | letIn {bindings : List (String × Ir)} {body : Ir} {ty : Ty} :
      (∀ b ∈ bindings, IsIdentifier b.1) → (∀ b ∈ bindings, Named b.2) → Named body →
      Named (.letIn bindings body ty)
  | lambda {params : List String} {body : Ir} {ty : Ty} : (∀ p ∈ params, IsIdentifier p) →
      Named body → Named (.lambda params body ty)
  | cond {test yes no : Ir} {ty : Ty} : Named test → Named yes → Named no →
      Named (.cond test yes no ty)
  | alternative {candidates : List Ir} {ty : Ty} : (∀ c ∈ candidates, Named c) →
      Named (.alternative candidates ty)
  | call {name : String} {args : List Ir} {argTypes : List Ty} {ty : Ty} :
      (∀ a ∈ args, Named a) → Named (.call name args argTypes ty)

/-- The names of a lexical form are identifiers. -/
lemma Ir.Lexical.named {ir : Ir} (h : ir.Lexical) : ir.Named := by
  induction h with
  | literal => exact .literal
  | var hname => exact .var hname
  | letIn hnames _ _ ihvalues ihbody => exact .letIn hnames ihvalues ihbody
  | lambda hparams _ ih => exact .lambda hparams ih
  | cond _ _ _ ihtest ihyes ihno => exact .cond ihtest ihyes ihno
  | alternative _ ih => exact .alternative ih
  | call _ ih => exact .call ih

/-- The name of the input is spelled like a name. -/
lemma isIdentifier_inputName : IsIdentifier inputName :=
  ⟨'_', [], rfl, by decide, List.forall_mem_nil _⟩

/-! ## Outlines -/

/-- How a target with functions lays out code. -/
structure Outline where
  /-- A variable of the lowered form as it is written. -/
  spell : String → String
  /-- The helpers that code may call. -/
  isHelper : String → Bool
  /-- The names that the target's own text may hold. -/
  own : String → Bool
  literal : Literal → Layout
  /-- One binding: a name, what is in its scope, and its value. -/
  bound : String → List Scrap → List Scrap → List Scrap
  lambda : List String → List Scrap → Layout
  conditional : Layout → Layout → Layout → Layout
  alternative : List Layout → Layout
  call : String → List Ty → List (Ir × Layout) → Layout
  /-- Code as a unit of its own that takes the input. -/
  unit : List Scrap → List Scrap

namespace Outline

mutual

/-- The layout of a lowered form in the scope of the given names, innermost first. -/
def layout (o : Outline) (scope : List String) : Ir → Layout
  | .literal value _ => o.literal value
  | .var name _ => ⟨[.use name (scope.idxOf? name)], none⟩
  | .letIn bindings body _ =>
    ⟨boundScraps o (fun inner => (o.layout inner body).scraps) scope bindings, none⟩
  | .lambda params body _ => o.lambda params (o.layout (params.reverse ++ scope) body).scraps
  | .cond test yes no _ =>
    o.conditional (o.layout scope test) (o.layout scope yes) (o.layout scope no)
  | .alternative candidates _ => o.alternative (layouts o scope candidates)
  | .call name args argTypes _ => o.call name argTypes (args.zip (layouts o scope args))

/-- The layouts of a row of lowered forms. -/
def layouts (o : Outline) (scope : List String) : List Ir → List Layout
  | [] => []
  | ir :: irs => o.layout scope ir :: layouts o scope irs

/-- Bindings around a body. Each value sees the names that are bound before it. -/
def boundScraps (o : Outline) (body : List String → List Scrap) (scope : List String) :
    List (String × Ir) → List Scrap
  | [] => body scope
  | (name, value) :: rest =>
    o.bound name (boundScraps o body (name :: scope) rest) (o.layout scope value).scraps

end

/-- A row of lowered forms is laid out one by one. -/
lemma layouts_eq_map (o : Outline) (scope : List String) (irs : List Ir) :
    layouts o scope irs = irs.map (o.layout scope) := by
  induction irs with
  | nil => rfl
  | cons ir irs ih => exact congrArg _ ih

/-- The layout of compiled code. -/
def tree (o : Outline) (form : OutputForm) (ir : Ir) : List Scrap :=
  match form with
  | .fragment => (o.layout [] ir).scraps
  | .executable => o.unit (o.layout [inputName] ir).scraps

/-! ## The outline of a target -/

/-- The layout spells what is written for the argument. -/
abbrev Lays (o : Outline) : Operand → Layout → Prop := Operand.Laid o.spell o.isHelper

/-- The outline lays out what the target writes, and keeps names in their scopes. -/
structure Describes (o : Outline) (t : Target) : Prop where
  variableCode (name : String) : t.variableCode name = .atom (o.spell name)
  literal {value : Literal} {fragment : Fragment} {helpers : List String} :
    (t.literal value).Produces fragment helpers →
      (o.literal value).Spells o.spell o.isHelper fragment helpers
  letIn_nil {body : Operand} {fragment : Fragment} {helpers : List String} :
    (t.letIn [] body).Produces fragment helpers →
      ∃ code, body.code.Produces code helpers ∧ fragment = .atom code
  letIn_cons {name : String} {value body : Operand} {rest : List (String × Operand)}
    {fragment : Fragment} {helpers : List String} :
    (t.letIn ((name, value) :: rest) body).Produces fragment helpers →
      ∃ inner before code after, (t.letIn rest body).Produces inner before ∧
        value.code.Produces code after ∧ fragment.op = none ∧ ∀ {scraps values : List Scrap},
          Spelled o.spell o.isHelper scraps inner.code before →
          Spelled o.spell o.isHelper values code after →
          Spelled o.spell o.isHelper (o.bound name scraps values) fragment.code helpers
  lambda {params : List String} {body : Operand} {l : Layout} {fragment : Fragment}
    {helpers : List String} : o.Lays body l →
    (t.lambda params body).Produces fragment helpers →
      (o.lambda params l.scraps).Spells o.spell o.isHelper fragment helpers
  conditional {test yes no : Operand} {a b c : Layout} {ty : Ty} {fragment : Fragment}
    {helpers : List String} : o.Lays test a → o.Lays yes b → o.Lays no c →
    (t.conditional test yes no ty).Produces fragment helpers →
      (o.conditional a b c).Spells o.spell o.isHelper fragment helpers
  alternative {candidates : List Operand} {ls : List Layout} {ty : Ty} {fragment : Fragment}
    {helpers : List String} : List.Forall₂ o.Lays candidates ls →
    (t.alternative candidates ty).Produces fragment helpers →
      (o.alternative ls).Spells o.spell o.isHelper fragment helpers
  call (site : Site) {args : List (Ir × Layout)} {fragment : Fragment} {helpers : List String} :
    List.Forall₂ (fun x a => x.ir = a.1 ∧ o.Lays x a.2) site.operands args →
    (t.call site).Produces fragment helpers →
      (o.call site.name site.argTypes args).Spells o.spell o.isHelper fragment helpers
  executable {code : String} {scraps : List Scrap} {helpers : List String} :
    Spelled o.spell o.isHelper scraps code helpers →
      Spelled o.spell o.isHelper (o.unit scraps) (t.executable code) helpers

/-- Every construct of the outline keeps names in their scopes, and adds only names of its own. -/
structure KeepsNames (o : Outline) : Prop where
  literal (value : Literal) (scope : List String) : (o.literal value).WellNamed o.own scope
  bound {name : String} {scope : List String} {body value : List Scrap} : IsIdentifier name →
    AllWellNamed o.own (name :: scope) body → AllWellNamed o.own scope value →
      AllWellNamed o.own scope (o.bound name body value)
  lambda {params scope : List String} {body : List Scrap} : (∀ p ∈ params, IsIdentifier p) →
    AllWellNamed o.own (params.reverse ++ scope) body →
      (o.lambda params body).WellNamed o.own scope
  conditional {a b c : Layout} {scope : List String} : a.WellNamed o.own scope →
    b.WellNamed o.own scope → c.WellNamed o.own scope →
      (o.conditional a b c).WellNamed o.own scope
  alternative {ls : List Layout} {scope : List String} : (∀ l ∈ ls, l.WellNamed o.own scope) →
      (o.alternative ls).WellNamed o.own scope
  call {name : String} {types : List Ty} {args : List (Ir × Layout)} {scope : List String} :
    (∀ a ∈ args, a.2.WellNamed o.own scope) → (o.call name types args).WellNamed o.own scope
  unit {scraps : List Scrap} : AllWellNamed o.own [inputName] scraps →
    AllWellNamed o.own [] (o.unit scraps)

variable {o : Outline} {t : Target}

namespace Describes

/-- Where no name is bound, a variable is its spelling. -/
lemma produces_var (h : o.Describes t) (name : String) (ty : Ty) {fragment : Fragment}
    {helpers : List String} (hwritten : (t.fragment (.var name ty)).Produces fragment helpers) :
    fragment = .atom (o.spell name) := by
  have hcode : (t.fragment (.var name ty)) [] = ⟨.ok (t.variableCode name), []⟩ := rfl
  rw [Emit.Produces, hcode, h.variableCode] at hwritten
  cases hwritten
  rfl

/-- Bindings are laid out where their values and the body are, in every scope. -/
lemma spelled_bound (h : o.Describes t) {bindings : List (String × Ir)} {body : Ir}
    (hvalues : ∀ b ∈ bindings, ∀ scope, o.Lays (t.operand b.2) (o.layout scope b.2))
    (hbody : ∀ scope, o.Lays (t.operand body) (o.layout scope body)) (scope : List String)
    {fragment : Fragment} {helpers : List String}
    (hwritten : (t.letIn (Target.boundOperands t bindings) (t.operand body)).Produces fragment
      helpers) :
    Spelled o.spell o.isHelper
        (boundScraps o (fun inner => (o.layout inner body).scraps) scope bindings)
        fragment.code helpers ∧ fragment.op = none := by
  induction bindings generalizing scope fragment helpers with
  | nil =>
    obtain ⟨code, hcode, rfl⟩ := h.letIn_nil hwritten
    exact ⟨(hbody scope).code hcode, rfl⟩
  | cons b rest ih =>
    obtain ⟨hvalue, hrest⟩ := List.forall_mem_cons.mp hvalues
    obtain ⟨inner, before, code, after, hinner, hcode, hop, hspelled⟩ := h.letIn_cons hwritten
    exact ⟨hspelled (ih hrest (b.1 :: scope) hinner).1 ((hvalue scope).code hcode), hop⟩

/-- A row of lowered forms is laid out one by one. -/
lemma lays_all {irs : List Ir} {scope : List String}
    (h : ∀ ir ∈ irs, o.Lays (t.operand ir) (o.layout scope ir)) :
    List.Forall₂ o.Lays (Target.operands t irs) (layouts o scope irs) := by
  rw [Target.operands_eq_map, layouts_eq_map]
  exact List.forall₂_map_left_iff.mpr
    (List.forall₂_map_right_iff.mpr (List.forall₂_same.mpr h))

/-- The layout of a lowered form spells its code, whatever the scope.

**Proof sketch.** Induction over the lowered form: each construct is laid out by what the outline
says of it, and bindings one inside of the other. -/
theorem lays (h : o.Describes t) {ir : Ir} (hnamed : ir.Named) (scope : List String) :
    o.Lays (t.operand ir) (o.layout scope ir) := by
  induction hnamed generalizing scope with
  | literal => exact fun fragment helpers hwritten => h.literal hwritten
  | @var name ty _ =>
    intro fragment helpers hwritten
    obtain rfl := h.produces_var name ty hwritten
    exact ⟨⟨by simp [layout, scrapsCode, Scrap.code, Fragment.atom],
      by simp [layout, scrapsFixedNames, Scrap.fixedNames]⟩, rfl⟩
  | letIn _ _ _ ihvalues ihbody =>
    intro fragment helpers hwritten
    obtain ⟨hspelled, hop⟩ := h.spelled_bound ihvalues ihbody scope hwritten
    exact ⟨hspelled, hop.symm⟩
  | lambda _ _ ih => exact fun fragment helpers hwritten => h.lambda (ih _) hwritten
  | cond _ _ _ ihtest ihyes ihno =>
    intro fragment helpers hwritten
    exact h.conditional (ihtest scope) (ihyes scope) (ihno scope) hwritten
  | alternative _ ih =>
    intro fragment helpers hwritten
    exact h.alternative (lays_all fun ir hir => ih ir hir scope) hwritten
  | @call name args argTypes ty _ ih =>
    intro fragment helpers hwritten
    have hargs : List.Forall₂ (fun x (a : Ir × Layout) => x.ir = a.1 ∧ o.Lays x a.2)
        (Target.operands t args) (args.zip (layouts o scope args)) := by
      rw [Target.operands_eq_map, layouts_eq_map, ← List.map_prod_left_eq_zip]
      exact List.forall₂_map_left_iff.mpr (List.forall₂_map_right_iff.mpr
        (List.forall₂_same.mpr fun ir hir => ⟨rfl, ih ir hir scope⟩))
    exact h.call ⟨name, Target.operands t args, argTypes, ty⟩ hargs hwritten

end Describes

/-! ## Compiled code -/

/-- The layout of compiled code spells it, and the helpers in it are reported. -/
theorem Describes.spelled_tree (h : o.Describes t) {ir : Ir} (hnamed : ir.Named)
    {form : OutputForm} {out : Compiled} (hcompile : t.compile form ir = .ok out) :
    Spelled o.spell o.isHelper (o.tree form ir) out.code out.helpers := by
  unfold Target.compile at hcompile
  rcases hwritten : t.fragment ir [] with ⟨_ | fragment, helpers⟩
  · simp [hwritten] at hcompile
  · have hspelled (scope : List String) := (h.lays hnamed scope fragment helpers hwritten).spelled
    simp only [hwritten, Except.ok.injEq] at hcompile
    subst hcompile
    cases form with
    | fragment => exact (hspelled []).mono fun name => Helper.mem_sorted.mpr
    | executable =>
      exact (h.executable (hspelled [inputName])).mono fun name => Helper.mem_sorted.mpr

namespace KeepsNames

/-- Bindings keep names in their scopes. -/
lemma wellNamed_bound (h : o.KeepsNames) {bindings : List (String × Ir)} {body : Ir}
    (hnames : ∀ b ∈ bindings, IsIdentifier b.1)
    (hvalues : ∀ b ∈ bindings, ∀ scope, (o.layout scope b.2).WellNamed o.own scope)
    (hbody : ∀ scope, (o.layout scope body).WellNamed o.own scope) (scope : List String) :
    AllWellNamed o.own scope
      (boundScraps o (fun inner => (o.layout inner body).scraps) scope bindings) := by
  induction bindings generalizing scope with
  | nil => exact hbody scope
  | cons b rest ih =>
    obtain ⟨hname, hmore⟩ := List.forall_mem_cons.mp hnames
    obtain ⟨hvalue, hrest⟩ := List.forall_mem_cons.mp hvalues
    exact h.bound hname (ih hmore hrest (b.1 :: scope)) (hvalue scope)

/-- Every name in the layout of a lowered form is well placed. -/
theorem wellNamed_layout (h : o.KeepsNames) {ir : Ir} (hnamed : ir.Named) (scope : List String) :
    (o.layout scope ir).WellNamed o.own scope := by
  induction hnamed generalizing scope with
  | literal => exact h.literal _ scope
  | var hname => exact allWellNamed_cons.mpr ⟨.use hname, allWellNamed_nil⟩
  | letIn hnames _ _ ihvalues ihbody => exact h.wellNamed_bound hnames ihvalues ihbody scope
  | lambda hparams _ ih => exact h.lambda hparams (ih _)
  | cond _ _ _ ihtest ihyes ihno =>
    exact h.conditional (ihtest scope) (ihyes scope) (ihno scope)
  | alternative _ ih =>
    refine h.alternative fun l hl => ?_
    rw [layouts_eq_map] at hl
    obtain ⟨ir, hir, rfl⟩ := List.mem_map.mp hl
    exact ih ir hir scope
  | call _ ih =>
    refine h.call fun a ha => ?_
    rw [layouts_eq_map, ← List.map_prod_left_eq_zip] at ha
    obtain ⟨ir, hir, rfl⟩ := List.mem_map.mp ha
    exact ih ir hir scope

/-- Every name in the layout of compiled code is well placed. -/
theorem wellNamed_tree (h : o.KeepsNames) {ir : Ir} (hnamed : ir.Named) (form : OutputForm) :
    AllWellNamed o.own [] (o.tree form ir) := by
  cases form with
  | fragment => exact h.wellNamed_layout hnamed []
  | executable => exact h.unit (h.wellNamed_layout hnamed [inputName])

end KeepsNames

end Outline

/-! ## Calls -/

/-- A call that is written has a form. -/
lemma Registry.exists_of_produces_call {ε : Type} {r : Registry ε}
    {emit : ε → Site → Emit Fragment} {site : Site} {fragment : Fragment} {helpers : List String}
    (h : (r.call emit site).Produces fragment helpers) :
    ∃ form, r.lookup site.name site.tags = .ok form ∧
      (emit form site).Produces fragment helpers := by
  unfold Registry.call at h
  split at h
  · exact ⟨_, ‹_›, h⟩
  · exact (Emit.produces_fail.mp h).elim

/-- The argument at a place as it was before it was laid out, and a null where there is none. -/
def irAt (args : List (Ir × Layout)) (i : Nat) : Ir := (args.getD i (.ofLiteral .null, ⟨[], none⟩)).1

section Calls

variable {o : Outline} {site : Site} {args : List (Ir × Layout)}

/-- The layouts of arguments spell what is written for them. -/
lemma Outline.lays_arguments
    (h : List.Forall₂ (fun x (a : Ir × Layout) => x.ir = a.1 ∧ o.Lays x a.2) site.operands args) :
    List.Forall₂ o.Lays site.operands (args.map Prod.snd) :=
  List.forall₂_map_right_iff.mpr (h.imp fun _ _ hboth => hboth.2)

/-- The argument at a place is the one that was laid out there. -/
lemma Outline.ir_operand
    (h : List.Forall₂ (fun x (a : Ir × Layout) => x.ir = a.1 ∧ o.Lays x a.2) site.operands args)
    (i : Nat) : (site.operand i).ir = irAt args i := by
  unfold Site.operand irAt
  generalize site.operands = os at h
  induction h generalizing i with
  | nil => rfl
  | cons hfirst _ ih =>
    cases i with
    | zero => exact hfirst.1
    | succ i => exact ih i

end Calls

/-! ## Where pieces stand -/

/-- The piece stands in a row of pieces, inside of functions with the given parameters, innermost
first. -/
inductive Stands (piece : Scrap) : List String → List Scrap → Prop
  | here {row : List Scrap} : piece ∈ row → Stands piece [] row
  | inside {row body : List Scrap} {opening middle closing : String}
      {params context : List String} :
      Scrap.function opening params middle body closing ∈ row → Stands piece context body →
      Stands piece (context ++ params.reverse) row

/-- A piece inside of functions sees their parameters. -/
theorem Stands.wellNamed {piece : Scrap} {context : List String} {row : List Scrap}
    (h : Stands piece context row) {own : String → Bool} {scope : List String} (hrow : AllWellNamed own scope row) :
    piece.WellNamed own (context ++ scope) := by
  induction h generalizing scope with
  | here hmem => exact hrow piece hmem
  | inside hmem _ ih =>
    cases hrow _ hmem with
    | function _ hbody =>
      rw [List.append_assoc]
      exact ih hbody

/-- The parameters around a piece are identifiers. -/
lemma Stands.isIdentifier {piece : Scrap} {context : List String} {row : List Scrap}
    (h : Stands piece context row) {own : String → Bool} {scope : List String}
    (hrow : AllWellNamed own scope row) : ∀ p ∈ context, IsIdentifier p := by
  induction h generalizing scope with
  | here => exact List.forall_mem_nil _
  | inside hmem _ ih =>
    cases hrow _ hmem with
    | function hparams hbody =>
      refine List.forall_mem_append.mpr ⟨ih hbody, fun p hp => ?_⟩
      exact hparams p (List.mem_reverse.mp hp)

end Retarget
