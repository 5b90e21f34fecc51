import Retarget.Compile
import Retarget.Proofs.Quoting.JavaScript
import Retarget.Proofs.Quoting.Ruby
import Retarget.Proofs.Quoting.Sql
import Retarget.Proofs.Typing

set_option autoImplicit false

/-!
# Occurrences in compiled code

A node of a lowered form stands at a place that a target writes, unless a call drops an argument on
the way to it. In SQL a bound value stands at the uses of its name. What a construct writes stands in
its code outside of constants, each part apart from the others.

## Main definitions

* `Retarget.TargetKind.quoting` — the rules of a target for quoted constants.
* `Retarget.Ir.parts` — the parts of a lowered form.
* `Retarget.TargetKind.Occurs` — a node stands at a place that the target writes.
* `Retarget.TargetKind.Bound` — names stand for the codes of their values.

## Main results

* `Retarget.TargetKind.writes_arguments` — a call writes the arguments that it does not drop.
* `Retarget.TargetKind.exists_within_of_compile` — the code of the lowered form stands in the compiled
  code.
-/

namespace Retarget

open Quoting

/-- Some scope gives the lowered form its types. -/
def Ir.IsTyped (ir : Ir) : Prop := ∃ scope recovered, ir.Typed scope recovered

/-! ## Parts -/

/-- The parts of a lowered form. -/
def Ir.parts : Ir → List Ir
  | .literal _ _ | .var _ _ => []
  | .letIn bindings body _ => bindings.map Prod.snd ++ [body]
  | .lambda _ body _ => [body]
  | .cond test yes no _ => [test, yes, no]
  | .alternative candidates _ => candidates
  | .call _ args _ _ => args

/-- The parts of a lexical form are lexical. -/
lemma Ir.Lexical.part {ir part : Ir} (h : ir.Lexical) (hpart : part ∈ ir.parts) : part.Lexical := by
  cases h with
  | literal | var => cases hpart
  | letIn _ hvalues hbody =>
    rcases List.mem_append.mp hpart with hvalue | hlast
    · obtain ⟨b, hb, rfl⟩ := List.mem_map.mp hvalue
      exact hvalues b hb
    · exact List.mem_singleton.mp hlast ▸ hbody
  | lambda _ hbody => exact List.mem_singleton.mp hpart ▸ hbody
  | @cond test yes no ty htest hyes hno =>
    have hall : ∀ p ∈ [test, yes, no], p.Lexical := by simp [htest, hyes, hno]
    exact hall part hpart
  | alternative hcandidates => exact hcandidates part hpart
  | call hargs => exact hargs part hpart

/-- The parts of a form with types have types.

**Proof sketch.** By cases on the typing, whose premises type the parts in scopes of their own. In
an alternative the last candidate is typed apart from those before it. -/
lemma Ir.IsTyped.part {ir part : Ir} (h : ir.IsTyped) (hpart : part ∈ ir.parts) : part.IsTyped := by
  obtain ⟨scope, recovered, htyped⟩ := h
  cases htyped with
  | literal | replaced | var => cases hpart
  | letIn hvalues hbody =>
    rcases List.mem_append.mp hpart with hvalue | hlast
    · obtain ⟨b, hb, rfl⟩ := List.mem_map.mp hvalue
      obtain ⟨before, after, heq⟩ := List.append_of_mem hb
      exact ⟨_, false, hvalues before b.1 b.2 after heq⟩
    · exact List.mem_singleton.mp hlast ▸ ⟨_, _, hbody⟩
  | lambda hbody => exact List.mem_singleton.mp hpart ▸ ⟨_, _, hbody⟩
  | cond htest hyes hno =>
    simp only [Ir.parts, List.mem_cons, List.not_mem_nil, or_false] at hpart
    rcases hpart with rfl | rfl | rfl
    · exact ⟨_, _, htest⟩
    · exact ⟨_, _, hyes⟩
    · exact ⟨_, _, hno⟩
  | @alternative _ _ candidates hinit hlast =>
    have hmem : part ∈ candidates := hpart
    have hne := List.ne_nil_of_mem hmem
    rw [← List.dropLast_concat_getLast hne, List.mem_append, List.mem_singleton] at hmem
    rcases hmem with hmem | heq
    · exact ⟨scope, true, hinit part hmem⟩
    · exact ⟨scope, false, hlast part (heq ▸ List.getLast?_eq_some_getLast hne)⟩
  | call hargs => exact ⟨scope, false, hargs part hpart⟩

namespace TargetKind

/-! ## The targets -/

/-- The rules of a target for quoted constants. -/
def quoting : TargetKind → Quoting
  | .ruby => Ruby.quoting
  | .javaScript => JavaScript.quoting
  | .sql => Sql.quoting

/-- Every target reads the constants that it writes. -/
lemma lawful (kind : TargetKind) : kind.quoting.Lawful := by
  cases kind with
  | ruby => exact Ruby.lawful
  | javaScript => exact JavaScript.lawful
  | sql => exact Sql.lawful

/-- Every target makes sealed code of sealed codes. -/
lemma seals (kind : TargetKind) : kind.target.Seals kind.quoting := by
  cases kind with
  | ruby => exact Ruby.seals
  | javaScript => exact JavaScript.seals
  | sql => exact Sql.seals

/-- A call does not write the argument at the place. -/
def drops : TargetKind → String → List Ir → List Ty → Nat → Bool
  | .ruby => Ruby.drops
  | .javaScript => JavaScript.drops
  | .sql => Sql.drops

/-- A conditional or an alternative of the type does not write the branch. -/
def dropsBranch : TargetKind → Ty → Ir → Bool
  | .sql => Sql.dropsBranch
  | _ => fun _ _ => false

/-- The node stands in the lowered form at a place that the target writes. In SQL the names of `env`
stand for their values, each of which sees the names behind it. -/
inductive Occurs (kind : TargetKind) (node : Ir) : List (String × Ir) → Ir → Prop
  | here {env : List (String × Ir)} : Occurs kind node env node
  | arg {env : List (String × Ir)} {name : String} {args : List Ir} {argTypes : List Ty} {ty : Ty}
      {i : Nat} {a : Ir} : args[i]? = some a → kind.drops name args argTypes i = false →
      Occurs kind node env a → Occurs kind node env (.call name args argTypes ty)
  | test {env : List (String × Ir)} {test yes no : Ir} {ty : Ty} :
      Occurs kind node env test → Occurs kind node env (.cond test yes no ty)
  | yes {env : List (String × Ir)} {test yes no : Ir} {ty : Ty} : kind.dropsBranch ty yes = false →
      Occurs kind node env yes → Occurs kind node env (.cond test yes no ty)
  | no {env : List (String × Ir)} {test yes no : Ir} {ty : Ty} : kind.dropsBranch ty no = false →
      Occurs kind node env no → Occurs kind node env (.cond test yes no ty)
  | candidate {env : List (String × Ir)} {candidates : List Ir} {ty : Ty} {c : Ir} :
      c ∈ candidates → kind.dropsBranch ty c = false → Occurs kind node env c →
      Occurs kind node env (.alternative candidates ty)
  | inside {env : List (String × Ir)} {params : List String} {body : Ir} {ty : Ty} :
      Occurs kind node env body → Occurs kind node env (.lambda params body ty)
  | value {env : List (String × Ir)} {bindings : List (String × Ir)} {body : Ir} {ty : Ty}
      {b : String × Ir} : kind ≠ .sql → b ∈ bindings → Occurs kind node env b.2 →
      Occurs kind node env (.letIn bindings body ty)
  | body {env : List (String × Ir)} {bindings : List (String × Ir)} {body : Ir} {ty : Ty} :
      kind ≠ .sql → Occurs kind node env body → Occurs kind node env (.letIn bindings body ty)
  | bind {env : List (String × Ir)} {name : String} {value : Ir} {bindings : List (String × Ir)}
      {body : Ir} {ty : Ty} : kind = .sql →
      Occurs kind node ((name, value) :: env) (.letIn bindings body ty) →
      Occurs kind node env (.letIn ((name, value) :: bindings) body ty)
  | bound {env : List (String × Ir)} {body : Ir} {ty : Ty} : kind = .sql →
      Occurs kind node env body → Occurs kind node env (.letIn [] body ty)
  | use {env : List (String × Ir)} {name : String} {value : Ir} {ty : Ty} :
      Occurs kind node env value → Occurs kind node ((name, value) :: env) (.var name ty)
  | skip {env : List (String × Ir)} {name other : String} {value : Ir} {ty : Ty} : name ≠ other →
      Occurs kind node env (.var name ty) →
      Occurs kind node ((other, value) :: env) (.var name ty)

/-- The names stand for the codes of their values. -/
inductive Bound (kind : TargetKind) : List (String × Ir) → Bindings → Prop
  | nil : Bound kind [] []
  | cons {env : List (String × Ir)} {names : Bindings} {name : String} {value : Ir}
      {fragment : Fragment} : kind = .sql → Bound kind env names → value.Lexical → value.IsTyped →
      (kind.target.fragment value).Succeeds names fragment →
      Bound kind ((name, value) :: env) ((name, Sql.substituted value fragment) :: names)

/-- The code of the lowered form stands in the code, outside of constants. -/
def Shows (kind : TargetKind) (names : Bindings) (ir : Ir) (code : String) : Prop :=
  ∃ fragment, (kind.target.fragment ir).Succeeds names fragment ∧
    kind.quoting.Within fragment.code code

/-! ## What constructs write -/

section Steps

variable {kind : TargetKind} {names : Bindings} {fragment : Fragment}

/-- The code of a lexical form is sealed. -/
lemma sound_operand (hnames : kind.quoting.SealsNames names) {ir : Ir} (h : ir.Lexical) :
    (kind.target.operand ir).Sound kind.quoting names :=
  kind.seals.operand h names hnames

/-- The codes of lexical forms are sealed. -/
lemma sound_operands (hnames : kind.quoting.SealsNames names) {irs : List Ir}
    (h : ∀ ir ∈ irs, ir.Lexical) :
    ∀ o ∈ Target.operands kind.target irs, o.Sound kind.quoting names := by
  intro o ho
  rw [Target.operands_eq_map] at ho
  obtain ⟨ir, hir, rfl⟩ := List.mem_map.mp ho
  exact sound_operand hnames (h ir hir)

/-- The code of an argument that is written stands in the code. -/
lemma shows_of_writes (kind : TargetKind) {os : List Operand} {code : String}
    (h : kind.quoting.Writes names os code) {ir : Ir} (hir : kind.target.operand ir ∈ os) :
    kind.Shows names ir code := by
  obtain ⟨_, ⟨inner, hinner, rfl⟩, hwithin⟩ := h.exists_within hir
  exact ⟨inner, hinner, hwithin⟩

/-- What stands in a code that stands in another stands in that one. -/
lemma Shows.within {ir : Ir} {inner outer : String} (h : kind.Shows names ir inner)
    (hwithin : kind.quoting.Within inner outer) : kind.Shows names ir outer := by
  obtain ⟨fragment, hfragment, hinner⟩ := h
  exact ⟨fragment, hfragment, hinner.trans kind.lawful hwithin⟩

/-- A call writes the arguments at any places that it does not drop. -/
lemma writes_arguments (hnames : kind.quoting.SealsNames names) {name : String} {args : List Ir}
    {argTypes : List Ty} {ty : Ty} (hargs : ∀ a ∈ args, a.Lexical)
    (hlength : argTypes.length = args.length)
    (h : (kind.target.fragment (.call name args argTypes ty)).Succeeds names fragment)
    {places : List Nat} (hnodup : places.Nodup)
    (hplaces : ∀ i ∈ places, i < args.length ∧ kind.drops name args argTypes i = false) :
    kind.quoting.Writes names
      (places.map (Site.operand ⟨name, Target.operands kind.target args, argTypes, ty⟩))
      fragment.code := by
  have hsite := sound_operands hnames hargs
  rw [← Target.length_operands kind.target] at hplaces
  cases kind with
  | ruby =>
    obtain ⟨form, hlookup, hwrites⟩ := Ruby.writes_call hsite h
    exact hwrites.mono (Ruby.lists_written hlookup hlength ty places hnodup hplaces)
  | javaScript =>
    obtain ⟨form, hlookup, hwrites⟩ := JavaScript.writes_call hsite h
    exact hwrites.mono (JavaScript.lists_written hlookup hlength ty places hnodup hplaces)
  | sql =>
    obtain ⟨form, hlookup, hwrites⟩ := Sql.writes_call hsite h
    exact hwrites.mono (Sql.lists_written hlookup hlength ty places hnodup hplaces)

/-- The argument of a lowered call at a place. -/
lemma operand_getElem (kind : TargetKind) (name : String) {args : List Ir} (argTypes : List Ty)
    (ty : Ty) {i : Nat} {a : Ir} (ha : args[i]? = some a) :
    Site.operand ⟨name, Target.operands kind.target args, argTypes, ty⟩ i =
      kind.target.operand a :=
  Site.operand_eq (kind.target.getElem?_operands ha)

/-- An argument that a call does not drop shows in its code. -/
lemma shows_arg (hnames : kind.quoting.SealsNames names) {name : String} {args : List Ir}
    {argTypes : List Ty} {ty : Ty} (hargs : ∀ a ∈ args, a.Lexical)
    (hlength : argTypes.length = args.length) {i : Nat} {a : Ir} (ha : args[i]? = some a)
    (hdrops : kind.drops name args argTypes i = false)
    (h : (kind.target.fragment (.call name args argTypes ty)).Succeeds names fragment) :
    kind.Shows names a fragment.code := by
  have hi : i < args.length := (List.getElem?_eq_some_iff.mp ha).1
  have hwrites := writes_arguments hnames hargs hlength h (List.nodup_singleton i)
    (List.forall_mem_singleton.mpr ⟨hi, hdrops⟩)
  refine shows_of_writes kind hwrites ?_
  rw [List.map_singleton, operand_getElem kind name argTypes ty ha]
  exact List.mem_singleton_self _

/-- The branch of a conditional or an alternative of the type, where it is written. -/
def branch (kind : TargetKind) (ty : Ty) (ir : Ir) : List Operand :=
  if kind.dropsBranch ty ir then [] else [kind.target.operand ir]

/-- SQL writes a branch unless it drops it. -/
lemma branched_operand (ty : Ty) (ir : Ir) :
    Sql.branched ty (TargetKind.sql.target.operand ir) = TargetKind.sql.branch ty ir := by
  have hdrops : TargetKind.sql.dropsBranch ty ir = (ty.isAny && ir.ty.isNull) := rfl
  unfold Sql.branched Sql.converted branch
  rw [hdrops]
  cases ty.isAny <;> cases hnull : ir.ty.isNull <;> simp [Target.operand, hnull]

/-- A conditional writes its condition, and its branches unless they are dropped. -/
lemma writes_cond (hnames : kind.quoting.SealsNames names) {test yes no : Ir} {ty : Ty}
    (htest : test.Lexical) (hyes : yes.Lexical) (hno : no.Lexical)
    (h : (kind.target.fragment (.cond test yes no ty)).Succeeds names fragment) :
    kind.quoting.Writes names
      (kind.target.operand test :: (kind.branch ty yes ++ kind.branch ty no)) fragment.code := by
  have htest := sound_operand hnames htest
  have hyes := sound_operand hnames hyes
  have hno := sound_operand hnames hno
  cases kind with
  | ruby => exact Ruby.writes_conditional htest hyes hno h
  | javaScript => exact JavaScript.writes_conditional htest hyes hno h
  | sql =>
    rw [← branched_operand, ← branched_operand]
    exact Sql.writes_conditional htest hyes hno h

/-- An alternative writes its candidates unless they are dropped. -/
lemma writes_alternative (hnames : kind.quoting.SealsNames names) {candidates : List Ir} {ty : Ty}
    (hcandidates : ∀ c ∈ candidates, c.Lexical)
    (h : (kind.target.fragment (.alternative candidates ty)).Succeeds names fragment) :
    kind.quoting.Writes names (candidates.flatMap (kind.branch ty)) fragment.code := by
  have hsound := sound_operands hnames hcandidates
  have hall (hbranch : ∀ c, kind.branch ty c = [kind.target.operand c]) :
      candidates.flatMap (kind.branch ty) = Target.operands kind.target candidates := by
    rw [funext hbranch, Target.operands_eq_map, List.map_eq_flatMap]
  cases kind with
  | ruby =>
    rw [hall fun _ => rfl]
    exact Ruby.writes_alternative hsound h
  | javaScript =>
    rw [hall fun _ => rfl]
    exact JavaScript.writes_alternative hsound h
  | sql =>
    have hwrites := Sql.writes_alternative hsound h
    rw [Target.operands_eq_map, List.flatMap_map] at hwrites
    simp only [branched_operand] at hwrites
    exact hwrites

/-- A candidate that is not dropped shows in the code of the alternative. -/
lemma shows_candidate (hnames : kind.quoting.SealsNames names) {candidates : List Ir} {ty : Ty}
    (hcandidates : ∀ c ∈ candidates, c.Lexical) {c : Ir} (hc : c ∈ candidates)
    (hdrops : kind.dropsBranch ty c = false)
    (h : (kind.target.fragment (.alternative candidates ty)).Succeeds names fragment) :
    kind.Shows names c fragment.code := by
  refine shows_of_writes kind (writes_alternative hnames hcandidates h) ?_
  exact List.mem_flatMap.mpr ⟨c, hc, by simp [branch, hdrops]⟩

/-- A function writes its body. -/
lemma writes_lambda (hnames : kind.quoting.SealsNames names) {params : List String} {body : Ir}
    {ty : Ty} (hparams : ∀ p ∈ params, IsIdentifier p) (hbody : body.Lexical)
    (h : (kind.target.fragment (.lambda params body ty)).Succeeds names fragment) :
    kind.quoting.Writes names [kind.target.operand body] fragment.code := by
  have hbody := sound_operand hnames hbody
  cases kind with
  | ruby => exact Ruby.writes_lambda hparams hbody h
  | javaScript => exact JavaScript.writes_lambda hparams hbody h
  | sql => exact (Emit.succeeds_fail.mp h).elim

/-- Bindings that are functions write their values and their body.

**Proof sketch.** The values and the body have sealed code, as lexical forms do, and the code of the
bindings is put together from theirs in Ruby and JavaScript alike. -/
lemma writes_let (hkind : kind ≠ .sql) (hnames : kind.quoting.SealsNames names)
    {bindings : List (String × Ir)} {body : Ir} {ty : Ty}
    (hidentifiers : ∀ b ∈ bindings, IsIdentifier b.1) (hvalues : ∀ b ∈ bindings, b.2.Lexical)
    (hbody : body.Lexical)
    (h : (kind.target.fragment (.letIn bindings body ty)).Succeeds names fragment) :
    kind.quoting.Writes names
      (bindings.map (fun b => kind.target.operand b.2) ++ [kind.target.operand body])
      fragment.code := by
  have hbound : ∀ b ∈ Target.boundOperands kind.target bindings,
      IsIdentifier b.1 ∧ b.2.Sound kind.quoting names := by
    intro b hb
    rw [Target.boundOperands_eq_map] at hb
    obtain ⟨p, hp, rfl⟩ := List.mem_map.mp hb
    exact ⟨hidentifiers p hp, sound_operand hnames (hvalues p hp)⟩
  have hoperands : (Target.boundOperands kind.target bindings).map Prod.snd =
      bindings.map fun b => kind.target.operand b.2 := by
    rw [Target.boundOperands_eq_map, List.map_map]
    rfl
  have hbody := sound_operand hnames hbody
  rw [← hoperands]
  cases kind with
  | ruby =>
    exact Ruby.writes_letIn (fun b hb => (hbound b hb).1) (fun b hb => (hbound b hb).2) hbody h
  | javaScript =>
    exact JavaScript.writes_letIn (fun b hb => (hbound b hb).1) (fun b hb => (hbound b hb).2) hbody h
  | sql => exact absurd rfl hkind

/-- In SQL the value of the first binding is written, and then the other bindings where its name
stands for its code. -/
lemma exists_of_bind {name : String} {value : Ir} {bindings : List (String × Ir)} {body : Ir}
    {ty : Ty} (h : (TargetKind.sql.target.fragment (.letIn ((name, value) :: bindings) body
      ty)).Succeeds names fragment) :
    ∃ inner, (TargetKind.sql.target.fragment value).Succeeds names inner ∧
      (TargetKind.sql.target.fragment (.letIn bindings body ty)).Succeeds
        ((name, Sql.substituted value inner) :: names) fragment := by
  change (Sql.bindIn ((name, _) :: _) _).Succeeds names fragment at h
  simp only [Sql.bindIn, Emit.succeeds_bind, Emit.succeeds_binding] at h
  exact h

/-- A name that is bound is written as what it stands for. -/
lemma fragment_var {name : String} {ty : Ty} :
    (kind.target.fragment (.var name ty)).Succeeds names fragment ↔
      (names.lookup name).getD (kind.target.variableCode name) = fragment := by
  simp only [Target.fragment, Emit.succeeds_bind, Emit.succeeds_lookup, Emit.succeeds_pure,
    exists_eq_left']

end Steps

/-- Names that stand for codes of their values stand for sealed codes. -/
lemma Bound.sealsNames {kind : TargetKind} {env : List (String × Ir)} {names : Bindings}
    (h : kind.Bound env names) : kind.quoting.SealsNames names := by
  induction h with
  | nil => exact List.forall_mem_nil _
  | cons hkind _ hlexical _ hfragment ih =>
    subst hkind
    exact Sql.SealsNames.cons ih (sound_operand ih hlexical _ hfragment)

/-- The values of the names determine the codes that the names stand for. -/
lemma Bound.unique {kind : TargetKind} {env : List (String × Ir)} {names names' : Bindings}
    (h : kind.Bound env names) (h' : kind.Bound env names') : names = names' := by
  induction h generalizing names' with
  | nil =>
    cases h'
    rfl
  | cons _ _ _ _ hfragment ih =>
    cases h' with
    | cons _ hrest _ _ hfragment' =>
      obtain rfl := ih hrest
      rw [Except.ok.inj (hfragment.symm.trans hfragment')]

/-! ## Compiled code -/

/-- The output form of a target is a frame around the code. -/
lemma executable_eq (kind : TargetKind) : ∃ opening closing, frames opening closing = true ∧
    ∀ code, kind.target.executable code = opening ++ code ++ closing := by
  cases kind with
  | ruby => exact ⟨"->(_) \x7b ", " \x7d", by decide, fun _ => rfl⟩
  | javaScript => exact ⟨"(function(_) \x7b return ", "; \x7d)", by decide, fun _ => rfl⟩
  | sql => exact ⟨"SELECT ", " AS result", by decide, fun _ => rfl⟩

section Compiled

variable {kind : TargetKind} {form : OutputForm} {source : String} {ir : Ir} {out : Compiled}

/-- The lowered form of a source has its types. -/
lemma isTyped_of_lowerSource (h : lowerSource source = .ok ir) : ir.IsTyped := by
  unfold lowerSource at h
  split at h
  · cases h
  · rename_i e _
    cases htransform : transform e with
    | error failure =>
      rw [htransform] at h
      cases h
    | ok lowered =>
      rw [htransform] at h
      cases h
      exact ⟨_, _, typed_of_lower e htransform⟩

/-- A code that stands in the code of the lowered form stands in the compiled code.

**Proof sketch.** The code of a fragment is that of the form. An executable is a function around it,
whose text before and behind it is balanced (`executable_eq`). -/
lemma exists_within_of_compile (hsource : lowerSource source = .ok ir)
    (hcompile : compile source kind form = .ok out) :
    ∃ fragment, (kind.target.fragment ir).Succeeds [] fragment ∧
      kind.quoting.Within fragment.code out.code := by
  simp only [compile, hsource, Target.compile] at hcompile
  split at hcompile
  · cases hcompile
  · rename_i fragment helpers heq
    have hfragment : (kind.target.fragment ir).Succeeds [] fragment := by
      rw [Emit.Succeeds, heq]
    have hnames : kind.quoting.SealsNames [] := List.forall_mem_nil _
    have hsound := sound_operand hnames (lexical_of_lowerSource hsource)
    refine ⟨fragment, hfragment, ?_⟩
    cases hcompile
    cases form with
    | fragment => exact (hsound fragment hfragment).within
    | executable =>
      obtain ⟨opening, closing, hframes, hexecutable⟩ := kind.executable_eq
      have hwrites := (hsound.writes hfragment).enclosed opening closing hframes
      rw [← hexecutable] at hwrites
      obtain ⟨_, ⟨inner, hinner, rfl⟩, hwithin⟩ := hwrites.exists_within List.mem_cons_self
      have hsame : inner = fragment := Except.ok.inj (hinner.symm.trans hfragment)
      exact hsame ▸ hwithin

end Compiled

end TargetKind

end Retarget
