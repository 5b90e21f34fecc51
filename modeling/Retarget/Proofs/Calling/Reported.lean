import Retarget.Proofs.Calling.JavaScript
import Retarget.Proofs.Calling.Ruby
import Retarget.Proofs.Calling.Sql
import Retarget.Proofs.Quoting.Occurrence

set_option autoImplicit false

/-!
# Reported helpers

Compiled code comes with the helpers that were noted while it was written. Which helpers are noted
and which ones the code calls both follow from the lowered form. The two agree but for the bindings of
SQL: there a value is written once, and its helpers are noted, while its code stands wherever the name
is used, which may be nowhere.

## Main definitions

* `Retarget.Ir.Avoids` — no name of the lowered form is spelled like a helper.
* `Retarget.TargetKind.Notes`, `Retarget.TargetKind.Calls` — the helpers that are noted for a lowered
  form, and those that its code calls.

## Main results

* `Retarget.TargetKind.accounts_compile` — compiled code calls and reports just these.
* `Retarget.TargetKind.called_reported` — every helper that the code calls is reported, and all that
  are reported are in the catalogue.
* `Retarget.TargetKind.reported_called` — every helper that is reported is called, but for the values
  of bindings in SQL whose names are not used.
-/

namespace Retarget

open Quoting

/-- The names of variables and binders are identifiers, and neither they nor the keys of member reads
are among the given names. -/
inductive Ir.Avoids (avoided : List String) : Ir → Prop
  | literal {value : Literal} {ty : Ty} : Avoids avoided (.literal value ty)
  | var {name : String} {ty : Ty} : IsIdentifier name → name ∉ avoided →
      Avoids avoided (.var name ty)
  | letIn {bindings : List (String × Ir)} {body : Ir} {ty : Ty} :
      (∀ b ∈ bindings, IsIdentifier b.1 ∧ b.1 ∉ avoided) → (∀ b ∈ bindings, Avoids avoided b.2) →
      Avoids avoided body → Avoids avoided (.letIn bindings body ty)
  | lambda {params : List String} {body : Ir} {ty : Ty} :
      (∀ p ∈ params, IsIdentifier p ∧ p ∉ avoided) → Avoids avoided body →
      Avoids avoided (.lambda params body ty)
  | cond {test yes no : Ir} {ty : Ty} : Avoids avoided test → Avoids avoided yes →
      Avoids avoided no → Avoids avoided (.cond test yes no ty)
  | alternative {candidates : List Ir} {ty : Ty} : (∀ c ∈ candidates, Avoids avoided c) →
      Avoids avoided (.alternative candidates ty)
  | call {name : String} {args : List Ir} {argTypes : List Ty} {ty : Ty} :
      (name = "field" → ∀ key, args[1]?.bind Ir.string? = some key → key ∉ avoided) →
      (∀ a ∈ args, Avoids avoided a) → Avoids avoided (.call name args argTypes ty)

/-- Where there is nothing to avoid, the names need only be identifiers. -/
lemma Ir.Named.avoids {ir : Ir} (h : ir.Named) : ir.Avoids [] := by
  induction h with
  | literal => exact .literal
  | var hname => exact .var hname List.not_mem_nil
  | letIn hnames _ _ ihvalues ihbody =>
    exact .letIn (fun b hb => ⟨hnames b hb, List.not_mem_nil⟩) ihvalues ihbody
  | lambda hparams _ ih => exact .lambda (fun p hp => ⟨hparams p hp, List.not_mem_nil⟩) ih
  | cond _ _ _ ihtest ihyes ihno => exact .cond ihtest ihyes ihno
  | alternative _ ih => exact .alternative ih
  | call _ ih => exact .call (fun _ _ _ => List.not_mem_nil) ih

namespace TargetKind

/-! ## Parts of lowered forms -/

/-- What a call is made of. -/
def callShares : TargetKind → Site → List Share
  | .ruby => Ruby.callShares
  | .javaScript => JavaScript.callShares
  | .sql => Sql.callShares

/-- What the code of a node is made of, but for variables and the bindings of SQL. -/
def shares (kind : TargetKind) : Ir → List Share
  | .literal value _ =>
    match kind with
    | .javaScript => (JavaScript.literalHelpers value).map .helper
    | _ => []
  | .var _ _ => []
  | .letIn bindings body _ =>
    match kind with
    | .sql => []
    | _ => (kind.target.operand body :: bindings.map fun b => kind.target.operand b.2).map .operand
  | .lambda _ body _ => [.operand (kind.target.operand body)]
  | .cond test yes no ty =>
    let yes := kind.target.operand yes
    let no := kind.target.operand no
    match kind with
    | .sql =>
      (kind.target.operand test :: (Sql.branched ty yes ++ Sql.branched ty no)).map .operand
    | _ => [kind.target.operand test, yes, no].map .operand
  | .alternative candidates ty =>
    let os := Target.operands kind.target candidates
    match kind with
    | .ruby => .helper (Helper.snake "alt") :: os.map .operand
    | .javaScript => .helper (Helper.camel "alt") :: os.map .operand
    | .sql => .helper (Helper.snake "fail") :: (os.flatMap (Sql.branched ty)).map .operand
  | .call name args argTypes ty =>
    kind.callShares ⟨name, Target.operands kind.target args, argTypes, ty⟩

/-- The helper is noted when the lowered form is written. -/
inductive Notes (kind : TargetKind) (helper : String) : Ir → Prop
  | own {ir : Ir} : .helper helper ∈ kind.shares ir → Notes kind helper ir
  | part {ir : Ir} {o : Operand} : .operand o ∈ kind.shares ir → Notes kind helper o.ir →
      Notes kind helper ir
  | value {bindings : List (String × Ir)} {body : Ir} {ty : Ty} {b : String × Ir} : kind = .sql →
      b ∈ bindings → Notes kind helper b.2 → Notes kind helper (.letIn bindings body ty)
  | body {bindings : List (String × Ir)} {body : Ir} {ty : Ty} : kind = .sql →
      Notes kind helper body → Notes kind helper (.letIn bindings body ty)

/-- The code of the lowered form calls the helper. In SQL the names of `env` stand for their values,
each of which sees the names behind it. -/
inductive Calls (kind : TargetKind) (helper : String) : List (String × Ir) → Ir → Prop
  | own {env : List (String × Ir)} {ir : Ir} : .helper helper ∈ kind.shares ir →
      Calls kind helper env ir
  | part {env : List (String × Ir)} {ir : Ir} {o : Operand} : .operand o ∈ kind.shares ir →
      Calls kind helper env o.ir → Calls kind helper env ir
  | bind {env : List (String × Ir)} {name : String} {value : Ir} {bindings : List (String × Ir)}
      {body : Ir} {ty : Ty} : kind = .sql →
      Calls kind helper ((name, value) :: env) (.letIn bindings body ty) →
      Calls kind helper env (.letIn ((name, value) :: bindings) body ty)
  | bound {env : List (String × Ir)} {body : Ir} {ty : Ty} : kind = .sql →
      Calls kind helper env body → Calls kind helper env (.letIn [] body ty)
  | use {env : List (String × Ir)} {name : String} {value : Ir} {ty : Ty} :
      Calls kind helper env value → Calls kind helper ((name, value) :: env) (.var name ty)
  | skip {env : List (String × Ir)} {name other : String} {value : Ir} {ty : Ty} : name ≠ other →
      Calls kind helper env (.var name ty) →
      Calls kind helper ((other, value) :: env) (.var name ty)

variable {kind : TargetKind} {helper : String} {env : List (String × Ir)} {ir : Ir}

/-- What code calls is noted for it, or for a value that a name stands for.

**Proof sketch.** By induction on how the code calls the helper. A name calls what its value does,
so the second alternative carries the values that are in scope; where a binding ends, the helper of
its value is noted for the binding. -/
lemma Calls.notes (h : kind.Calls helper env ir) :
    kind.Notes helper ir ∨ ∃ b ∈ env, kind.Notes helper b.2 := by
  induction h with
  | own hmem => exact .inl (.own hmem)
  | part hmem _ ih => exact ih.imp_left (.part hmem)
  | bind hkind _ ih =>
    rcases ih with hrest | ⟨b, hb, hnoted⟩
    · cases hrest with
      | own hmem => exact absurd hmem (by simp [shares, hkind])
      | part hmem => exact absurd hmem (by simp [shares, hkind])
      | value _ hb hnoted => exact .inl (.value hkind (List.mem_cons_of_mem _ hb) hnoted)
      | body _ hnoted => exact .inl (.body hkind hnoted)
    · rcases List.mem_cons.mp hb with rfl | hb
      · exact .inl (.value hkind List.mem_cons_self hnoted)
      · exact .inr ⟨b, hb, hnoted⟩
  | bound hkind _ ih => exact ih.imp_left (.body hkind)
  | use _ ih =>
    rcases ih with hvalue | ⟨b, hb, hnoted⟩
    · exact .inr ⟨_, List.mem_cons_self, hvalue⟩
    · exact .inr ⟨b, List.mem_cons_of_mem _ hb, hnoted⟩
  | skip _ _ ih =>
    rcases ih with hvar | ⟨b, hb, hnoted⟩
    · cases hvar with
      | own hmem => cases hmem
      | part hmem => cases hmem
    · exact .inr ⟨b, List.mem_cons_of_mem _ hb, hnoted⟩

/-- Where bindings are functions, what is noted is called. -/
lemma Notes.calls (hkind : kind ≠ .sql) (h : kind.Notes helper ir) : kind.Calls helper env ir := by
  induction h with
  | own hmem => exact .own hmem
  | part hmem _ ih => exact .part hmem ih
  | value hsql => exact absurd hsql hkind
  | body hsql => exact absurd hsql hkind

/-- The helpers that code of the target may call. -/
def helpers (kind : TargetKind) : Catalogue where
  names := kind.catalogue
  marked name hname := by
    cases kind with
    | ruby =>
      rw [catalogue, Ruby.mem_catalogue, List.mem_map] at hname
      obtain ⟨function, -, rfl⟩ := hname
      exact isMarked_snake function
    | javaScript =>
      rw [catalogue, JavaScript.mem_catalogue, List.mem_map] at hname
      obtain ⟨function, -, rfl⟩ := hname
      exact isMarked_camel function
    | sql =>
      rw [catalogue, Sql.mem_catalogue, List.mem_map] at hname
      obtain ⟨function, -, rfl⟩ := hname
      exact isMarked_snake function

/-- A name that does not start like those of helpers is not in the catalogue. -/
lemma not_mem_catalogue {name : String} (h : isMarked name = false) : name ∉ kind.catalogue :=
  @Catalogue.not_mem kind.helpers name h

/-- Every helper that is noted is in the catalogue.

**Proof sketch.** Induction over the derivation. A node notes a helper of its own where it is a
duration in JavaScript, an alternative, or a call in a form of the registry, all of whose helpers
are in the catalogue. -/
lemma Notes.mem_catalogue (h : kind.Notes helper ir) : helper ∈ kind.catalogue := by
  have halt : Helper.snake "alt" ∈ Ruby.catalogue :=
    Ruby.mem_catalogue.mpr (List.mem_map_of_mem (List.mem_append_right _ (by decide)))
  have hthunks : Helper.camel "alt" ∈ JavaScript.catalogue :=
    JavaScript.mem_catalogue.mpr (List.mem_map_of_mem (List.mem_append_right _ (by decide)))
  have hduration : Helper.camel "duration" ∈ JavaScript.catalogue :=
    JavaScript.mem_catalogue.mpr (List.mem_map_of_mem (List.mem_append_right _ (by decide)))
  have hfail : Helper.snake "fail" ∈ Sql.catalogue :=
    Sql.mem_catalogue.mpr (List.mem_map_of_mem (List.mem_append_right _ (by decide)))
  induction h with
  | part _ _ ih => exact ih
  | value _ _ _ ih => exact ih
  | body _ _ ih => exact ih
  | @own ir hmem =>
    cases ir with
    | literal value ty =>
      cases kind with
      | ruby | sql => cases hmem
      | javaScript =>
        cases value <;> simp [shares, JavaScript.literalHelpers] at hmem
        exact hmem ▸ hduration
    | var name ty => cases hmem
    | letIn bindings body ty => cases kind <;> simp [shares] at hmem
    | lambda params body ty => simp [shares] at hmem
    | cond test yes no ty => cases kind <;> simp [shares] at hmem
    | alternative candidates ty =>
      cases kind <;> simp [shares] at hmem
      · exact hmem ▸ halt
      · exact hmem ▸ hthunks
      · exact hmem ▸ hfail
    | call name args argTypes ty =>
      cases kind with
      | ruby => exact Ruby.mem_catalogue_of_callShares hmem
      | javaScript => exact JavaScript.mem_catalogue_of_callShares hmem
      | sql => exact Sql.mem_catalogue_of_callShares hmem

/-! ## Written code -/

/-- What lowered forms call and note, where the names of `env` are bound. -/
def ledger (kind : TargetKind) (cat : Catalogue) (env : List (String × Ir)) :
    Ledger kind.quoting where
  lawful := kind.lawful
  catalogue := cat
  calls o helper := kind.Calls helper env o.ir
  notes o helper := kind.Notes helper o.ir

/-- The names are bound to codes that call what their values do. -/
inductive Bounds (kind : TargetKind) (cat : Catalogue) : List (String × Ir) → Bindings → Prop
  | nil : Bounds kind cat [] []
  | cons {env : List (String × Ir)} {names : Bindings} {name : String} {value : Ir}
      {fragment : Fragment} : Bounds kind cat env names →
      kind.quoting.Tells cat (fun helper => kind.Calls helper env value) fragment.code →
      Bounds kind cat ((name, value) :: env) ((name, fragment) :: names)

/-- The code of the node is made of its shares. -/
def isDirect (kind : TargetKind) : Ir → Bool
  | .var _ _ => false
  | .letIn _ _ _ => kind ≠ .sql
  | _ => true

/-- A node that is made of its shares calls what these call. -/
lemma calls_iff_of_isDirect (hdirect : kind.isDirect ir = true) :
    (∃ s ∈ kind.shares ir, s.Gives (fun o n => kind.Calls n env o.ir) helper) ↔
      kind.Calls helper env ir := by
  constructor
  · rintro ⟨s, hs, hgives⟩
    cases s with
    | helper name =>
      obtain rfl := Share.gives_helper.mp hgives
      exact .own hs
    | operand o => exact .part hs hgives
  · intro h
    cases h with
    | own hmem => exact ⟨_, hmem, rfl⟩
    | part hmem hpart => exact ⟨_, hmem, hpart⟩
    | bind hkind => simp [isDirect, hkind] at hdirect
    | bound hkind => simp [isDirect, hkind] at hdirect
    | use => cases hdirect
    | skip => cases hdirect

/-- A node that is made of its shares notes what these note. -/
lemma notes_iff_of_isDirect (hdirect : kind.isDirect ir = true) :
    (∃ s ∈ kind.shares ir, s.Gives (fun o n => kind.Notes n o.ir) helper) ↔
      kind.Notes helper ir := by
  constructor
  · rintro ⟨s, hs, hgives⟩
    cases s with
    | helper name =>
      obtain rfl := Share.gives_helper.mp hgives
      exact .own hs
    | operand o => exact .part hs hgives
  · intro h
    cases h with
    | own hmem => exact ⟨_, hmem, rfl⟩
    | part hmem hpart => exact ⟨_, hmem, hpart⟩
    | value hkind => simp [isDirect, hkind] at hdirect
    | body hkind => simp [isDirect, hkind] at hdirect

section Steps

variable {cat : Catalogue} {names : Bindings} {code : String} {noted : List String}

/-- The account of a node as an argument. -/
lemma accounts_operand
    (htells : kind.quoting.Tells cat (fun helper => kind.Calls helper env ir) code)
    (hnotes : ∀ helper, helper ∈ noted ↔ kind.Notes helper ir) :
    (kind.ledger cat env).Accounts [.operand (kind.target.operand ir)] code noted where
  tells := htells.congr fun helper => by simp [ledger, Target.operand]
  notes helper := by simp [hnotes, ledger, Target.operand]

/-- Code that is made of one lowered form calls what that form calls. -/
lemma tells_of_accounts
    (h : (kind.ledger cat env).Accounts [.operand (kind.target.operand ir)] code noted) :
    kind.quoting.Tells cat (fun helper => kind.Calls helper env ir) code :=
  h.tells.congr fun helper => by simp [ledger, Target.operand]

/-- Code that is made of one lowered form notes what that form notes. -/
lemma mem_of_accounts
    (h : (kind.ledger cat env).Accounts [.operand (kind.target.operand ir)] code noted) :
    helper ∈ noted ↔ kind.Notes helper ir := by
  simp [h.notes helper, ledger, Target.operand]

/-- The account of the shares of a node is that of the node. -/
lemma accounts_of_shares (hdirect : kind.isDirect ir = true)
    (h : (kind.ledger cat env).Accounts (kind.shares ir) code noted) :
    (kind.ledger cat env).Accounts [.operand (kind.target.operand ir)] code noted :=
  accounts_operand (h.tells.congr fun _ => calls_iff_of_isDirect hdirect)
    fun helper => (h.notes helper).trans (notes_iff_of_isDirect hdirect)

/-- A variable that is not bound, unless it is spelled like a helper. -/
lemma tells_variableCode {name : String} (h : IsIdentifier name) (hname : name ∉ cat) :
    kind.quoting.Tells cat (fun _ => False) (kind.target.variableCode name).code := by
  have hcode : (kind.ledger cat []).Accounts [] (kind.target.variableCode name).code [] := by
    cases kind with
    | ruby => exact Ruby.accounts_localName h hname
    | javaScript => exact JavaScript.accounts_localName h hname
    | sql => exact Sql.accounts_identifier h hname
  exact hcode.tells.congr fun _ => by simp

/-- A variable is written as what it is bound to.

**Proof sketch.** By induction on the bindings. A name that is not bound is written as a variable,
which calls nothing; the others read the value of the first binding of the name. -/
lemma tells_var (hbounds : kind.Bounds cat env names) {name : String} (ty : Ty)
    (h : IsIdentifier name) (hname : name ∉ cat) :
    kind.quoting.Tells cat (fun helper => kind.Calls helper env (.var name ty))
      ((names.lookup name).getD (kind.target.variableCode name)).code := by
  induction hbounds with
  | nil =>
    refine (tells_variableCode h hname).congr fun helper => ⟨False.elim, fun hcalls => ?_⟩
    cases hcalls with
    | own hmem => cases hmem
    | part hmem => cases hmem
  | @cons env names other value fragment _ hvalue ih =>
    by_cases heq : name = other
    · subst heq
      rw [List.lookup_cons_self]
      refine hvalue.congr fun helper => ⟨.use, fun hcalls => ?_⟩
      cases hcalls with
      | own hmem => cases hmem
      | part hmem => cases hmem
      | use hcalls => exact hcalls
      | skip hne => exact absurd rfl hne
    · rw [List.lookup_cons, beq_eq_false_iff_ne.mpr heq]
      refine ih.congr fun helper => ⟨.skip heq, fun hcalls => ?_⟩
      cases hcalls with
      | own hmem => cases hmem
      | part hmem => cases hmem
      | use => exact absurd rfl heq
      | skip _ hcalls => exact hcalls

end Steps

/-! ### Bindings of SQL -/

section Bindings

variable {bindings : List (String × Ir)} {body : Ir} {ty : Ty}

/-- Without bindings only the body calls. -/
lemma calls_letIn_nil :
    TargetKind.sql.Calls helper env (.letIn [] body ty) ↔ TargetKind.sql.Calls helper env body := by
  refine ⟨fun h => ?_, .bound rfl⟩
  cases h with
  | own hmem => cases hmem
  | part hmem => cases hmem
  | bound _ hbody => exact hbody

/-- In SQL the first name is bound around the other bindings and the body. -/
lemma calls_letIn_cons {name : String} {value : Ir} :
    TargetKind.sql.Calls helper env (.letIn ((name, value) :: bindings) body ty) ↔
      TargetKind.sql.Calls helper ((name, value) :: env) (.letIn bindings body ty) := by
  refine ⟨fun h => ?_, .bind rfl⟩
  cases h with
  | own hmem => cases hmem
  | part hmem => cases hmem
  | bind _ hrest => exact hrest

/-- In SQL the helpers of all values are noted, whether their names are used or not. -/
lemma notes_letIn :
    TargetKind.sql.Notes helper (.letIn bindings body ty) ↔
      (∃ b ∈ bindings, TargetKind.sql.Notes helper b.2) ∨ TargetKind.sql.Notes helper body := by
  refine ⟨fun h => ?_, fun h => ?_⟩
  · cases h with
    | own hmem => cases hmem
    | part hmem => cases hmem
    | value _ hb hvalue => exact .inl ⟨_, hb, hvalue⟩
    | body _ hbody => exact .inr hbody
  · rcases h with ⟨b, hb, hvalue⟩ | hbody
    · exact .value rfl hb hvalue
    · exact .body rfl hbody

/-- A value is written and its helpers are noted where it is bound; it is called where its name is
used.

**Proof sketch.** By induction on the bindings. Each is written once for the helpers that it notes,
and its code is kept for the uses of its name, so what it calls is accounted for there. -/
lemma accounts_bindIn {cat : Catalogue}
    (hvalues : ∀ b ∈ bindings, ∀ {env : List (String × Ir)} {names : Bindings},
      TargetKind.sql.Bounds cat env names →
        (TargetKind.sql.ledger cat env).Knows names (Sql.target.operand b.2))
    (hbody : ∀ {env : List (String × Ir)} {names : Bindings}, TargetKind.sql.Bounds cat env names →
        (TargetKind.sql.ledger cat env).Knows names (Sql.target.operand body))
    {env : List (String × Ir)} {names : Bindings} (hbounds : TargetKind.sql.Bounds cat env names)
    {fragment : Fragment} {noted : List String}
    (h : (Sql.bindIn (bindings.map fun b => (b.1, Sql.target.operand b.2))
      (Sql.target.operand body)).Notes names fragment noted) :
    (TargetKind.sql.ledger cat env).Accounts [.operand (Sql.target.operand (.letIn bindings body ty))]
      fragment.code noted := by
  induction bindings generalizing env names fragment noted with
  | nil =>
    have hcode := hbody hbounds fragment noted h
    refine accounts_operand ((tells_of_accounts hcode).congr fun _ => calls_letIn_nil.symm)
      fun helper => (mem_of_accounts hcode).trans ?_
    simp [notes_letIn]
  | cons b bindings ih =>
    obtain ⟨name, value⟩ := b
    obtain ⟨hvalue, hmore⟩ := List.forall_mem_cons.mp hvalues
    simp only [List.map_cons, Sql.bindIn, Emit.notes_bind, Emit.notes_binding] at h
    obtain ⟨written, before, hwritten, after, hrest, rfl⟩ := h
    have hvalue := hvalue hbounds written before hwritten
    have hsubstituted := tells_of_accounts (Sql.accounts_substituted value hvalue)
    have hrest := ih hmore (hbounds.cons hsubstituted) hrest
    refine accounts_operand ((tells_of_accounts hrest).congr fun _ => calls_letIn_cons.symm)
      fun helper => ?_
    simp only [List.mem_append, mem_of_accounts hvalue, mem_of_accounts hrest, notes_letIn,
      List.exists_mem_cons_iff, or_assoc]

end Bindings

/-! ### Lowered forms -/

section Forms

variable {cat : Catalogue} {names : Bindings}

/-- A ledger that is right about lowered forms is right about them as arguments. -/
lemma knows_operands {irs : List Ir}
    (h : ∀ ir ∈ irs, (kind.ledger cat env).Knows names (kind.target.operand ir)) :
    ∀ o ∈ Target.operands kind.target irs, (kind.ledger cat env).Knows names o := by
  rw [Target.operands_eq_map]
  exact List.forall_mem_map.mpr h

/-- Bindings that are functions. -/
lemma accounts_functions {bindings : List (String × Ir)} {body : Ir} {ty : Ty}
    (hkind : kind ≠ .sql) (hnames : ∀ b ∈ bindings, IsIdentifier b.1 ∧ b.1 ∉ cat)
    (hvalues : ∀ b ∈ bindings, (kind.ledger cat env).Knows names (kind.target.operand b.2))
    (hbody : (kind.ledger cat env).Knows names (kind.target.operand body))
    {fragment : Fragment} {noted : List String}
    (h : (kind.target.letIn (bindings.map fun b => (b.1, kind.target.operand b.2))
      (kind.target.operand body)).Notes names fragment noted) :
    (kind.ledger cat env).Accounts (kind.shares (.letIn bindings body ty)) fragment.code noted := by
  have hoperands : ∀ b ∈ bindings.map fun b => (b.1, kind.target.operand b.2),
      (IsIdentifier b.1 ∧ b.1 ∉ cat) ∧ (kind.ledger cat env).Knows names b.2 := by
    refine fun b hb => ?_
    obtain ⟨b, hmem, rfl⟩ := List.mem_map.mp hb
    exact ⟨hnames b hmem, hvalues b hmem⟩
  have hnames := fun b hb => (hoperands b hb).1
  have hvalues := fun b hb => (hoperands b hb).2
  have hshares : kind.shares (.letIn bindings body ty) = (kind.target.operand body ::
      (bindings.map fun b => (b.1, kind.target.operand b.2)).map Prod.snd).map .operand := by
    cases kind with
    | ruby | javaScript => simp [shares, Function.comp_def]
    | sql => exact absurd rfl hkind
  rw [hshares]
  cases kind with
  | ruby => exact Ruby.accounts_letIn hnames hvalues hbody h
  | javaScript => exact JavaScript.accounts_letIn hnames hvalues hbody h
  | sql => exact absurd rfl hkind

/-- A constant key of a member read is the key that the lowered form avoids. -/
lemma keyAvoids {name : String} {args : List Ir} {argTypes : List Ty} {ty : Ty}
    (hkey : ∀ key, args[1]?.bind Ir.string? = some key → key ∉ cat) :
    JavaScript.KeyAvoids (TargetKind.javaScript.ledger cat env)
      ⟨name, Target.operands JavaScript.target args, argTypes, ty⟩ := by
  intro key hread
  refine hkey key ?_
  rw [Site.operand, List.getD_eq_getElem?_getD, Target.operands_eq_map, List.getElem?_map] at hread
  cases harg : args[1]? with
  | none =>
    rw [harg] at hread
    cases hread
  | some arg =>
    rw [harg] at hread
    exact hread

/-- A lowered form calls and notes what it should.

**Proof sketch.** Induction over the lowered form. A node that is made of its shares calls and notes
what these do, by the lemma of its construct. A variable calls what the value of its name calls, and
in SQL bindings call what the body calls with their names bound. -/
theorem knows (h : ir.Avoids cat.names) (hbounds : kind.Bounds cat env names) :
    (kind.ledger cat env).Knows names (kind.target.operand ir) := by
  induction h generalizing env names with
  | literal =>
    intro fragment noted hwritten
    refine accounts_of_shares rfl ?_
    cases kind with
    | ruby => exact Ruby.accounts_literal hwritten
    | javaScript => exact JavaScript.accounts_literal hwritten
    | sql => exact Sql.accounts_literal hwritten
  | @var name ty hname havoids =>
    intro fragment noted hwritten
    have hwritten : (kind.target.fragment (.var name ty)).Notes names fragment noted := hwritten
    simp only [Target.fragment, Emit.notes_bind, Emit.notes_lookup, Emit.notes_pure] at hwritten
    obtain ⟨_, _, ⟨rfl, rfl⟩, _, ⟨rfl, rfl⟩, rfl⟩ := hwritten
    refine accounts_operand (tells_var hbounds ty hname havoids) fun helper => ?_
    refine ⟨fun hmem => absurd hmem List.not_mem_nil, fun hnotes => ?_⟩
    cases hnotes with
    | own hmem => cases hmem
    | part hmem => cases hmem
  | @letIn bindings body ty hnames _ _ ihvalues ihbody =>
    intro fragment noted hwritten
    have hwritten : (kind.target.letIn (Target.boundOperands kind.target bindings)
      (kind.target.operand body)).Notes names fragment noted := hwritten
    rw [Target.boundOperands_eq_map] at hwritten
    -- SQL writes the values where the names are used; elsewhere they are arguments of functions.
    by_cases hkind : kind = .sql
    · subst hkind
      exact accounts_bindIn (fun b hb => ihvalues b hb) ihbody hbounds hwritten
    · refine accounts_of_shares (decide_eq_true hkind) ?_
      exact accounts_functions hkind hnames (fun b hb => ihvalues b hb hbounds) (ihbody hbounds)
        hwritten
  | lambda hparams _ ih =>
    intro fragment noted hwritten
    refine accounts_of_shares rfl ?_
    cases kind with
    | ruby => exact Ruby.accounts_lambda hparams (ih hbounds) hwritten
    | javaScript => exact JavaScript.accounts_lambda hparams (ih hbounds) hwritten
    | sql => exact (Emit.notes_fail.mp hwritten).elim
  | @cond test yes no ty _ _ _ ihtest ihyes ihno =>
    intro fragment noted hwritten
    have hwritten : (kind.target.conditional (kind.target.operand test) (kind.target.operand yes)
      (kind.target.operand no) ty).Notes names fragment noted := hwritten
    refine accounts_of_shares rfl ?_
    have htest := ihtest hbounds
    have hyes := ihyes hbounds
    have hno := ihno hbounds
    cases kind with
    | ruby => exact Ruby.accounts_conditional htest hyes hno hwritten
    | javaScript => exact JavaScript.accounts_conditional htest hyes hno hwritten
    | sql => exact Sql.accounts_conditional htest hyes hno hwritten
  | @alternative candidates ty _ ih =>
    intro fragment noted hwritten
    have hwritten : (kind.target.alternative (Target.operands kind.target candidates) ty).Notes names
      fragment noted := hwritten
    refine accounts_of_shares rfl ?_
    have hcandidates := knows_operands fun c hc => ih c hc hbounds
    cases kind with
    | ruby => exact Ruby.accounts_alternative hcandidates hwritten
    | javaScript => exact JavaScript.accounts_alternative hcandidates hwritten
    | sql => exact Sql.accounts_alternative hcandidates hwritten
  | call hkey _ ih =>
    intro fragment noted hwritten
    refine accounts_of_shares rfl ?_
    have hargs := knows_operands fun a ha => ih a ha hbounds
    cases kind with
    | ruby => exact Ruby.accounts_call hargs hwritten
    | javaScript =>
      exact JavaScript.accounts_call (fun hname => keyAvoids (hkey hname)) hargs hwritten
    | sql => exact Sql.accounts_call hargs hwritten

end Forms

/-! ## Compiled code -/

/-- The output form of a target keeps what the code calls. -/
lemma tells_executable {cat : Catalogue} {called : String → Prop} {code : String}
    (h : kind.quoting.Tells cat called code) :
    kind.quoting.Tells cat called (kind.target.executable code) := by
  cases kind with
  | ruby =>
    exact h.enclosed Ruby.lawful (by decide : opens "->(_) \x7b ".toList = true)
      (by decide : closes " \x7d".toList = true)
  | javaScript =>
    exact h.enclosed JavaScript.lawful
      (by decide : opens "(function(_) \x7b return ".toList = true)
      (by decide : closes "; \x7d)".toList = true)
  | sql =>
    exact h.enclosed Sql.lawful (by decide : opens "SELECT ".toList = true)
      (by decide : closes " AS result".toList = true)

variable {form : OutputForm} {out : Compiled}

/-- Compiled code calls what its lowered form does, and what is noted for the lowered form is
reported. -/
theorem accounts_compile {cat : Catalogue} (h : ir.Avoids cat.names)
    (hcompile : kind.target.compile form ir = .ok out) :
    kind.quoting.Tells cat (fun helper => kind.Calls helper [] ir) out.code ∧
      ∀ helper, helper ∈ out.helpers ↔ kind.Notes helper ir := by
  unfold Target.compile at hcompile
  rcases hwritten : kind.target.fragment ir [] with ⟨_ | fragment, noted⟩
  · simp [hwritten] at hcompile
  · have haccounts := knows h .nil fragment noted hwritten
    have htells := tells_of_accounts haccounts
    simp only [hwritten, Except.ok.injEq] at hcompile
    subst hcompile
    refine ⟨?_, fun helper => Helper.mem_sorted.trans (mem_of_accounts haccounts)⟩
    cases form with
    | fragment => exact htells
    | executable => exact tells_executable htells

/-- Every helper that the code calls is reported, and every helper that is reported is in the
catalogue of the target.

**Proof sketch.** Writing a form keeps account of the helpers that its code calls and of those that
it notes (`accounts_compile`). A helper that is called is noted for the form itself, as there are no
bindings around it. -/
theorem called_reported (h : ir.Avoids kind.catalogue)
    (hcompile : kind.target.compile form ir = .ok out) :
    ∃ ps, kind.quoting.pieces? 0 out.code.toList = some ps ∧
      (∀ helper ∈ kind.catalogue, helper ∈ calledFrom [] ps → helper ∈ out.helpers) ∧
      ∀ helper ∈ out.helpers, helper ∈ kind.catalogue := by
  obtain ⟨⟨ps, hspells, -, hcalls⟩, hnotes⟩ :=
    accounts_compile (show ir.Avoids kind.helpers.names from h) hcompile
  refine ⟨ps, hspells.pieces?_eq kind.lawful, fun helper hmem hcalled => ?_, fun helper hmem => ?_⟩
  · have hcall := (hcalls helper (kind.helpers.marked helper hmem)).2 hmem hcalled
    exact (hnotes helper).mpr (hcall.notes.resolve_right (by simp))
  · exact ((hnotes helper).mp hmem).mem_catalogue

/-- A product with a text that looks like a call. -/
def quotedCall : Ir :=
  .call "mul" [.var "_" .any, .ofLiteral (.string "elo_sub(")] [.any, .string] .any

/-- The call inside of the text needs no helper. -/
theorem called_reported_quotedCall :
    quotedCall.Avoids TargetKind.sql.catalogue ∧
      TargetKind.sql.target.compile .fragment quotedCall =
        .ok ⟨"elo_mul(_, to_jsonb(CAST('elo_sub(' AS TEXT)))", ["elo_mul"]⟩ ∧
      ∃ ps, TargetKind.sql.quoting.pieces? 0
          "elo_mul(_, to_jsonb(CAST('elo_sub(' AS TEXT)))".toList = some ps ∧
        (∀ helper ∈ TargetKind.sql.catalogue, helper ∈ calledFrom [] ps → helper ∈ ["elo_mul"]) ∧
        ∀ helper ∈ ["elo_mul"], helper ∈ TargetKind.sql.catalogue := by
  have havoids : quotedCall.Avoids TargetKind.sql.catalogue := by
    refine .call (fun hname => absurd hname (by decide)) fun a ha => ?_
    simp only [List.mem_cons, List.not_mem_nil, or_false] at ha
    rcases ha with rfl | rfl
    · exact .var isIdentifier_inputName (not_mem_catalogue (by decide))
    · exact .literal
  have hcompile : TargetKind.sql.target.compile .fragment quotedCall =
      .ok ⟨"elo_mul(_, to_jsonb(CAST('elo_sub(' AS TEXT)))", ["elo_mul"]⟩ := rfl
  obtain ⟨ps, hpieces, hreported, hcatalogue⟩ := called_reported havoids hcompile
  exact ⟨havoids, hcompile, ps, hpieces, hreported, hcatalogue⟩

/-- Every helper that is reported is called, but for SQL: there it is called if the lowered form
calls it with the names of bindings standing for their values, and only then where no name is spelled
like a helper.

**Proof sketch.** The account is taken twice. Against no names at all it says that what the form
calls is called in the code, whatever its names are; outside of SQL what is noted is called
(`Notes.calls`). Against the catalogue, which the names of the form avoid, it says the converse. -/
theorem reported_called {source : String} (hsource : lowerSource source = .ok ir)
    (hcompile : compile source kind form = .ok out) :
    ∀ helper ∈ out.helpers,
      (kind ≠ .sql ∨ kind.Calls helper [] ir → kind.quoting.Calls out.code helper) ∧
      (ir.Avoids kind.catalogue → kind.quoting.Calls out.code helper → kind.Calls helper [] ir) := by
  intro helper hmem
  simp only [compile, hsource] at hcompile
  have hnamed : ir.Named := (lexical_of_lowerSource hsource).named
  obtain ⟨⟨ps, hspells, -, hcalls⟩, hnotes⟩ :=
    accounts_compile (show ir.Avoids (Catalogue.mk [] (List.forall_mem_nil _)).names from
      hnamed.avoids) hcompile
  have hnoted := (hnotes helper).mp hmem
  have hcatalogue := hnoted.mem_catalogue
  have hmarked := kind.helpers.marked helper hcatalogue
  refine ⟨fun hcall => ?_, fun havoids hcalled => ?_⟩
  · refine ⟨ps, hspells.pieces?_eq kind.lawful, (hcalls helper hmarked).1 ?_⟩
    exact hcall.elim hnoted.calls id
  · obtain ⟨⟨qs, hqs, -, hall⟩, -⟩ :=
      accounts_compile (show ir.Avoids kind.helpers.names from havoids) hcompile
    obtain ⟨rs, hrs, hcalled⟩ := hcalled
    obtain rfl := Option.some.inj ((hqs.pieces?_eq kind.lawful).symm.trans hrs)
    exact (hall helper hmarked).2 hcatalogue hcalled

/-- A sum that is bound to a name that nothing uses. -/
def droppedSum : Ir :=
  .letIn [("x", .call "add" [.var "_" .any, .ofLiteral (.int 1)] [.any, .int] .any)]
    (.ofLiteral (.int 2)) .int

/-- The tokens of the binding. -/
def droppedSumTokens : List Token :=
  [⟨.keyword .let, "let", 0⟩, ⟨.ident "x", "x", 4⟩, ⟨.punct .assign, "=", 6⟩,
   ⟨.ident "_", "_", 8⟩, ⟨.punct .plus, "+", 10⟩, ⟨.literal (.int 1), "1", 12⟩,
   ⟨.keyword .in, "in", 14⟩, ⟨.literal (.int 2), "2", 17⟩, Token.atEnd 18]

/-- The helper of the sum is reported, and the code does not call it. -/
theorem reported_called_droppedSum :
    lowerSource "let x = _ + 1 in 2" = .ok droppedSum ∧
      compile "let x = _ + 1 in 2" .sql .fragment = .ok ⟨"2", ["elo_add"]⟩ ∧
      droppedSum.Avoids TargetKind.sql.catalogue ∧
      ¬TargetKind.sql.Calls "elo_add" [] droppedSum ∧
      ¬TargetKind.sql.quoting.Calls "2" "elo_add" := by
  have htokens : (tokenize "let x = _ + 1 in 2").toOption = some droppedSumTokens := by cbv
  have hsource : lowerSource "let x = _ + 1 in 2" = .ok droppedSum :=
    lowerSource_eq_ok htokens rfl rfl
  have hcompile : compile "let x = _ + 1 in 2" .sql .fragment = .ok ⟨"2", ["elo_add"]⟩ := by
    simp only [compile, hsource]
    rfl
  have havoids : droppedSum.Avoids TargetKind.sql.catalogue := by
    refine .letIn (List.forall_mem_singleton.mpr ?_) (List.forall_mem_singleton.mpr ?_) .literal
    · exact ⟨⟨'x', [], rfl, by decide, List.forall_mem_nil _⟩, not_mem_catalogue (by decide)⟩
    · refine .call (fun hname => absurd hname (by decide)) (List.forall_mem_cons.mpr ⟨?_, ?_⟩)
      · exact .var isIdentifier_inputName (not_mem_catalogue (by decide))
      · exact List.forall_mem_singleton.mpr .literal
  have hdropped : ¬TargetKind.sql.Calls "elo_add" [] droppedSum := by
    intro hcalls
    cases calls_letIn_nil.mp (calls_letIn_cons.mp hcalls) with
    | own hmem => cases hmem
    | part hmem => cases hmem
  have hexact := (reported_called hsource hcompile "elo_add" List.mem_cons_self).2 havoids
  exact ⟨hsource, hcompile, havoids, hdropped, fun hcalled => hdropped (hexact hcalled)⟩

end TargetKind

end Retarget
