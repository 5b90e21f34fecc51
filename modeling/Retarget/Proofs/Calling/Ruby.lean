import Retarget.Proofs.Calling.Ledger
import Retarget.Proofs.Quoting.Ruby

set_option autoImplicit false

/-!
# Calls and noted helpers in Ruby

## Main definitions

* `Retarget.Ruby.CallForm.shares` — what the code of a call is made of.

## Main results

* `Retarget.Ruby.accounts_call` — a call calls and notes what its shares do; likewise for the other
  constructs.
-/

namespace Retarget.Ruby

open Quoting

/-- The functions that helpers are for. -/
def assisted : List String := Helper.selectorFunctions ++ ["alt", "date_diff", "div", "mod"]

/-- The catalogue holds the names of the helpers of the assisted functions. -/
lemma mem_catalogue {name : String} : name ∈ catalogue ↔ name ∈ assisted.map Helper.snake :=
  Helper.mem_sorted

/-- Helpers are spelled with the characters of names. -/
lemma continuesName_of_mem {name : String} (h : name ∈ assisted.map Helper.snake) :
    name.toList.all continuesName = true := by
  have hothers : ∀ function ∈ ["alt", "date_diff", "div", "mod"], isFunction function = true := by
    decide
  obtain ⟨function, hfunction, rfl⟩ := List.mem_map.mp h
  exact continuesName_snake
    ((List.mem_append.mp hfunction).elim isFunction_of_selector (hothers function))

/-! ## Calls -/

namespace CallForm

/-- The helper that a form calls. -/
def own : CallForm → List String
  | .shared form => form.own
  | _ => []

/-- What the code of a call in a form is made of. -/
def shares (form : CallForm) (site : Site) : List Share :=
  form.own.map .helper ++ (form.written site).map .operand

/-- The text of a form calls no helper but its own, and keeps the names in the codes of the arguments
as they are. -/
def isTidy : CallForm → Bool
  | .shared form => form.isTidy
  | .block text => divides (letters text ++ ['('])
  | .dayShift op => divides (' ' :: (letters op ++ [' ']))
  | .index => true

end CallForm

/-- The text of every form is tidy, and its helper is in the catalogue. -/
lemma checks_calls : registry.checks (fun _ form => form.isTidy &&
    form.own.all fun name => decide (name ∈ assisted.map Helper.snake)) = true := by
  cbv

/-- A form that is found calls helpers of assisted functions only. -/
lemma own_mem {name : String} {tags : List Tag} {form : CallForm}
    (hlookup : registry.lookup name tags = .ok form) {helper : String} (h : helper ∈ form.own) :
    helper ∈ assisted.map Helper.snake := by
  have hchecks := Registry.of_checks rfl checks_calls hlookup
  exact of_decide_eq_true (List.all_eq_true.mp (Bool.and_eq_true_iff.mp hchecks).2 helper h)

/-- What a call is made of. -/
def callShares (site : Site) : List Share :=
  match registry.lookup site.name site.tags with
  | .ok form => form.shares site
  | .error _ => []

section Accounts

variable {L : Ledger quoting} {names : Bindings} {fragment : Fragment} {noted : List String}

/-- A mark in front of the last of a row of codes. -/
lemma rows_withBlock {groups : List (List Share)} {cs : List String}
    (h : L.Rows groups cs noted) : L.Rows groups (withBlock cs) noted := by
  induction h with
  | nil => exact .nil
  | cons hcode hrest ih =>
    cases hrest with
    | nil =>
      refine .cons ?_ .nil
      simpa using hcode.enclosed "&" "" (by decide) (by decide)
    | cons hnext hmore => exact .cons hcode ih

/-- The code of a call in a tidy form calls what its shares call.

**Proof sketch.** The forms that all targets share follow the general lemma. The others join the
codes of their arguments by texts that keep names apart. -/
lemma accounts_emit {site : Site} {form : CallForm} (hsound : form.isSound = true)
    (hform : form.isTidy = true) (hown : ∀ name ∈ form.own, name.toList.all continuesName = true)
    (hsite : ∀ o ∈ site.operands, L.Knows names o)
    (h : (form.emit site).Notes names fragment noted) :
    L.Accounts (form.shares site) fragment.code noted := by
  have hknows := Ledger.knows_operand hsite
  cases form with
  | shared form => exact Form.accounts_emit hsound hform hown hsite h
  | block text =>
    simp only [CallForm.emit, Emit.notes_bind, Emit.notes_pure] at h
    obtain ⟨receiver, noted, hreceiver, _, ⟨cs, noted', hcs, _, ⟨rfl, rfl⟩, rfl⟩, rfl⟩ := h
    have hrest : ∀ o ∈ site.operands.drop 1, L.Knows names o :=
      fun o ho => hsite o (List.mem_of_mem_drop ho)
    have hrow := (rows_withBlock (Ledger.rows_codes hrest hcs)).separated
    rw [Ledger.flatten_singletons] at hrow
    have hmark : divides (text ++ "(").toList = true := by simpa [CallForm.isTidy] using hform
    have hcall := (((hknows 0).accounts_wrapped hreceiver).joined hmark hrow).enclosed "" ")"
      (by decide) (by decide)
    simpa [CallForm.shares, CallForm.own, CallForm.written, Fragment.atom, String.append_assoc] using
      hcall
  | dayShift op =>
    simp only [CallForm.emit, Emit.notes_bind] at h
    obtain ⟨lhs, noted, hlhs, after, h, rfl⟩ := h
    have hlhs := (hknows 0).accounts_wrapped hlhs
    have hmark : divides (" " ++ op ++ " ").toList = true := by simpa [CallForm.isTidy] using hform
    simp only [CallForm.shares, CallForm.own, CallForm.written]
    cases hdays : (site.operand 1).ir.literal?.bind Temporal.literalDays? with
    | some days =>
      simp only [hdays, Emit.notes_bind, Emit.notes_pure] at h ⊢
      obtain ⟨_, _, ⟨rfl, rfl⟩, _, ⟨rfl, rfl⟩, rfl⟩ := h
      have hcount : L.Accounts [] (toString days) [] := .silent (tells_toString (days : Int))
      simpa [Fragment.operation, String.append_assoc] using hlhs.joined hmark hcount
    | none =>
      simp only [hdays, Emit.notes_bind, Emit.notes_pure] at h ⊢
      obtain ⟨rhs, noted', hrhs, _, ⟨rfl, rfl⟩, rfl⟩ := h
      simpa [Fragment.operation, String.append_assoc] using
        hlhs.joined hmark ((hknows 1).accounts_wrapped hrhs)
  | index =>
    simp only [CallForm.emit, Emit.notes_bind, Emit.notes_pure] at h
    obtain ⟨receiver, noted, hreceiver, _, ⟨key, noted', hkey, _, ⟨rfl, rfl⟩, rfl⟩, rfl⟩ := h
    have hread := (((hknows 0).accounts_wrapped hreceiver).joined (by decide : divides "[".toList = true)
      ((hknows 1).accounts_code hkey)).enclosed "" "]" (by decide) (by decide)
    simpa [CallForm.shares, CallForm.own, CallForm.written, Fragment.atom] using hread

/-- A call calls and notes what its shares do. -/
theorem accounts_call {site : Site} (hsite : ∀ o ∈ site.operands, L.Knows names o)
    (h : (target.call site).Notes names fragment noted) :
    L.Accounts (callShares site) fragment.code noted := by
  obtain ⟨form, hlookup, hform⟩ := Registry.exists_of_notes_call h
  have hsound := (Bool.and_eq_true_iff.mp (Registry.of_checks rfl checks_registry hlookup)).1
  have htidy := (Bool.and_eq_true_iff.mp (Registry.of_checks rfl checks_calls hlookup)).1
  rw [callShares, hlookup]
  exact accounts_emit hsound htidy (fun _ h => continuesName_of_mem (own_mem hlookup h)) hsite hform

/-- The helper of a call is in the catalogue. -/
lemma mem_catalogue_of_callShares {site : Site} {name : String}
    (h : .helper name ∈ callShares site) : name ∈ catalogue := by
  unfold callShares at h
  split at h
  · rename_i form hlookup
    have hown : name ∈ form.own := by simpa [CallForm.shares] using h
    exact mem_catalogue.mpr (own_mem hlookup hown)
  · cases h

/-! ## Constants and names -/

/-- A constant calls no helper. -/
lemma accounts_literal {value : Literal} (h : (target.literal value).Notes names fragment noted) :
    L.Accounts [] fragment.code noted := by
  simp only [target, Emit.notes_pure] at h
  obtain ⟨rfl, rfl⟩ := h
  have hquote (s : String) : L.Accounts [] (quote s) [] :=
    .silent (tells_constant (seals_quote s).spells)
  cases value with
  | int v => exact .silent (tells_toString v)
  | float x => exact .silent (tells_write _ x)
  | bool b => cases b <;> exact .quiet (by decide)
  | string s => exact hquote s
  | date s => exact (hquote s).enclosed "Date.iso8601(" ")" (by decide) (by decide)
  | dateTime s => exact (hquote s).enclosed "DateTime.iso8601(" ")" (by decide) (by decide)
  | duration s =>
    exact (hquote s).enclosed "ActiveSupport::Duration.parse(" ")" (by decide) (by decide)
  | null => exact .quiet (by decide)

/-- A variable, unless it is spelled like a helper. -/
lemma accounts_localName {name : String} (h : IsIdentifier name) (hname : name ∉ L.catalogue) :
    L.Accounts [] (localName name) [] := by
  have hchars := h.continuesName
  have hmark : ∀ c ∈ "_".toList, continuesName c = true :=
    List.forall_iff_forall_mem.mp (by decide)
  have hreserved : ∀ name ∈ reserved, isMarked (name ++ "_") = false := by
    decide
  refine .silent ?_
  unfold localName
  split_ifs with hkeyword hupper
  · refine tells_name ?_ (Catalogue.not_mem (hreserved name hkeyword))
    rw [String.toList_append]
    exact List.forall_mem_append.mpr ⟨hchars, hmark⟩
  · refine tells_name ?_ (Catalogue.not_mem ?_)
    · rw [String.toList_append]
      exact List.forall_mem_append.mpr ⟨hmark, hchars⟩
    · rw [isMarked, String.toList_append]
      rfl
  · exact tells_name hchars hname

/-! ## Constructs -/

/-- Parameters, unless one is spelled like a helper. -/
lemma accounts_params {params : List String}
    (h : ∀ p ∈ params, IsIdentifier p ∧ p ∉ L.catalogue) :
    L.Accounts [] (commaSeparated (params.map localName)) [] := by
  refine Ledger.accounts_names fun s hs => ?_
  obtain ⟨p, hp, rfl⟩ := List.mem_map.mp hs
  exact accounts_localName (h p hp).1 (h p hp).2

section Functions

variable {shares : List Share} {params body : String}

/-- A function calls what its body calls. -/
lemma accounts_arrow (hparams : L.Accounts [] params []) (h : L.Accounts shares body noted) :
    L.Accounts shares (arrow params body) noted := by
  have hfunction := (hparams.joined (by decide : divides ") \x7b ".toList = true) h).enclosed "->("
    " \x7d" (by decide) (by decide)
  simpa [arrow, String.append_assoc] using hfunction

/-- A function without parameters calls what its body calls. -/
lemma accounts_thunk (h : L.Accounts shares body noted) : L.Accounts shares (thunk body) noted :=
  h.enclosed "-> \x7b " " \x7d" (by decide) (by decide)

end Functions

/-- Bindings call and note what their values and their body do. -/
lemma accounts_bindAround {bindings : List (String × Operand)} {body : Operand} {code : String}
    (hnames : ∀ b ∈ bindings, IsIdentifier b.1 ∧ b.1 ∉ L.catalogue)
    (hvalues : ∀ b ∈ bindings, L.Knows names b.2) (hbody : L.Knows names body)
    (h : (bindAround bindings body.code).Notes names code noted) :
    L.Accounts ((body :: bindings.map Prod.snd).map .operand) code noted := by
  induction bindings generalizing code noted with
  | nil => exact hbody.accounts_code h
  | cons b bindings ih =>
    obtain ⟨hname, hmoreNames⟩ := List.forall_mem_cons.mp hnames
    obtain ⟨hvalue, hmoreValues⟩ := List.forall_mem_cons.mp hvalues
    simp only [bindAround, Emit.notes_bind, Emit.notes_pure] at h
    obtain ⟨inside, before, hinside, _, ⟨value, after, hcode, _, ⟨rfl, rfl⟩, rfl⟩, rfl⟩ := h
    have hfunction := accounts_arrow (accounts_localName hname.1 hname.2)
      (ih hmoreNames hmoreValues hinside)
    have hcall := (hfunction.joined (by decide : divides ".call(".toList = true)
      (hvalue.accounts_code hcode)).enclosed "" ")" (by decide) (by decide)
    rw [String.empty_append] at hcall
    refine hcall.congr (fun s => ?_) fun n => by simp
    simp only [List.map_cons, List.mem_append, List.mem_cons, List.not_mem_nil, or_false]
    tauto

/-- Bindings around a body call what the body and the values call. -/
lemma accounts_letIn {bindings : List (String × Operand)} {body : Operand}
    (hnames : ∀ b ∈ bindings, IsIdentifier b.1 ∧ b.1 ∉ L.catalogue)
    (hvalues : ∀ b ∈ bindings, L.Knows names b.2) (hbody : L.Knows names body)
    (h : (target.letIn bindings body).Notes names fragment noted) :
    L.Accounts ((body :: bindings.map Prod.snd).map .operand) fragment.code noted := by
  simp only [target, Emit.notes_bind, Emit.notes_pure] at h
  obtain ⟨code, noted, hcode, _, ⟨rfl, rfl⟩, rfl⟩ := h
  rw [List.append_nil]
  exact accounts_bindAround hnames hvalues hbody hcode

/-- A function of the source calls what its body calls. -/
lemma accounts_lambda {params : List String} {body : Operand}
    (hparams : ∀ p ∈ params, IsIdentifier p ∧ p ∉ L.catalogue) (hbody : L.Knows names body)
    (h : (target.lambda params body).Notes names fragment noted) :
    L.Accounts [.operand body] fragment.code noted := by
  simp only [target, Emit.notes_bind] at h
  obtain ⟨code, before, hcode, after, h, rfl⟩ := h
  have hcode := hbody.accounts_code hcode
  split_ifs at h
  · obtain ⟨rfl, rfl⟩ := Emit.notes_pure.mp h
    rw [List.append_nil]
    exact accounts_thunk hcode
  · obtain ⟨rfl, rfl⟩ := Emit.notes_pure.mp h
    rw [List.append_nil]
    exact accounts_arrow (accounts_params hparams) hcode

/-- A conditional calls what its condition and its branches call. -/
lemma accounts_conditional {test yes no : Operand} {ty : Ty} (htest : L.Knows names test)
    (hyes : L.Knows names yes) (hno : L.Knows names no)
    (h : (target.conditional test yes no ty).Notes names fragment noted) :
    L.Accounts ([test, yes, no].map .operand) fragment.code noted := by
  simp only [target, Emit.notes_bind, Emit.notes_pure] at h
  obtain ⟨a, noted, ha, _, ⟨b, noted', hb, _, ⟨c, noted'', hc, _, ⟨rfl, rfl⟩, rfl⟩, rfl⟩, rfl⟩ := h
  have hbranches := ((htest.accounts_wrapped ha).joined (by decide : divides " ? ".toList = true)
    (hyes.accounts_wrapped hb)).joined (by decide : divides " : ".toList = true)
    (hno.accounts_wrapped hc)
  simpa [Fragment.operation] using hbranches

/-- An alternative calls its helper and what the candidates call. -/
lemma accounts_alternative {candidates : List Operand} {ty : Ty}
    (hcandidates : ∀ o ∈ candidates, L.Knows names o)
    (h : (target.alternative candidates ty).Notes names fragment noted) :
    L.Accounts (.helper (Helper.snake "alt") :: candidates.map .operand) fragment.code noted := by
  simp only [target, Emit.notes_bind, Emit.notes_pure, Emit.notes_require] at h
  obtain ⟨_, _, rfl, _, ⟨cs, noted, hcs, _, ⟨rfl, rfl⟩, rfl⟩, rfl⟩ := h
  have hrow := ((Ledger.rows_codes hcandidates hcs).map accounts_thunk).separated
  rw [Ledger.flatten_singletons] at hrow
  rw [List.append_nil]
  exact hrow.callOf (by decide)

end Accounts

end Retarget.Ruby
