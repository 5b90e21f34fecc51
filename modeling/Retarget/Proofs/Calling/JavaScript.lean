import Retarget.Proofs.Calling.Ledger
import Retarget.Proofs.Quoting.JavaScript

set_option autoImplicit false

/-!
# Calls and noted helpers in JavaScript

A key that is read by its bare name is code: it must not be spelled like a helper, since the member
may be called.

## Main definitions

* `Retarget.JavaScript.CallForm.shares` — what the code of a call is made of.

## Main results

* `Retarget.JavaScript.accounts_call` — a call calls and notes what its shares do; likewise for the
  other constructs.
-/

namespace Retarget.JavaScript

open Quoting

/-- The functions that helpers are for. -/
def assisted : List String :=
  Helper.selectorFunctions ++ periods.map Prod.snd ++
    ["alt", "add", "sub", "mul", "div", "mod", "pow", "eq", "neg", "duration", "add_duration",
     "sub_duration", "mul_duration", "div_duration", "date_diff"]

/-- The catalogue holds the names of the helpers of the assisted functions. -/
lemma mem_catalogue {name : String} : name ∈ catalogue ↔ name ∈ assisted.map Helper.camel :=
  Helper.mem_sorted

/-- Helpers are spelled with the characters of names. -/
lemma continuesName_of_mem {name : String} (h : name ∈ assisted.map Helper.camel) :
    name.toList.all continuesName = true := by
  have hothers : ∀ function ∈ periods.map Prod.snd ++
      ["alt", "add", "sub", "mul", "div", "mod", "pow", "eq", "neg", "duration", "add_duration",
       "sub_duration", "mul_duration", "div_duration", "date_diff"], isFunction function = true :=
    List.all_eq_true.mp (by cbv)
  obtain ⟨function, hfunction, rfl⟩ := List.mem_map.mp h
  rw [assisted, List.append_assoc] at hfunction
  exact continuesName_camel
    ((List.mem_append.mp hfunction).elim isFunction_of_selector (hothers function))

/-! ## Calls -/

namespace CallForm

/-- The helper that a form calls. -/
def own : CallForm → List String
  | .shared form => form.own
  | _ => []

/-- What the code of a call in a form is made of. -/
def shares (form : CallForm) (site : Site) : List Share :=
  form.own.map .helper ++ (form.written site).map .operand

/-- The text of a form calls no helper but its own, and keeps the names in the codes of the arguments
as they are. -/
def isTidy : CallForm → Bool
  | .shared form => form.isTidy
  | .byTime op => divides (letters ".getTime() " ++ (letters op ++ [' ']))
  | .nullTest _ op => closes (' ' :: (letters op ++ letters " null"))
  | .reduce | .field => true

end CallForm

/-- The text of every form is tidy, its helper is in the catalogue, and only member reads read keys. -/
lemma checks_calls : registry.checks (fun name form => form.isTidy &&
    (form.own.all fun helper => decide (helper ∈ assisted.map Helper.camel)) &&
    (!form.readsKey || name == "field")) = true := by
  decide +kernel

/-- A form that is found calls helpers of assisted functions only. -/
lemma own_mem {name : String} {tags : List Tag} {form : CallForm}
    (hlookup : registry.lookup name tags = .ok form) {helper : String} (h : helper ∈ form.own) :
    helper ∈ assisted.map Helper.camel := by
  have hchecks := Registry.of_checks rfl checks_calls hlookup
  simp only [Bool.and_eq_true, List.all_eq_true] at hchecks
  exact of_decide_eq_true (hchecks.1.2 helper h)

/-- What a call is made of. -/
def callShares (site : Site) : List Share :=
  match registry.lookup site.name site.tags with
  | .ok form => form.shares site
  | .error _ => []

section Accounts

variable {L : Ledger quoting} {names : Bindings} {fragment : Fragment} {noted : List String}

/-- A key that is a name consists of name characters. -/
lemma continuesName_of_isName {key : String} (h : isName key = true) :
    ∀ c ∈ key.toList, continuesName c = true := by
  unfold isName at h
  split at h
  · cases h
  · rename_i c cs heq
    simp only [Bool.and_eq_true, List.all_eq_true] at h
    rw [heq]
    refine List.forall_mem_cons.mpr ⟨?_, h.2⟩
    have hstart := h.1
    simp only [isNameStart, Bool.or_eq_true] at hstart
    rcases hstart with (hletter | hmark) | hmark
    · simp [continuesName, Char.isAlphanum, hletter]
    · simp [continuesName, hmark]
    · simp [continuesName, hmark]

/-- The key of a member read is not spelled like a helper. -/
def KeyAvoids (L : Ledger quoting) (site : Site) : Prop :=
  ∀ key, (site.operand 1).ir.string? = some key → key ∉ L.catalogue

/-- The code of a call in a tidy form calls what its shares call.

**Proof sketch.** Each form writes its arguments with fixed text between and around them. The text
keeps the names in the arguments apart, by the check of the form, so that the shares of the code are
those of the arguments and the helper of the form. -/
lemma accounts_emit {site : Site} {form : CallForm} (hsound : form.isSound = true)
    (hform : form.isTidy = true) (hown : ∀ name ∈ form.own, name.toList.all continuesName = true)
    (hkey : form.readsKey = true → KeyAvoids L site) (hsite : ∀ o ∈ site.operands, L.Knows names o)
    (h : (form.emit site).Notes names fragment noted) :
    L.Accounts (form.shares site) fragment.code noted := by
  have hknows := Ledger.knows_operand hsite
  cases form with
  | shared form => exact Form.accounts_emit hsound hform hown hsite h
  | byTime op =>
    simp only [CallForm.emit, Emit.notes_bind, Emit.notes_pure] at h
    obtain ⟨a, noted, ha, _, ⟨b, noted', hb, _, ⟨rfl, rfl⟩, rfl⟩, rfl⟩ := h
    have hmark : divides (".getTime() " ++ op ++ " ").toList = true := by
      simpa [CallForm.isTidy] using hform
    have hcomparison := (((hknows 0).accounts_wrapped ha).joined hmark
      ((hknows 1).accounts_wrapped hb)).enclosed "" ".getTime()" (by decide) (by decide)
    simpa [CallForm.shares, CallForm.own, CallForm.written, Fragment.operation,
      String.append_assoc] using hcomparison
  | nullTest place op =>
    simp only [CallForm.emit, Emit.notes_bind, Emit.notes_pure] at h
    obtain ⟨value, noted, hvalue, _, ⟨rfl, rfl⟩, rfl⟩ := h
    have hmark : closes (" " ++ op ++ " null").toList = true := by
      simpa [CallForm.isTidy] using hform
    have htest := ((hknows place).accounts_wrapped hvalue).enclosed "" (" " ++ op ++ " null")
      (by decide) hmark
    simpa [CallForm.shares, CallForm.own, CallForm.written, Fragment.operation,
      String.append_assoc] using htest
  -- The code names the function before the start, the shares list the start first.
  | reduce =>
    simp only [CallForm.emit, Emit.notes_bind, Emit.notes_pure] at h
    obtain ⟨receiver, noted, hreceiver, _, ⟨start, noted', hstart, _, ⟨function, noted'', hfunction, _,
      ⟨rfl, rfl⟩, rfl⟩, rfl⟩, rfl⟩ := h
    have hcall := ((((hknows 0).accounts_wrapped hreceiver).joined
      (by decide : divides ".reduce(".toList = true) ((hknows 2).accounts_code hfunction)).joined
      (by decide : divides ", ".toList = true) ((hknows 1).accounts_code hstart)).enclosed "" ")"
      (by decide) (by decide)
    rw [String.empty_append] at hcall
    refine hcall.congr (fun s => ?_) fun n => ?_
    · simp [CallForm.shares, CallForm.own, CallForm.written, or_comm]
    · simp only [List.mem_append, List.not_mem_nil, or_false]
      tauto
  | field =>
    simp only [CallForm.emit, Emit.notes_bind] at h
    obtain ⟨receiver, before, hreceiver, after, h, rfl⟩ := h
    have hreceiver := (hknows 0).accounts_wrapped hreceiver
    -- A key that is a name stands behind a point, where it would be called if it were a helper.
    cases hread : (site.operand 1).ir.string?.filter isName with
    | some key =>
      simp only [hread, Emit.notes_pure] at h
      obtain ⟨rfl, rfl⟩ := h
      obtain ⟨hstring, hname⟩ := Option.filter_eq_some_iff.mp hread
      have hbare : L.Accounts [] key [] :=
        .silent (tells_name (continuesName_of_isName hname) (hkey rfl key hstring))
      simpa [CallForm.shares, CallForm.own, CallForm.written, isBareKey, hread, Fragment.atom] using
        hreceiver.joined (by decide : divides ".".toList = true) hbare
    | none =>
      simp only [hread, Emit.notes_bind, Emit.notes_pure] at h
      obtain ⟨key, noted, hcode, _, ⟨rfl, rfl⟩, rfl⟩ := h
      have hindex := (hreceiver.joined (by decide : divides "[".toList = true)
        ((hknows 1).accounts_code hcode)).enclosed "" "]" (by decide) (by decide)
      simpa [CallForm.shares, CallForm.own, CallForm.written, isBareKey, hread, Fragment.atom] using
        hindex

/-- A call calls and notes what its shares do. -/
theorem accounts_call {site : Site} (hkey : site.name = "field" → KeyAvoids L site)
    (hsite : ∀ o ∈ site.operands, L.Knows names o)
    (h : (target.call site).Notes names fragment noted) :
    L.Accounts (callShares site) fragment.code noted := by
  obtain ⟨form, hlookup, hform⟩ := Registry.exists_of_notes_call h
  have hsound := (Bool.and_eq_true_iff.mp (Registry.of_checks rfl checks_registry hlookup)).1
  have hchecks := Registry.of_checks rfl checks_calls hlookup
  simp only [Bool.and_eq_true] at hchecks
  rw [callShares, hlookup]
  refine accounts_emit hsound hchecks.1.1 (fun _ h => continuesName_of_mem (own_mem hlookup h))
    (fun hreads => hkey ?_) hsite hform
  simpa [hreads] using hchecks.2

/-- The helper of a call is in the catalogue. -/
lemma mem_catalogue_of_callShares {site : Site} {name : String}
    (h : .helper name ∈ callShares site) : name ∈ catalogue := by
  unfold callShares at h
  split at h
  · rename_i form hlookup
    have hown : name ∈ form.own := by simpa [CallForm.shares] using h
    exact mem_catalogue.mpr (own_mem hlookup hown)
  · cases h

/-! ## Constants and names -/

/-- A constant calls the helper that is noted for it, if there is one. -/
lemma accounts_literal {value : Literal} (h : (target.literal value).Notes names fragment noted) :
    L.Accounts ((literalHelpers value).map .helper) fragment.code noted := by
  simp only [target, Emit.notes_bind, Emit.notes_pure, Emit.notes_requireAll] at h
  obtain ⟨_, _, rfl, _, ⟨rfl, rfl⟩, rfl⟩ := h
  rw [List.append_nil]
  have hquote (s : String) : L.Accounts [] (JsonString.quote s) [] :=
    .silent (tells_constant (seals_quote s).spells)
  cases value with
  | int v => exact .silent (tells_toString v)
  | float x => exact .silent (tells_write _ x)
  | bool b => cases b <;> exact .quiet (by decide)
  | string s => exact hquote s
  | date s => exact (hquote s).enclosed "new Date(" ")" (by decide) (by decide)
  | dateTime s => exact (hquote _).enclosed "new Date(" ")" (by decide) (by decide)
  | duration s => exact (hquote s).callOf (by decide)
  | null => exact .quiet (by decide)

/-- A variable, unless it is spelled like a helper. -/
lemma accounts_localName {name : String} (h : IsIdentifier name) (hname : name ∉ L.catalogue) :
    L.Accounts [] (localName name) [] := by
  have hchars := h.continuesName
  have hmark : ∀ c ∈ "$".toList, continuesName c = true :=
    List.forall_iff_forall_mem.mp (by decide)
  have hreserved : ∀ name ∈ reserved, isMarked (name ++ "$") = false := by
    decide
  refine .silent ?_
  unfold localName
  split_ifs with hkeyword
  · refine tells_name ?_ (Catalogue.not_mem (hreserved name hkeyword))
    rw [String.toList_append]
    exact List.forall_mem_append.mpr ⟨hchars, hmark⟩
  · exact tells_name hchars hname

/-! ## Constructs -/

/-- Parameters, unless one is spelled like a helper. -/
lemma accounts_params {params : List String}
    (h : ∀ p ∈ params, IsIdentifier p ∧ p ∉ L.catalogue) :
    L.Accounts [] (commaSeparated (params.map localName)) [] := by
  refine Ledger.accounts_names fun s hs => ?_
  obtain ⟨p, hp, rfl⟩ := List.mem_map.mp hs
  exact accounts_localName (h p hp).1 (h p hp).2

/-- A function calls what its body calls. -/
lemma accounts_arrow {shares : List Share} {params body : String} (hparams : L.Accounts [] params [])
    (h : L.Accounts shares body noted) : L.Accounts shares (arrow params body) noted := by
  have hbody : L.Accounts shares (arrowBody body) noted := by
    unfold arrowBody
    split_ifs
    · exact h.parens
    · exact h
  have hfunction := (hparams.joined (by decide : divides ") => ".toList = true) hbody).enclosed "("
    "" (by decide) (by decide)
  simpa [arrow, String.append_assoc] using hfunction

/-- Bindings call and note what their values and their body do. -/
lemma accounts_bindAround {bindings : List (String × Operand)} {body : Operand} {code : String}
    (hnames : ∀ b ∈ bindings, IsIdentifier b.1 ∧ b.1 ∉ L.catalogue)
    (hvalues : ∀ b ∈ bindings, L.Knows names b.2) (hbody : L.Knows names body)
    (h : (bindAround bindings body.code).Notes names code noted) :
    L.Accounts ((body :: bindings.map Prod.snd).map .operand) code noted := by
  induction bindings generalizing code noted with
  | nil => exact hbody.accounts_code h
  | cons b bindings ih =>
    obtain ⟨hname, hmoreNames⟩ := List.forall_mem_cons.mp hnames
    obtain ⟨hvalue, hmoreValues⟩ := List.forall_mem_cons.mp hvalues
    simp only [bindAround, Emit.notes_bind, Emit.notes_pure] at h
    obtain ⟨inside, before, hinside, _, ⟨value, after, hcode, _, ⟨rfl, rfl⟩, rfl⟩, rfl⟩ := h
    have hfunction := accounts_arrow (accounts_localName hname.1 hname.2)
      (ih hmoreNames hmoreValues hinside)
    have hcall := (hfunction.joined (by decide : divides ")(".toList = true)
      (hvalue.accounts_code hcode)).enclosed "(" ")" (by decide) (by decide)
    simp only [← String.append_assoc] at hcall
    refine hcall.congr (fun s => ?_) fun n => by simp
    simp only [List.map_cons, List.mem_append, List.mem_cons, List.not_mem_nil, or_false]
    tauto

/-- Bindings around a body call what the body and the values call. -/
lemma accounts_letIn {bindings : List (String × Operand)} {body : Operand}
    (hnames : ∀ b ∈ bindings, IsIdentifier b.1 ∧ b.1 ∉ L.catalogue)
    (hvalues : ∀ b ∈ bindings, L.Knows names b.2) (hbody : L.Knows names body)
    (h : (target.letIn bindings body).Notes names fragment noted) :
    L.Accounts ((body :: bindings.map Prod.snd).map .operand) fragment.code noted := by
  simp only [target, Emit.notes_bind, Emit.notes_pure] at h
  obtain ⟨code, noted, hcode, _, ⟨rfl, rfl⟩, rfl⟩ := h
  rw [List.append_nil]
  exact accounts_bindAround hnames hvalues hbody hcode

/-- A function of the source calls what its body calls. -/
lemma accounts_lambda {params : List String} {body : Operand}
    (hparams : ∀ p ∈ params, IsIdentifier p ∧ p ∉ L.catalogue) (hbody : L.Knows names body)
    (h : (target.lambda params body).Notes names fragment noted) :
    L.Accounts [.operand body] fragment.code noted := by
  simp only [target, Emit.notes_bind, Emit.notes_pure] at h
  obtain ⟨code, noted, hcode, _, ⟨rfl, rfl⟩, rfl⟩ := h
  rw [List.append_nil]
  exact accounts_arrow (accounts_params hparams) (hbody.accounts_code hcode)

/-- A conditional calls what its condition and its branches call. -/
lemma accounts_conditional {test yes no : Operand} {ty : Ty} (htest : L.Knows names test)
    (hyes : L.Knows names yes) (hno : L.Knows names no)
    (h : (target.conditional test yes no ty).Notes names fragment noted) :
    L.Accounts ([test, yes, no].map .operand) fragment.code noted := by
  simp only [target, Emit.notes_bind, Emit.notes_pure] at h
  obtain ⟨a, noted, ha, _, ⟨b, noted', hb, _, ⟨c, noted'', hc, _, ⟨rfl, rfl⟩, rfl⟩, rfl⟩, rfl⟩ := h
  have hbranches := ((htest.accounts_wrapped ha).joined (by decide : divides " ? ".toList = true)
    (hyes.accounts_wrapped hb)).joined (by decide : divides " : ".toList = true)
    (hno.accounts_wrapped hc)
  simpa [Fragment.operation] using hbranches

/-- An alternative calls its helper and what the candidates call. -/
lemma accounts_alternative {candidates : List Operand} {ty : Ty}
    (hcandidates : ∀ o ∈ candidates, L.Knows names o)
    (h : (target.alternative candidates ty).Notes names fragment noted) :
    L.Accounts (.helper (Helper.camel "alt") :: candidates.map .operand) fragment.code noted := by
  simp only [target, Emit.notes_bind, Emit.notes_pure, Emit.notes_require] at h
  obtain ⟨_, _, rfl, _, ⟨cs, noted, hcs, _, ⟨rfl, rfl⟩, rfl⟩, rfl⟩ := h
  have hempty : L.Accounts [] "" [] := .quiet (by decide)
  have hrow := ((Ledger.rows_codes hcandidates hcs).map (accounts_arrow hempty)).separated
  rw [Ledger.flatten_singletons] at hrow
  rw [List.append_nil]
  exact hrow.callOf (by decide)

end Accounts

end Retarget.JavaScript
