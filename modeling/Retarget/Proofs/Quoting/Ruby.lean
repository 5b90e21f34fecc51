import Retarget.Proofs.Grouping.Quotation
import Retarget.Proofs.Quoting.Target

set_option autoImplicit false

/-!
# Sealed Ruby code

Ruby constants stand between single quotes, and a backslash there keeps the next character from
closing; before a quote or a backslash it is not part of the text.

## Main definitions

* `Retarget.Ruby.quoting` — the rules of Ruby for quoted constants.
* `Retarget.Ruby.drops` — the arguments that a call does not write.

## Main results

* `Retarget.Ruby.seals` — Ruby makes sealed code of sealed codes.
* `Retarget.Ruby.lists_written` — a call writes all arguments that it does not drop.
-/

namespace Retarget.Ruby

open Quoting

/-! ## Constants -/

/-- The text between single quotes, where a backslash escapes a quote or a backslash and stands for
itself before anything else. -/
def unescaped : List Char → List Char
  | [] => []
  | [c] => [c]
  | c :: d :: cs =>
    if c = '\x5c' ∧ (d = '\x5c' ∨ d = '\x27') then d :: unescaped cs
    else c :: unescaped (d :: cs)

/-- A character other than a backslash stands for itself. -/
lemma unescaped_cons {c : Char} (hc : c ≠ '\x5c') (cs : List Char) :
    unescaped (c :: cs) = c :: unescaped cs := by
  cases cs with
  | nil => rfl
  | cons d ds => rw [unescaped, if_neg fun h => hc h.1]

/-- Escaping is undone. -/
lemma unescaped_escaped (cs : List Char) : unescaped (cs.flatMap escaped) = cs := by
  induction cs with
  | nil => rfl
  | cons c cs ih =>
    rw [List.flatMap_cons, escaped]
    split_ifs with hc
    · rw [List.cons_append, List.singleton_append, unescaped, if_pos ⟨rfl, hc⟩, ih]
    · rw [List.singleton_append, unescaped_cons fun h => hc (.inl h), ih]

/-- The rules of Ruby for constants between single quotes. -/
def quoting : Quoting where
  marks := ['\x27']
  written _ s := (quote s).toList
  constant := Quotation.escaping '\x27'
  denoted taken := some (String.ofList (unescaped (taken.drop 1).dropLast))

/-- A constant is an escaped text between single quotes. -/
lemma toList_quote (s : String) :
    (quote s).toList = '\x27' :: (s.toList.flatMap escaped ++ ['\x27']) := by
  simp [quote]

/-- A text is written as a constant between single quotes. -/
@[simp] lemma quoting_written (mark : Char) (s : String) :
    quoting.written mark s = (quote s).toList := by
  rw [quoting]

/-- A constant ends at a quote that no backslash escapes. -/
lemma quoting_constant : quoting.constant = Quotation.escaping '\x27' := rfl

/-- A constant denotes the text between its quotes without the escapes. -/
lemma quoting_denoted (taken : List Char) :
    quoting.denoted taken = some (String.ofList (unescaped (taken.drop 1).dropLast)) := by
  rw [quoting]

/-- Constants stand between single quotes. -/
lemma eq_of_mem_marks {mark : Char} (h : mark ∈ quoting.marks) : mark = '\x27' :=
  List.mem_singleton.mp h

/-- A text that is written as a constant is read as that constant. -/
theorem lawful : quoting.Lawful where
  marks hmark := by
    rw [eq_of_mem_marks hmark]
    decide
  head hmark s := by
    rw [eq_of_mem_marks hmark, quoting_written, toList_quote]
    exact ⟨_, rfl⟩
  constant _ _ s := by
    rw [quoting_written, quoting_constant, Quotation.escaping_ruby]
  denoted _ s := by
    rw [quoting_written, quoting_denoted, toList_quote, List.drop_succ_cons, List.drop_zero,
      List.dropLast_concat, unescaped_escaped, String.ofList_toList]

/-- A text as a constant. -/
lemma seals_quote (s : String) : quoting.Seals [.constant '\x27' s] (quote s) := by
  have hmark : '\x27' ∈ quoting.marks := List.mem_singleton.mpr rfl
  have hconstant := seals_constant hmark s
  rwa [quoting_written, String.ofList_toList] at hconstant

/-- A constant is sealed. -/
lemma isSealed_quote (s : String) : quoting.IsSealed (quote s) := ⟨_, seals_quote s⟩

/-- The code of a constant is sealed. -/
lemma isSealed_literalCode {value : Literal} (h : value.IsUnsigned) :
    quoting.IsSealed (literalCode value) := by
  have hparsed (opening : String) (hframes : frames opening ")" = true) (s : String) :
      quoting.IsSealed (opening ++ quote s ++ ")") :=
    ((isSealed_quote s).writes []).enclosed opening ")" hframes |>.1
  cases value with
  | int v => exact isSealed_of_isBare (isNumeral_toString h).isInert.isBare
  | float x => exact isSealed_of_isBare (isNumeral_write _ h.1 h.2).isInert.isBare
  | bool b => cases b <;> exact isSealed_of_isBare (by decide)
  | string s => exact isSealed_quote s
  | date s => exact hparsed "Date.iso8601(" (by decide) s
  | dateTime s => exact hparsed "DateTime.iso8601(" (by decide) s
  | duration s => exact hparsed "ActiveSupport::Duration.parse(" (by decide) s
  | null => exact isSealed_of_isBare (by decide)

/-! ## Calls -/

/-- The arguments that a form writes. -/
def CallForm.written : CallForm → Site → List Operand
  | .shared form, site => form.written site
  | .block _, site => site.operand 0 :: site.operands.drop 1
  | .dayShift _, site =>
    match (site.operand 1).ir.literal?.bind Temporal.literalDays? with
    | some _ => [site.operand 0]
    | none => [site.operand 0, site.operand 1]
  | .index, site => [site.operand 0, site.operand 1]

/-- The text of a form closes its brackets and keeps the codes of the arguments apart. -/
def CallForm.isSound : CallForm → Bool
  | .shared form => form.isSound quoting
  | .block text | .dayShift text => isBare text
  | .index => true

/-- The form does not write the argument at a place, whatever that is. -/
def CallForm.omits : CallForm → Nat → Nat → Bool
  | .shared form, count, i => form.omits count i
  | .block _, _, _ => false
  | .dayShift _, _, i | .index, _, i => 1 < i

/-- The form may write an argument as a count of days. -/
def CallForm.countsDays : CallForm → Bool
  | .dayShift _ => true
  | _ => false

/-- The text of every form is sound, only shifts count days, what a form omits is explained by the types, and
failures have one form. -/
lemma registry_passes : (registry.checks (fun name form => form.isSound && (!form.countsDays || isShift name)) &&
    (registry.explains isSettled CallForm.omits && registry.only "fail" [.any] (.shared (.function "raise")))) = true := by
  decide +kernel

/-- All forms are sound, and only shifts of dates count days. -/
lemma checks_registry :
    registry.checks (fun name form => form.isSound && (!form.countsDays || isShift name)) = true :=
  (Bool.and_eq_true_iff.mp registry_passes).1

/-- What a form omits is explained by the types of its arguments. -/
lemma explains_registry : registry.explains isSettled CallForm.omits = true :=
  (Bool.and_eq_true_iff.mp (Bool.and_eq_true_iff.mp registry_passes).2).1

/-- A failure is a call of `raise`. -/
lemma only_fail : registry.only "fail" [.any] (.shared (.function "raise")) = true :=
  (Bool.and_eq_true_iff.mp (Bool.and_eq_true_iff.mp registry_passes).2).2

section Calls

variable {names : Bindings} {site : Site} {fragment : Fragment}

/-- A mark in front of the last of a row of codes. -/
lemma forall₂_withBlock {groups : List (List Operand)} {cs : List String}
    (h : List.Forall₂ (quoting.Writes names) groups cs) :
    List.Forall₂ (quoting.Writes names) groups (withBlock cs) := by
  induction h with
  | nil => exact .nil
  | @cons os c groups cs hc hcs ih =>
    cases hcs with
    | nil =>
      refine .cons ?_ .nil
      simpa using hc.enclosed "&" "" (by decide)
    | cons hd hcs => exact .cons hc ih

/-- Writing a call gives sealed code in which the codes of the arguments stand that its form
writes.

**Proof sketch.** By cases on the form, each by the parts of its text (`writes_of_parts`). A shift
by a literal count of days writes the number in place of the argument; numerals are bare. -/
lemma writes_emit {form : CallForm} (hform : form.isSound = true)
    (hsite : ∀ o ∈ site.operands, o.Sound quoting names)
    (h : (form.emit site).Succeeds names fragment) :
    quoting.Writes names (form.written site) fragment.code := by
  have hsound := site.sound_operand hsite
  cases form with
  | shared form => exact Form.writes_emit hform hsite h
  | block text =>
    simp only [CallForm.emit, Emit.succeeds_bind, Emit.succeeds_pure] at h
    obtain ⟨receiver, hreceiver, cs, hcs, rfl⟩ := h
    have hreceiver := (hsound 0).writes_wrapped hreceiver
    have hrow := writes_commaSeparated
      (forall₂_withBlock (forall₂_codes (fun o ho => hsite o (List.mem_of_mem_drop ho)) hcs))
    rw [flatten_map_singleton] at hrow
    exact writes_of_parts
      [.code receiver [_], .bare text, .text "(", .code _ (site.operands.drop 1), .text ")"] rfl
      (by simp [Part.chars, Fragment.atom]) ⟨hreceiver, hform, trivial, hrow, trivial⟩
      (by simp [Part.carried, CallForm.written])
  | dayShift op =>
    simp only [CallForm.emit, Emit.succeeds_bind] at h
    obtain ⟨lhs, hlhs, h⟩ := h
    have hlhs := (hsound 0).writes_wrapped hlhs
    -- Both ways to write the days share the text around them.
    have hwritten {os : List Operand} {rhs : String} (hrhs : quoting.Writes names os rhs) :
        quoting.Writes names (site.operand 0 :: os) (lhs ++ " " ++ op ++ " " ++ rhs) :=
      writes_of_parts [.code lhs [_], .text " ", .bare op, .text " ", .code rhs os] rfl
        (by simp [Part.chars]) ⟨hlhs, trivial, hform, trivial, hrhs⟩ (by simp [Part.carried])
    unfold CallForm.written
    cases hdays : (site.operand 1).ir.literal?.bind Temporal.literalDays? with
    | some days =>
      simp only [hdays, Emit.succeeds_bind, Emit.succeeds_pure, exists_eq_left'] at h ⊢
      subst h
      exact hwritten ((isSealed_of_isBare (isNumeral_toString_nat days).isInert.isBare).writes names)
    | none =>
      simp only [hdays, Emit.succeeds_bind, Emit.succeeds_pure] at h ⊢
      obtain ⟨rhs, hrhs, rfl⟩ := h
      exact hwritten ((hsound 1).writes_wrapped hrhs)
  | index =>
    simp only [CallForm.emit, Emit.succeeds_bind, Emit.succeeds_pure] at h
    obtain ⟨receiver, hreceiver, key, hkey, rfl⟩ := h
    exact writes_of_parts [.code receiver [_], .text "[", .code key [_], .text "]"] rfl
      (by simp [Part.chars, Fragment.atom])
      ⟨(hsound 0).writes_wrapped hreceiver, trivial, (hsound 1).writes_code hkey, trivial⟩
      (by simp [Part.carried, CallForm.written])

/-- The form of a call writes its arguments. -/
lemma writes_call (hsite : ∀ o ∈ site.operands, o.Sound quoting names)
    (h : (target.call site).Succeeds names fragment) :
    ∃ form, registry.lookup site.name site.tags = .ok form ∧
      quoting.Writes names (form.written site) fragment.code := by
  obtain ⟨form, hlookup, hform⟩ := Registry.exists_of_call h
  have hchecks := Registry.of_checks rfl checks_registry hlookup
  exact ⟨form, hlookup, writes_emit (Bool.and_eq_true_iff.mp hchecks).1 hsite hform⟩

end Calls

/-! ## Arguments that calls drop -/

/-- A call does not write the argument at the place: the type of the value settles it, it is a key
without a value, or it is a duration that may be written as a count of days. -/
def drops (name : String) (args : List Ir) (argTypes : List Ty) (i : Nat) : Bool :=
  isSettled name (argTypes.map Ty.tag) i || isLoneKey name args.length i ||
    (isShift name && args[i]?.any Ir.isDuration)

/-- Of the forms for any number of arguments only a record omits one. -/
lemma omits_variadics (name : String) (least : Nat) (form : CallForm)
    (h : (name, least, form) ∈ registry.variadics) (count i : Nat)
    (homits : form.omits count i = true) : isLoneKey name count i = true := by
  have hvariadics : registry.variadics = [("invoke", 1, .shared (.method ".call")),
      ("record", 0, .shared (.record " => ")), ("array", 0, .shared (.sequence "[" "]"))] := rfl
  rw [hvariadics] at h
  simp only [List.mem_cons, Prod.mk.injEq, List.not_mem_nil, or_false] at h
  rcases h with ⟨rfl, rfl, rfl⟩ | ⟨rfl, rfl, rfl⟩ | ⟨rfl, rfl, rfl⟩
  · cases homits
  · exact homits
  · cases homits

/-- A form writes all arguments that it does not omit, but for a count of days. -/
lemma CallForm.lists_written (form : CallForm) (site : Site) :
    site.Lists (form.written site) fun i => form.omits site.operands.length i = false ∧
      (form.countsDays = true → (site.operand i).ir.isDuration = false) := by
  cases form with
  | shared form => exact (form.lists_written site).imp fun _ _ h => h.1
  | block text => exact (Form.lists_written (.method text) site).imp fun _ _ _ => rfl
  | dayShift op =>
    have hboth : site.Lists [site.operand 0, site.operand 1] fun i => decide (1 < i) = false :=
      Form.lists_written (.infixOp op) site
    simp only [CallForm.written]
    split
    · rename_i days hcount
      refine Site.lists_map [0] fun i _ ⟨homits, hdays⟩ => ?_
      rcases i with - | - | i
      · exact List.mem_cons_self
      · rw [Ir.isDuration_of_literalDays hcount] at hdays
        cases hdays rfl
      · simp [CallForm.omits] at homits
    · exact hboth.imp fun _ _ h => h.1
  | index => exact (Form.lists_written (.infixOp "") site).imp fun _ _ h => h.1

/-- A call writes all arguments that it does not drop.

**Proof sketch.** As in `CallForm.lists_written` the form writes what it does not omit. What it
omits is explained by the registry as a settled test or a lone key of a record, and days that are
written as a number are dropped. -/
lemma lists_written {name : String} {args : List Ir} {argTypes : List Ty} {form : CallForm}
    (hlookup : registry.lookup name (argTypes.map Ty.tag) = .ok form)
    (hlength : argTypes.length = args.length) (ty : Ty) :
    Site.Lists ⟨name, Target.operands target args, argTypes, ty⟩
      (form.written ⟨name, Target.operands target args, argTypes, ty⟩)
      fun i => drops name args argTypes i = false := by
  refine (form.lists_written _).imp fun i hi hdrops => ?_
  have hcount : (argTypes.map Ty.tag).length = (Target.operands target args).length := by
    rw [List.length_map, Target.length_operands, hlength]
  simp only [drops, Bool.or_eq_false_iff] at hdrops
  obtain ⟨⟨hsettled, hrecord⟩, hshift⟩ := hdrops
  rw [← Target.length_operands target, ← hcount] at hrecord
  rw [← hcount] at hi
  refine ⟨?_, fun hdays => ?_⟩
  · rw [← hcount]
    exact Registry.omits_eq_false rfl isSettled (fun _ _ _ _ => isSettled_of_covers)
      explains_registry isLoneKey omits_variadics hlookup hi hsettled hrecord
  · have hchecks := Registry.of_checks rfl checks_registry hlookup
    have hname := (Bool.and_eq_true_iff.mp hchecks).2
    simp only [hdays, Bool.not_true, Bool.false_or] at hname
    rw [hcount, Target.length_operands] at hi
    have hoperand : Site.operand ⟨name, Target.operands target args, argTypes, ty⟩ i =
        target.operand args[i] :=
      Site.operand_eq (target.getElem?_operands (List.getElem?_eq_getElem hi))
    rw [hoperand]
    simpa [hname, List.getElem?_eq_getElem hi, Target.operand] using hshift

/-! ## The target -/

/-- A variable holds neither quotes nor brackets. -/
lemma isInert_localName {name : String} (h : IsIdentifier name) : IsInert (localName name) := by
  have hmark : IsInert "_" := isInert_of_all (by decide)
  unfold localName
  split_ifs
  · exact h.isInert.append hmark
  · exact hmark.append h.isInert
  · exact h.isInert

section Constructs

variable {names : Bindings} {os : List Operand} {body : String}

/-- A function around a body. -/
lemma writes_arrow {params : String} (hparams : IsInert params) (h : quoting.Writes names os body) :
    quoting.Writes names os (arrow params body) :=
  writes_of_parts
    [.text "->(", .bare params, .text ") \x7b ", .code body os, .text " \x7d"] rfl
    (by simp [Part.chars, arrow]) ⟨trivial, hparams.isBare, trivial, h, trivial⟩
    (by simp [Part.carried])

/-- A function without parameters around a body. -/
lemma writes_thunk (h : quoting.Writes names os body) : quoting.Writes names os (thunk body) :=
  h.enclosed "-> \x7b " " \x7d" (by decide)

/-- Bindings write their values and what is written in their scope. -/
lemma writes_bindAround {bindings : List (String × Operand)} {inner : Emit String}
    (hnames : ∀ b ∈ bindings, IsIdentifier b.1) (hvalues : ∀ b ∈ bindings, b.2.Sound quoting names)
    (hinner : ∀ code, inner.Succeeds names code → quoting.Writes names os code) {code : String}
    (h : (bindAround bindings inner).Succeeds names code) :
    quoting.Writes names (bindings.map Prod.snd ++ os) code := by
  induction bindings generalizing code with
  | nil => exact hinner code h
  | cons b bindings ih =>
    obtain ⟨hname, hmoreNames⟩ := List.forall_mem_cons.mp hnames
    obtain ⟨hvalue, hmoreValues⟩ := List.forall_mem_cons.mp hvalues
    simp only [bindAround, Emit.succeeds_bind, Emit.succeeds_pure] at h
    obtain ⟨inside, hinside, value, hcode, rfl⟩ := h
    have hfunction := writes_arrow (isInert_localName hname) (ih hmoreNames hmoreValues hinside)
    -- The value stands behind the function that its name is a parameter of.
    have horder : (b.2 :: (bindings.map Prod.snd ++ os)).Subperm
        ((bindings.map Prod.snd ++ os) ++ [b.2]) :=
      (List.perm_append_singleton b.2 _).symm.subperm
    exact writes_of_parts
      [.code _ (bindings.map Prod.snd ++ os), .text ".call(", .code value [b.2], .text ")"] rfl
      (by simp [Part.chars]) ⟨hfunction, trivial, hvalue.writes_code hcode, trivial⟩
      (by simpa [Part.carried] using horder)

end Constructs

section Target

variable {names : Bindings} {fragment : Fragment}

/-- Bindings write their values and their body. -/
lemma writes_letIn {bindings : List (String × Operand)} {body : Operand}
    (hnames : ∀ b ∈ bindings, IsIdentifier b.1) (hvalues : ∀ b ∈ bindings, b.2.Sound quoting names)
    (hbody : body.Sound quoting names) (h : (target.letIn bindings body).Succeeds names fragment) :
    quoting.Writes names (bindings.map Prod.snd ++ [body]) fragment.code := by
  simp only [target, Emit.succeeds_bind, Emit.succeeds_pure] at h
  obtain ⟨code, hcode, rfl⟩ := h
  exact writes_bindAround hnames hvalues (fun code hcode => hbody.writes_code hcode) hcode

/-- A function writes its body. -/
lemma writes_lambda {params : List String} {body : Operand} (hparams : ∀ p ∈ params, IsIdentifier p)
    (hbody : body.Sound quoting names) (h : (target.lambda params body).Succeeds names fragment) :
    quoting.Writes names [body] fragment.code := by
  simp only [target, Emit.succeeds_bind] at h
  obtain ⟨code, hcode, h⟩ := h
  have hcode := hbody.writes_code hcode
  split_ifs at h
  · rw [← Emit.succeeds_pure.mp h]
    exact writes_thunk hcode
  · rw [← Emit.succeeds_pure.mp h]
    refine writes_arrow (isInert_commaSeparated fun s hs => ?_) hcode
    obtain ⟨p, hp, rfl⟩ := List.mem_map.mp hs
    exact isInert_localName (hparams p hp)

/-- A conditional writes its condition and both branches. -/
lemma writes_conditional {test yes no : Operand} {ty : Ty} (htest : test.Sound quoting names)
    (hyes : yes.Sound quoting names) (hno : no.Sound quoting names)
    (h : (target.conditional test yes no ty).Succeeds names fragment) :
    quoting.Writes names [test, yes, no] fragment.code := by
  simp only [target, Emit.succeeds_bind, Emit.succeeds_pure] at h
  obtain ⟨a, ha, b, hb, c, hc, rfl⟩ := h
  exact writes_of_parts
    [.code a [test], .text " ? ", .code b [yes], .text " : ", .code c [no]] rfl
    (by simp [Part.chars, Fragment.operation])
    ⟨htest.writes_wrapped ha, trivial, hyes.writes_wrapped hb, trivial,
      hno.writes_wrapped hc⟩ (by simp [Part.carried])

/-- An alternative writes all candidates. -/
lemma writes_alternative {candidates : List Operand} {ty : Ty}
    (hcandidates : ∀ o ∈ candidates, o.Sound quoting names)
    (h : (target.alternative candidates ty).Succeeds names fragment) :
    quoting.Writes names candidates fragment.code := by
  simp only [target, Emit.succeeds_bind, Emit.succeeds_pure, Emit.succeeds_require] at h
  obtain ⟨-, -, cs, hcs, rfl⟩ := h
  have hthunks : List.Forall₂ (quoting.Writes names) (candidates.map ([·])) (cs.map thunk) :=
    List.forall₂_map_right_iff.mpr ((forall₂_codes hcandidates hcs).imp fun _ _ => writes_thunk)
  have hrow := writes_commaSeparated hthunks
  rw [flatten_map_singleton] at hrow
  exact hrow.enclosed (Helper.snake "alt" ++ "(") ")" (by decide)

end Target

/-- Ruby makes sealed code of sealed codes. -/
theorem seals : target.Seals quoting where
  literal hvalue h := by
    simp only [target, Emit.succeeds_pure] at h
    subst h
    exact isSealed_literalCode hvalue
  variableCode hname := isSealed_of_isBare (isInert_localName hname).isBare
  letIn hnames hvalues hbody hsealed h :=
    (writes_letIn hnames (fun b hb => hvalues b hb _ hsealed) (hbody _ hsealed) h).1
  lambda hparams hbody h := (writes_lambda hparams hbody h).1
  conditional htest hyes hno h := (writes_conditional htest hyes hno h).1
  alternative hcandidates h := (writes_alternative hcandidates h).1
  call hsite h := by
    obtain ⟨form, -, hwrites⟩ := writes_call hsite h
    exact hwrites.1

end Retarget.Ruby
