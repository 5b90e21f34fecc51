import Retarget.Proofs.Quoting.Target
import Retarget.Target.JavaScript

set_option autoImplicit false

/-!
# Sealed JavaScript code

JavaScript constants stand between double quotes, with the escapes of JSON.

## Main definitions

* `Retarget.JavaScript.quoting` — the rules of JavaScript for quoted constants.
* `Retarget.JavaScript.drops` — the arguments that a call does not write.

## Main results

* `Retarget.JsonString.scanBody_body`, `Retarget.JsonString.text?_body` — a text with its escapes is
  read as it was written.
* `Retarget.JavaScript.seals` — JavaScript makes sealed code of sealed codes.
* `Retarget.JavaScript.lists_written` — a call writes all arguments that it does not drop.
-/

namespace Retarget

open Quoting

/-! ## Escapes -/

namespace JsonString

/-- The characters are read as one character inside of quotes. -/
structure Spells (chunk : List Char) (c : Char) : Prop where
  scans : ∀ rest, scanBody (chunk ++ rest) =
    (scanBody rest).map fun p => (chunk ++ p.1, p.2)
  denotes : ∀ rest, chars? (chunk ++ rest) = (chars? rest).map (c :: ·)

/-- An escape of one letter. -/
lemma spells_letter {letter c : Char} (hu : letter ≠ 'u') (h : simpleEscape? letter = some c) :
    Spells ['\x5c', letter] c where
  scans rest := by
    rw [List.cons_append, List.singleton_append, scanBody, if_neg (by decide), if_pos rfl]
    · rw [h]
      cases scanBody rest <;> rfl
    · exact fun _ _ _ _ _ hletter _ => hu hletter
  denotes rest := by
    rw [List.cons_append, List.singleton_append, chars?, if_pos rfl]
    · rw [h]
    · exact fun _ _ _ _ _ hletter _ => hu hletter

/-- An escape of a small code point. -/
lemma spells_control {c : Char} (hc : c.toNat < 32) :
    Spells (['\x5c', 'u', '0', '0'] ++ twoHexDigits c.toNat) c := by
  have hdigits : ∀ n < 32, fourHexDigits? '0' '0' (Nat.digitChar (n / 16)) (Nat.digitChar (n % 16)) =
      some n := by decide
  have hvalue := hdigits c.toNat hc
  have hhigh : isHighSurrogate c.toNat = false := by
    simp [isHighSurrogate]
    omega
  have hlow : isLowSurrogate c.toNat = false := by
    simp [isLowSurrogate]
    omega
  constructor
  · intro rest
    simp only [twoHexDigits, List.cons_append, List.nil_append]
    rw [scanBody, if_neg (by decide), if_pos rfl]
    simp only [hvalue]
    cases scanBody rest <;> rfl
  · intro rest
    simp only [twoHexDigits, List.cons_append, List.nil_append]
    rw [chars?, if_pos rfl]
    simp only [hvalue, hhigh, hlow, Bool.false_eq_true, ↓reduceIte, Char.ofNat_toNat]

/-- A character that stands for itself. -/
lemma spells_plain {c : Char} (hquote : c ≠ '\x22') (hslash : c ≠ '\x5c') (hcontrol : ¬c.toNat < 32) :
    Spells [c] c where
  scans rest := by
    rw [List.singleton_append, scanBody.eq_def]
    simp only [if_neg hquote, if_neg hslash, if_neg hcontrol]
    cases scanBody rest <;> rfl
  denotes rest := by
    rw [List.singleton_append, chars?.eq_def]
    simp only [if_neg hslash]

/-- An escaped character is read as that character. -/
lemma spells_escaped (c : Char) : Spells (escaped c) c := by
  unfold escaped
  split_ifs with h hn hr ht hb hf hcontrol
  · rcases h with rfl | rfl <;> exact spells_letter (by decide) rfl
  · subst hn
    exact spells_letter (by decide) rfl
  · subst hr
    exact spells_letter (by decide) rfl
  · subst ht
    exact spells_letter (by decide) rfl
  · subst hb
    exact spells_letter (by decide) rfl
  · subst hf
    exact spells_letter (by decide) rfl
  · exact spells_control hcontrol
  · push Not at h
    exact spells_plain h.1 h.2 hcontrol

/-- A text with its escapes ends where the quote behind it closes. -/
theorem scanBody_body (s : String) (rest : List Char) :
    scanBody (body s ++ '\x22' :: rest) = some (body s, rest) := by
  unfold body
  induction s.toList with
  | nil =>
    rw [List.flatMap_nil, List.nil_append, scanBody.eq_def]
    rfl
  | cons c cs ih =>
    rw [List.flatMap_cons, List.append_assoc, (spells_escaped c).scans, ih]
    rfl

/-- A text with its escapes denotes that text. -/
theorem text?_body (s : String) : text? (body s) = some s := by
  have hchars (cs : List Char) : chars? (cs.flatMap escaped) = some cs := by
    induction cs with
    | nil => rfl
    | cons c cs ih =>
      rw [List.flatMap_cons, (spells_escaped c).denotes, ih]
      rfl
  rw [text?, body, hchars, Option.map_some, String.ofList_toList]

end JsonString

namespace JavaScript

/-! ## Constants -/

/-- The constant at the start of a code, if it is well formed and ends. -/
def constant : Scan
  | [] => none
  | c :: cs =>
    if c = '\x22' then (JsonString.scanBody cs).map fun p => (c :: (p.1 ++ [c]), p.2) else none

/-- The rules of JavaScript for constants between double quotes. -/
def quoting : Quoting where
  marks := ['\x22']
  written _ s := (JsonString.quote s).toList
  constant := constant
  denoted taken := JsonString.text? (taken.drop 1).dropLast

/-- A constant is an escaped text between double quotes. -/
lemma toList_quote (s : String) :
    (JsonString.quote s).toList = '\x22' :: (JsonString.body s ++ ['\x22']) := by
  simp [JsonString.quote]

/-- A text is written as a constant of JSON. -/
lemma quoting_written (mark : Char) (s : String) :
    quoting.written mark s = (JsonString.quote s).toList := by
  rw [quoting]

/-- A constant ends as the scan of constants says. -/
lemma quoting_constant : quoting.constant = constant := rfl

/-- A constant denotes the text of JSON between its quotes. -/
lemma quoting_denoted (taken : List Char) :
    quoting.denoted taken = JsonString.text? (taken.drop 1).dropLast := by
  rw [quoting]

/-- Constants stand between double quotes. -/
lemma eq_of_mem_marks {mark : Char} (h : mark ∈ quoting.marks) : mark = '\x22' :=
  List.mem_singleton.mp h

/-- A text that is written as a constant is read as that constant. -/
theorem lawful : quoting.Lawful where
  marks hmark := by
    rw [eq_of_mem_marks hmark]
    decide
  head hmark s := by
    rw [eq_of_mem_marks hmark, quoting_written, toList_quote]
    exact ⟨_, rfl⟩
  constant _ _ s := by
    rw [quoting_written, quoting_constant, toList_quote, List.cons_append, List.append_assoc,
      List.singleton_append, constant, if_pos rfl, JsonString.scanBody_body]
    rfl
  denoted _ s := by
    rw [quoting_written, quoting_denoted, toList_quote, List.drop_succ_cons, List.drop_zero,
      List.dropLast_concat, JsonString.text?_body]

/-- A text as a constant. -/
lemma seals_quote (s : String) : quoting.Seals [.constant '\x22' s] (JsonString.quote s) := by
  have hmark : '\x22' ∈ quoting.marks := List.mem_singleton.mpr rfl
  have hconstant := seals_constant hmark s
  rwa [quoting_written, String.ofList_toList] at hconstant

/-- A constant is sealed. -/
lemma isSealed_quote (s : String) : quoting.IsSealed (JsonString.quote s) := ⟨_, seals_quote s⟩

/-- The code of a constant is sealed. -/
lemma isSealed_literalCode {value : Literal} (h : value.IsUnsigned) :
    quoting.IsSealed (literalCode value) := by
  have hparsed (opening : String) (hframes : frames opening ")" = true) (s : String) :
      quoting.IsSealed (opening ++ JsonString.quote s ++ ")") :=
    ((isSealed_quote s).writes []).enclosed opening ")" hframes |>.1
  cases value with
  | int v => exact isSealed_of_isBare (isNumeral_toString h).isInert.isBare
  | float x => exact isSealed_of_isBare (isNumeral_write _ h.1 h.2).isInert.isBare
  | bool b => cases b <;> exact isSealed_of_isBare (by decide)
  | string s => exact isSealed_quote s
  | date s => exact hparsed "new Date(" (by decide) s
  | dateTime s => exact hparsed "new Date(" (by decide) _
  | duration s => exact hparsed (Helper.camel "duration" ++ "(") (by decide) s
  | null => exact isSealed_of_isBare (by decide)

/-! ## Calls -/

/-- A key that is read by its bare name. -/
def isBareKey (ir : Ir) : Bool := (ir.string?.filter isName).isSome

/-- The arguments that a form writes. -/
def CallForm.written : CallForm → Site → List Operand
  | .shared form, site => form.written site
  | .byTime _, site => [site.operand 0, site.operand 1]
  | .nullTest place _, site => [site.operand place]
  | .reduce, site => [site.operand 0, site.operand 1, site.operand 2]
  | .field, site =>
    if isBareKey (site.operand 1).ir then [site.operand 0] else [site.operand 0, site.operand 1]

/-- The text of a form closes its brackets and keeps the codes of the arguments apart. -/
def CallForm.isSound : CallForm → Bool
  | .shared form => form.isSound quoting
  | .byTime op | .nullTest _ op => isBare op
  | .reduce | .field => true

/-- The form does not write the argument at a place, whatever that is. -/
def CallForm.omits : CallForm → Nat → Nat → Bool
  | .shared form, count, i => form.omits count i
  | .byTime _, _, i | .field, _, i => 1 < i
  | .nullTest place _, _, i => i != place
  | .reduce, _, i => 2 < i

/-- A key that the form reads by its bare name is no code. -/
def CallForm.readsKey : CallForm → Bool
  | .field => true
  | _ => false

/-- What the types of the arguments say about one that is not written: the type of the value settles
it, or it is of the type of null in a test of equality. -/
def explained (name : String) (tags : List Tag) (i : Nat) : Bool :=
  isSettled name tags i || isNullSide name tags i

/-- The text of every form is sound, only member reads read keys, what a form omits is explained by the types, and
failures have one form. -/
lemma registry_passes : (registry.checks (fun name form => form.isSound && (!form.readsKey || name == "field")) &&
    (registry.explains mayExplain CallForm.omits && registry.only "fail" [.any]
      (.shared (.enclosed "(() => \x7b throw new Error(" .identity "); \x7d)()" none)))) = true := by
  decide +kernel

/-- All forms are sound, and only member reads look at their key. -/
lemma checks_registry :
    registry.checks (fun name form => form.isSound && (!form.readsKey || name == "field")) = true :=
  (Bool.and_eq_true_iff.mp registry_passes).1

/-- What a form omits is explained by the types of its arguments. -/
lemma explains_registry : registry.explains mayExplain CallForm.omits = true :=
  (Bool.and_eq_true_iff.mp (Bool.and_eq_true_iff.mp registry_passes).2).1

/-- A failure throws an error inside of a function that is called at once. -/
lemma only_fail : registry.only "fail" [.any]
      (.shared (.enclosed "(() => \x7b throw new Error(" .identity "); \x7d)()" none)) = true :=
  (Bool.and_eq_true_iff.mp (Bool.and_eq_true_iff.mp registry_passes).2).2

/-- A bare key holds neither quotes nor brackets. -/
lemma isInert_of_isName {key : String} (h : isName key = true) : IsInert key := by
  intro c hc
  unfold isName at h
  split at h
  · cases h
  · rename_i d ds heq
    rw [heq] at hc
    simp only [Bool.and_eq_true, List.all_eq_true] at h
    rcases List.mem_cons.mp hc with rfl | hc
    · exact not_mem_delimiters (by decide) h.1
    · exact not_mem_delimiters (by decide) (h.2 c hc)

section Calls

variable {names : Bindings} {site : Site} {fragment : Fragment}

/-- Writing a call gives sealed code in which the codes of the arguments stand that its form
writes.

**Proof sketch.** By cases on the form, each by the parts of its text (`writes_of_parts`). `reduce`
writes its arguments in another order than they come in, and a field whose key is a name writes this
key as bare text, so the argument itself is not among the written ones. -/
lemma writes_emit {form : CallForm} (hform : form.isSound = true)
    (hsite : ∀ o ∈ site.operands, o.Sound quoting names)
    (h : (form.emit site).Succeeds names fragment) :
    quoting.Writes names (form.written site) fragment.code := by
  have hsound := site.sound_operand hsite
  cases form with
  | shared form => exact Form.writes_emit hform hsite h
  | byTime op =>
    simp only [CallForm.emit, Emit.succeeds_bind, Emit.succeeds_pure] at h
    obtain ⟨a, ha, b, hb, rfl⟩ := h
    exact writes_of_parts
      [.code a [_], .text ".getTime() ", .bare op, .text " ", .code b [_], .text ".getTime()"] rfl
      (by simp [Part.chars, Fragment.operation])
      ⟨(hsound 0).writes_wrapped ha, trivial, hform, trivial,
        (hsound 1).writes_wrapped hb, trivial⟩
      (by simp [Part.carried, CallForm.written])
  | nullTest place op =>
    simp only [CallForm.emit, Emit.succeeds_bind, Emit.succeeds_pure] at h
    obtain ⟨value, hvalue, rfl⟩ := h
    exact writes_of_parts [.code value [_], .text " ", .bare op, .text " null"] rfl
      (by simp [Part.chars, Fragment.operation])
      ⟨(hsound place).writes_wrapped hvalue, trivial, hform, trivial⟩
      (by simp [Part.carried, CallForm.written])
  | reduce =>
    simp only [CallForm.emit, Emit.succeeds_bind, Emit.succeeds_pure] at h
    obtain ⟨receiver, hreceiver, start, hstart, function, hfunction, rfl⟩ := h
    have horder : [site.operand 0, site.operand 1, site.operand 2].Subperm
        [site.operand 0, site.operand 2, site.operand 1] :=
      ((List.Perm.swap _ _ []).cons _).subperm
    exact writes_of_parts
      [.code receiver [_], .text ".reduce(", .code function [_], .text ", ", .code start [_],
        .text ")"] rfl
      (by simp [Part.chars, Fragment.atom])
      ⟨(hsound 0).writes_wrapped hreceiver, trivial, (hsound 2).writes_code hfunction, trivial,
        (hsound 1).writes_code hstart, trivial⟩
      (by simpa [Part.carried, CallForm.written] using horder)
  | field =>
    simp only [CallForm.emit, Emit.succeeds_bind] at h
    obtain ⟨receiver, hreceiver, h⟩ := h
    have hreceiver := (hsound 0).writes_wrapped hreceiver
    -- A key that is a name stands behind a dot, any other one between brackets as code.
    cases hkey : (site.operand 1).ir.string?.filter isName with
    | some key =>
      simp only [hkey, Emit.succeeds_pure] at h
      subst h
      have hinert := isInert_of_isName (Option.filter_eq_some_iff.mp hkey).2
      exact writes_of_parts [.code receiver [_], .text ".", .bare key] rfl
        (by simp [Part.chars, Fragment.atom]) ⟨hreceiver, trivial, hinert.isBare⟩
        (by simp [Part.carried, CallForm.written, isBareKey, hkey])
    | none =>
      simp only [hkey, Emit.succeeds_bind, Emit.succeeds_pure] at h
      obtain ⟨key, hcode, rfl⟩ := h
      exact writes_of_parts [.code receiver [_], .text "[", .code key [_], .text "]"] rfl
        (by simp [Part.chars, Fragment.atom])
        ⟨hreceiver, trivial, (hsound 1).writes_code hcode, trivial⟩
        (by simp [Part.carried, CallForm.written, isBareKey, hkey])

/-- The form of a call writes its arguments. -/
lemma writes_call (hsite : ∀ o ∈ site.operands, o.Sound quoting names)
    (h : (target.call site).Succeeds names fragment) :
    ∃ form, registry.lookup site.name site.tags = .ok form ∧
      quoting.Writes names (form.written site) fragment.code := by
  obtain ⟨form, hlookup, hform⟩ := Registry.exists_of_call h
  have hchecks := Registry.of_checks rfl checks_registry hlookup
  exact ⟨form, hlookup, writes_emit (Bool.and_eq_true_iff.mp hchecks).1 hsite hform⟩

end Calls

/-! ## Arguments that calls drop -/

/-- A call does not write the argument at the place: the types explain it, it is a key without a value,
or it is a key that is read by its bare name. -/
def drops (name : String) (args : List Ir) (argTypes : List Ty) (i : Nat) : Bool :=
  explained name (argTypes.map Ty.tag) i || isLoneKey name args.length i ||
    (name == "field" && args[i]?.any isBareKey)

/-- Of two sides of the type of null a test of equality writes the right one. -/
lemma omits_nulls (name : String) (hname : name ∈ ["eq", "neq"]) (form : CallForm)
    (h : registry.lookup name [.null, .null] = .ok form) : form.omits 2 1 = false := by
  have heq : registry.lookup "eq" [.null, .null] = .ok (.nullTest 1 "==") := rfl
  have hneq : registry.lookup "neq" [.null, .null] = .ok (.nullTest 1 "!=") := rfl
  simp only [List.mem_cons, List.not_mem_nil, or_false] at hname
  rcases hname with rfl | rfl
  · cases heq.symm.trans h
    rfl
  · cases hneq.symm.trans h
    rfl

/-- Of the forms for any number of arguments only a record omits one. -/
lemma omits_variadics (name : String) (least : Nat) (form : CallForm)
    (h : (name, least, form) ∈ registry.variadics) (count i : Nat)
    (homits : form.omits count i = true) : isLoneKey name count i = true := by
  have hvariadics : registry.variadics = [("invoke", 1, .shared (.method "")),
      ("record", 0, .shared (.record ": ")), ("array", 0, .shared (.sequence "[" "]"))] := rfl
  rw [hvariadics] at h
  simp only [List.mem_cons, Prod.mk.injEq, List.not_mem_nil, or_false] at h
  rcases h with ⟨rfl, rfl, rfl⟩ | ⟨rfl, rfl, rfl⟩ | ⟨rfl, rfl, rfl⟩
  · cases homits
  · exact homits
  · cases homits

/-- A form writes all arguments that it does not omit, but for a bare key. -/
lemma CallForm.lists_written (form : CallForm) (site : Site) :
    site.Lists (form.written site) fun i => form.omits site.operands.length i = false ∧
      (form.readsKey = true → isBareKey (site.operand i).ir = false) := by
  cases form with
  | shared form => exact (form.lists_written site).imp fun _ _ h => h.1
  | byTime op => exact (Form.lists_written (.infixOp op) site).imp fun _ _ h => h.1
  | nullTest place op =>
    refine Site.lists_map [place] fun i _ ⟨homits, _⟩ => ?_
    simpa [CallForm.omits] using homits
  | reduce =>
    refine Site.lists_map [0, 1, 2] fun i _ ⟨homits, _⟩ => ?_
    simp only [CallForm.omits, decide_eq_false_iff_not] at homits
    simp only [List.mem_cons, List.not_mem_nil, or_false]
    omega
  | field =>
    have hboth : site.Lists [site.operand 0, site.operand 1] fun i => decide (1 < i) = false :=
      Form.lists_written (.infixOp "") site
    simp only [CallForm.written]
    split_ifs with hbare
    · refine Site.lists_map [0] fun i _ ⟨homits, hkey⟩ => ?_
      rcases i with - | - | i
      · exact List.mem_cons_self
      · rw [hbare] at hkey
        cases hkey rfl
      · simp [CallForm.omits] at homits
    · exact hboth.imp fun _ _ h => h.1

/-- A call writes all arguments that it does not drop.

**Proof sketch.** The form writes what it does not omit (`CallForm.lists_written`). What it omits is
explained by the registry: a settled test, a side of a null test or a lone key of a record, all of
which are dropped; a key read without brackets is dropped as well. -/
lemma lists_written {name : String} {args : List Ir} {argTypes : List Ty} {form : CallForm}
    (hlookup : registry.lookup name (argTypes.map Ty.tag) = .ok form)
    (hlength : argTypes.length = args.length) (ty : Ty) :
    Site.Lists ⟨name, Target.operands target args, argTypes, ty⟩
      (form.written ⟨name, Target.operands target args, argTypes, ty⟩)
      fun i => drops name args argTypes i = false := by
  refine (form.lists_written _).imp fun i hi hdrops => ?_
  have hcount : (argTypes.map Ty.tag).length = (Target.operands target args).length := by
    rw [List.length_map, Target.length_operands, hlength]
  simp only [drops, explained, Bool.or_eq_false_iff] at hdrops
  obtain ⟨⟨⟨hsettled, hside⟩, hrecord⟩, hkey⟩ := hdrops
  rw [← Target.length_operands target, ← hcount] at hrecord
  rw [← hcount] at hi
  refine ⟨?_, fun hreads => ?_⟩
  · rw [← hcount]
    exact Registry.omits_eq_false_of_sides rfl explains_registry isLoneKey omits_variadics
      omits_nulls hlookup hi hsettled hside hrecord
  · have hchecks := Registry.of_checks rfl checks_registry hlookup
    have hname := (Bool.and_eq_true_iff.mp hchecks).2
    simp only [hreads, Bool.not_true, Bool.false_or] at hname
    rw [hcount, Target.length_operands] at hi
    have hoperand : Site.operand ⟨name, Target.operands target args, argTypes, ty⟩ i =
        target.operand args[i] :=
      Site.operand_eq (target.getElem?_operands (List.getElem?_eq_getElem hi))
    rw [hoperand]
    simpa [hname, List.getElem?_eq_getElem hi, Target.operand] using hkey

/-! ## The target -/

/-- A variable holds neither quotes nor brackets. -/
lemma isInert_localName {name : String} (h : IsIdentifier name) : IsInert (localName name) := by
  have hmark : IsInert "$" := isInert_of_all (by decide)
  unfold localName
  split_ifs
  · exact h.isInert.append hmark
  · exact h.isInert

section Constructs

variable {names : Bindings} {os : List Operand} {body : String}

/-- A function around a body. -/
lemma writes_arrow {params : String} (hparams : IsInert params) (h : quoting.Writes names os body) :
    quoting.Writes names os (arrow params body) := by
  have hbody : quoting.Writes names os (arrowBody body) := by
    unfold arrowBody
    split_ifs
    · exact h.parens
    · exact h
  exact writes_of_parts [.text "(", .bare params, .text ") => ", .code _ os] rfl
    (by simp [Part.chars, arrow]) ⟨trivial, hparams.isBare, trivial, hbody⟩ (by simp [Part.carried])

/-- Bindings write their values and what is written in their scope. -/
lemma writes_bindAround {bindings : List (String × Operand)} {inner : Emit String}
    (hnames : ∀ b ∈ bindings, IsIdentifier b.1) (hvalues : ∀ b ∈ bindings, b.2.Sound quoting names)
    (hinner : ∀ code, inner.Succeeds names code → quoting.Writes names os code) {code : String}
    (h : (bindAround bindings inner).Succeeds names code) :
    quoting.Writes names (bindings.map Prod.snd ++ os) code := by
  induction bindings generalizing code with
  | nil => exact hinner code h
  | cons b bindings ih =>
    obtain ⟨hname, hmoreNames⟩ := List.forall_mem_cons.mp hnames
    obtain ⟨hvalue, hmoreValues⟩ := List.forall_mem_cons.mp hvalues
    simp only [bindAround, Emit.succeeds_bind, Emit.succeeds_pure] at h
    obtain ⟨inside, hinside, value, hcode, rfl⟩ := h
    have hfunction := writes_arrow (isInert_localName hname) (ih hmoreNames hmoreValues hinside)
    -- The value stands behind the function that its name is a parameter of.
    have horder : (b.2 :: (bindings.map Prod.snd ++ os)).Subperm
        ((bindings.map Prod.snd ++ os) ++ [b.2]) :=
      (List.perm_append_singleton b.2 _).symm.subperm
    exact writes_of_parts
      [.text "(", .code _ (bindings.map Prod.snd ++ os), .text ")(", .code value [b.2], .text ")"]
      rfl (by simp [Part.chars]) ⟨trivial, hfunction, trivial, hvalue.writes_code hcode, trivial⟩
      (by simpa [Part.carried] using horder)

end Constructs

section Target

variable {names : Bindings} {fragment : Fragment}

/-- Bindings write their values and their body. -/
lemma writes_letIn {bindings : List (String × Operand)} {body : Operand}
    (hnames : ∀ b ∈ bindings, IsIdentifier b.1) (hvalues : ∀ b ∈ bindings, b.2.Sound quoting names)
    (hbody : body.Sound quoting names) (h : (target.letIn bindings body).Succeeds names fragment) :
    quoting.Writes names (bindings.map Prod.snd ++ [body]) fragment.code := by
  simp only [target, Emit.succeeds_bind, Emit.succeeds_pure] at h
  obtain ⟨code, hcode, rfl⟩ := h
  exact writes_bindAround hnames hvalues (fun code hcode => hbody.writes_code hcode) hcode

/-- A function writes its body. -/
lemma writes_lambda {params : List String} {body : Operand} (hparams : ∀ p ∈ params, IsIdentifier p)
    (hbody : body.Sound quoting names) (h : (target.lambda params body).Succeeds names fragment) :
    quoting.Writes names [body] fragment.code := by
  simp only [target, Emit.succeeds_bind, Emit.succeeds_pure] at h
  obtain ⟨code, hcode, rfl⟩ := h
  refine writes_arrow (isInert_commaSeparated fun s hs => ?_) (hbody.writes_code hcode)
  obtain ⟨p, hp, rfl⟩ := List.mem_map.mp hs
  exact isInert_localName (hparams p hp)

/-- A conditional writes its condition and both branches. -/
lemma writes_conditional {test yes no : Operand} {ty : Ty} (htest : test.Sound quoting names)
    (hyes : yes.Sound quoting names) (hno : no.Sound quoting names)
    (h : (target.conditional test yes no ty).Succeeds names fragment) :
    quoting.Writes names [test, yes, no] fragment.code := by
  simp only [target, Emit.succeeds_bind, Emit.succeeds_pure] at h
  obtain ⟨a, ha, b, hb, c, hc, rfl⟩ := h
  exact writes_of_parts
    [.code a [test], .text " ? ", .code b [yes], .text " : ", .code c [no]] rfl
    (by simp [Part.chars, Fragment.operation])
    ⟨htest.writes_wrapped ha, trivial, hyes.writes_wrapped hb, trivial,
      hno.writes_wrapped hc⟩ (by simp [Part.carried])

/-- An alternative writes all candidates. -/
lemma writes_alternative {candidates : List Operand} {ty : Ty}
    (hcandidates : ∀ o ∈ candidates, o.Sound quoting names)
    (h : (target.alternative candidates ty).Succeeds names fragment) :
    quoting.Writes names candidates fragment.code := by
  simp only [target, Emit.succeeds_bind, Emit.succeeds_pure, Emit.succeeds_require] at h
  obtain ⟨-, -, cs, hcs, rfl⟩ := h
  have hempty : IsInert "" := isInert_of_all (by decide)
  have harrows : List.Forall₂ (quoting.Writes names) (candidates.map ([·])) (cs.map (arrow "")) :=
    List.forall₂_map_right_iff.mpr
      ((forall₂_codes hcandidates hcs).imp fun _ _ => writes_arrow hempty)
  have hrow := writes_commaSeparated harrows
  rw [flatten_map_singleton] at hrow
  exact hrow.enclosed (Helper.camel "alt" ++ "(") ")" (by decide)

end Target

/-- JavaScript makes sealed code of sealed codes. -/
theorem seals : target.Seals quoting where
  literal hvalue h := by
    simp only [target, Emit.succeeds_bind, Emit.succeeds_pure, Emit.succeeds_requireAll] at h
    obtain ⟨-, -, rfl⟩ := h
    exact isSealed_literalCode hvalue
  variableCode hname := isSealed_of_isBare (isInert_localName hname).isBare
  letIn hnames hvalues hbody hsealed h :=
    (writes_letIn hnames (fun b hb => hvalues b hb _ hsealed) (hbody _ hsealed) h).1
  lambda hparams hbody h := (writes_lambda hparams hbody h).1
  conditional htest hyes hno h := (writes_conditional htest hyes hno h).1
  alternative hcandidates h := (writes_alternative hcandidates h).1
  call hsite h := by
    obtain ⟨form, -, hwrites⟩ := writes_call hsite h
    exact hwrites.1

end JavaScript

end Retarget
