import Retarget.Proofs.Naming.Outline
import Retarget.Target.JavaScript

set_option autoImplicit false

/-!
# Names in JavaScript code

A function is an arrow function, a binding is one that is called at once, and a candidate of an
alternative is one without parameters. All other names are helpers, globals and reserved words.

## Main definitions

* `Retarget.JavaScript.globals` — the globals that code relies on.
* `Retarget.JavaScript.outline` — how code is laid out.

## Main results

* `Retarget.JavaScript.describes` — the outline lays out what the target writes.
* `Retarget.JavaScript.keepsNames` — it keeps names in their scopes.
-/

namespace Retarget.JavaScript

/-- The globals that code relies on. -/
def globals : List String := ["Math", "Date", "Error"]

/-- The names of helpers start with the same letters. -/
def isHelper (name : String) : Bool := ("elo".toList).isPrefixOf name.toList

/-- The names that text of the target may hold: helpers, globals and reserved words. -/
def isOwn (name : String) : Bool :=
  isHelper name || globals.contains name || reserved.contains name

/-- The texts with names that stand in code outside of the forms of calls. -/
def fixedTexts : List String := ["new Date(", "true", "false", "null", ".getTime()", ".reduce("]

/-- No name in these texts is a helper, and all of them are the target's own; so are the helpers that
no form of a call names. -/
lemma checks_texts :
    ((fixedTexts.all fun text => Retarget.isClean isHelper text &&
      (scrapsFixedNames (fixedText text)).all isOwn) &&
    ["alt", "duration"].all fun function => isOwn (Helper.camel function)) = true := by
  cbv

/-- The fixed texts hold no names of helpers. -/
lemma isClean_of_mem {text : String} (h : text ∈ fixedTexts) : Retarget.isClean isHelper text = true :=
  (Bool.and_eq_true_iff.mp
    (List.all_eq_true.mp (Bool.and_eq_true_iff.mp checks_texts).1 text h)).1

/-- The names in the fixed texts are names of the target. -/
lemma isOwn_of_mem {text : String} (h : text ∈ fixedTexts) :
    (scrapsFixedNames (fixedText text)).all isOwn = true :=
  (Bool.and_eq_true_iff.mp
    (List.all_eq_true.mp (Bool.and_eq_true_iff.mp checks_texts).1 text h)).2

/-- The helpers that fixed text calls are names of the target. -/
lemma isOwn_camel {function : String} (h : function ∈ ["alt", "duration"]) :
    isOwn (Helper.camel function) = true :=
  List.all_eq_true.mp (Bool.and_eq_true_iff.mp checks_texts).2 function h

/-! ## Constants -/

/-- The layout of a constant. -/
def literalScraps : Literal → List Scrap
  | .date s => fixedText "new Date(" ++ [.text (JsonString.quote s ++ ")")]
  | .dateTime s => fixedText "new Date(" ++ [.text (JsonString.quote (Temporal.inUtc s) ++ ")")]
  | .duration s => [.fixed (Helper.camel "duration"), .text ("(" ++ JsonString.quote s ++ ")")]
  | .bool b => fixedText (literalCode (.bool b))
  | .null => fixedText "null"
  | .int v => [.text (literalCode (.int v))]
  | .float v => [.text (literalCode (.float v))]
  | .string s => [.text (literalCode (.string s))]

/-! ## Calls -/

/-- The layout of a call in a form. -/
def CallForm.layout : CallForm → List (Ir × Layout) → List Ty → Layout
  | .shared form, args, types => form.layout precedence (args.map Prod.snd) types
  | .byTime op, args, _ =>
    ⟨(layoutAt (args.map Prod.snd) 0).wrapped precedence memberOp .left ++
      fixedText (".getTime() " ++ op ++ " ") ++
      (layoutAt (args.map Prod.snd) 1).wrapped precedence memberOp .left ++
      fixedText ".getTime()", some op⟩
  | .nullTest place op, args, _ =>
    ⟨(layoutAt (args.map Prod.snd) place).wrapped precedence op .left ++
      fixedText (" " ++ op ++ " null"), some op⟩
  | .reduce, args, _ =>
    ⟨(layoutAt (args.map Prod.snd) 0).wrapped precedence memberOp .left ++ fixedText ".reduce(" ++
      (layoutAt (args.map Prod.snd) 2).scraps ++ .text ", " ::
      (layoutAt (args.map Prod.snd) 1).scraps ++ [.text ")"], none⟩
  | .field, args, _ =>
    let receiver := (layoutAt (args.map Prod.snd) 0).wrapped precedence memberOp .left
    match (irAt args 1).string?.filter isName with
    | some key => ⟨receiver ++ [.text ("." ++ key)], none⟩
    | none => ⟨receiver ++ .text "[" :: (layoutAt (args.map Prod.snd) 1).scraps ++ [.text "]"], none⟩

/-- No name in the text of a form is a helper that the form does not note. -/
def CallForm.isClean : CallForm → Bool
  | .shared form => form.isClean isHelper
  | .byTime op => Retarget.isClean isHelper (".getTime() " ++ op ++ " ")
  | .nullTest _ op => Retarget.isClean isHelper (" " ++ op ++ " null")
  | .reduce | .field => true

/-- The names in the text of a form. -/
def CallForm.fixedNames : CallForm → List String
  | .shared form => form.fixedNames
  | .byTime op => scrapsFixedNames (fixedText (".getTime() " ++ op ++ " "))
  | .nullTest _ op => scrapsFixedNames (fixedText (" " ++ op ++ " null"))
  | .reduce | .field => []

/-- The text of every form is clean, and its names are the target's own. -/
lemma checks_names :
    registry.checks (fun _ form => form.isClean && form.fixedNames.all isOwn) = true := by
  decide +kernel

/-- The layout of a call. -/
def callLayout (name : String) (types : List Ty) (args : List (Ir × Layout)) : Layout :=
  match registry.lookup name (types.map Ty.tag) with
  | .ok form => form.layout args types
  | .error _ => ⟨[], none⟩

/-! ## The outline -/

/-- An arrow function; a body with a brace in front is put in parentheses. -/
def arrowScraps (params : List String) (body : List Scrap) : List Scrap :=
  [.function "(" params ") => "
    (if (scrapsCode localName body).toList.head? = some '\x7b' then parens body else body) ""]

/-- How code is laid out. -/
def outline : Outline where
  spell := localName
  isHelper := isHelper
  own := isOwn
  literal value := ⟨literalScraps value, none⟩
  bound name body value :=
    .text "(" :: arrowScraps [name] body ++ .text ")(" :: value ++ [.text ")"]
  lambda params body := ⟨arrowScraps params body, some "=>"⟩
  conditional test yes no :=
    ⟨test.wrapped precedence "?:" .left ++ .text " ? " :: yes.wrapped precedence "?:" .right ++
      .text " : " :: no.wrapped precedence "?:" .right, some "?:"⟩
  alternative ls :=
    ⟨.fixed (Helper.camel "alt") :: parens (separated (ls.map fun l => arrowScraps [] l.scraps)),
      none⟩
  call := callLayout
  unit body := [.function "(function(" [inputName] ") \x7b return " body "; \x7d)"]

section Spelling

variable {helpers : List String}

/-- The pieces spell JavaScript code. -/
abbrev Spells (scraps : List Scrap) (code : String) (helpers : List String) : Prop :=
  Spelled localName isHelper scraps code helpers

/-- The layout of a constant spells its code. -/
lemma spelled_literal (value : Literal) :
    Spells (literalScraps value) (literalCode value) (literalHelpers value) := by
  cases value with
  | bool b => cases b <;> exact spelled_fixedText (isClean_of_mem (by decide))
  | null => exact spelled_fixedText (isClean_of_mem (by decide))
  | int | float | string => exact spelled_text _
  | date s =>
    have hcode : Spells (literalScraps (.date s)) _ _ :=
      (spelled_fixedText (isClean_of_mem (by decide))).append (spelled_text (JsonString.quote s ++ ")"))
    simpa [literalCode, literalHelpers, String.append_assoc] using hcode
  | dateTime s =>
    have hcode : Spells (literalScraps (.dateTime s)) _ _ :=
      (spelled_fixedText (isClean_of_mem (by decide))).append
        (spelled_text (JsonString.quote (Temporal.inUtc s) ++ ")"))
    simpa [literalCode, literalHelpers, String.append_assoc] using hcode
  | duration s =>
    have hcode : Spells (literalScraps (.duration s)) _ _ :=
      (spelled_helper (Helper.camel "duration")).append
        (spelled_text ("(" ++ JsonString.quote s ++ ")"))
    simpa [literalCode, literalHelpers, String.append_assoc] using hcode

/-- A function around pieces that spell its body. -/
lemma spelled_arrow (params : List String) {body : List Scrap} {code : String}
    (h : Spells body code helpers) :
    Spells (arrowScraps params body) (arrow (commaSeparated (params.map localName)) code) helpers := by
  have hbody : Spells (if (scrapsCode localName body).toList.head? = some '\x7b' then parens body
      else body) (arrowBody code) helpers := by
    rw [h.code_eq, arrowBody]
    split_ifs
    · exact h.parens
    · exact h
  constructor
  · simp [arrowScraps, scrapsCode, Scrap.code, hbody.code_eq, arrow]
  · intro name hname
    simp only [arrowScraps, scrapsFixedNames, Scrap.fixedNames, List.append_nil] at hname
    exact hbody.noted name hname

variable {site : Site} {args : List (Ir × Layout)} {fragment : Fragment}

/-- The layout of a call in a form spells the code of the call.

**Proof sketch.** One case for each form: its layout has the pieces of the arguments and of its text
in the order in which they are written. -/
lemma CallForm.spells_layout {form : CallForm} (hform : form.isClean = true)
    (hsite : List.Forall₂ (fun x (a : Ir × Layout) => x.ir = a.1 ∧ outline.Lays x a.2)
      site.operands args)
    (h : (form.emit site).Produces fragment helpers) :
    (form.layout args site.argTypes).Spells localName isHelper fragment helpers := by
  have hargs : List.Forall₂ (Operand.Laid localName isHelper) site.operands (args.map Prod.snd) :=
    Outline.lays_arguments hsite
  have hoperand := Site.laid_operand hargs
  cases form with
  | shared form => exact Form.spells_layout hform hargs h
  | byTime op =>
    simp only [CallForm.emit, Emit.produces_bind, Emit.produces_pure] at h
    obtain ⟨a, noted, ha, _, ⟨b, noted', hb, _, ⟨rfl, rfl⟩, rfl⟩, rfl⟩ := h
    refine ⟨?_, rfl⟩
    have hrow := ((((hoperand 0).wrapped ha).append (spelled_fixedText hform)).append
      ((hoperand 1).wrapped hb)).append (spelled_fixedText (s := ".getTime()") (isClean_of_mem (by decide)))
    simpa [CallForm.layout, Fragment.operation, String.append_assoc] using hrow
  | nullTest place op =>
    simp only [CallForm.emit, Emit.produces_bind, Emit.produces_pure] at h
    obtain ⟨a, noted, ha, _, ⟨rfl, rfl⟩, rfl⟩ := h
    refine ⟨?_, rfl⟩
    have hrow := ((hoperand place).wrapped ha).append (spelled_fixedText hform)
    simpa [CallForm.layout, Fragment.operation, String.append_assoc] using hrow
  | reduce =>
    simp only [CallForm.emit, Emit.produces_bind, Emit.produces_pure] at h
    obtain ⟨a, noted, ha, _, ⟨b, noted', hb, _, ⟨c, noted'', hc, _, ⟨rfl, rfl⟩, rfl⟩, rfl⟩, rfl⟩ := h
    refine ⟨?_, rfl⟩
    have hrow := ((((((hoperand 0).wrapped ha).append
      (spelled_fixedText (s := ".reduce(") (isClean_of_mem (by decide)))).append
      ((hoperand 2).code hc)).append (spelled_text ", ")).append ((hoperand 1).code hb)).append
      (spelled_text ")")
    -- The start value is written before the function, and stands behind it.
    have hnoted : noted ++ [] ++ noted'' ++ [] ++ noted' ++ [] ⊆ noted ++ (noted' ++ noted'') := by
      intro name hname
      simp only [List.append_nil, List.mem_append] at hname ⊢
      tauto
    simpa [CallForm.layout, Fragment.atom, String.append_assoc] using hrow.mono hnoted
  | field =>
    simp only [CallForm.emit, Emit.produces_bind] at h
    obtain ⟨a, noted, ha, after, h, rfl⟩ := h
    have hreceiver := (hoperand 0).wrapped ha
    rw [Outline.ir_operand hsite 1] at h
    cases hkey : (irAt args 1).string?.filter isName with
    | some key =>
      simp only [hkey, Emit.produces_pure] at h
      obtain ⟨rfl, rfl⟩ := h
      simp only [CallForm.layout, hkey]
      refine ⟨?_, rfl⟩
      have hrow := hreceiver.append (spelled_text ("." ++ key))
      simpa [Fragment.atom, String.append_assoc] using hrow
    | none =>
      simp only [hkey, Emit.produces_bind, Emit.produces_pure] at h
      obtain ⟨b, noted', hb, _, ⟨rfl, rfl⟩, rfl⟩ := h
      simp only [CallForm.layout, hkey]
      refine ⟨?_, rfl⟩
      have hrow := ((hreceiver.append (spelled_text "[")).append ((hoperand 1).code hb)).append
        (spelled_text "]")
      simpa [Fragment.atom, String.append_assoc] using hrow

/-- The layout of bindings spells them step by step. -/
lemma spelled_bound (name : String) {body values : List Scrap} {code value : String}
    {before after : List String} (hbody : Spells body code before)
    (hvalue : Spells values value after) :
    Spells (outline.bound name body values)
      ("(" ++ arrow (localName name) code ++ ")(" ++ value ++ ")") (before ++ after) := by
  have hrow := ((((spelled_text "(").append (spelled_arrow [name] hbody)).append
    (spelled_text ")(")).append hvalue).append (spelled_text ")")
  simpa [outline, String.append_assoc] using hrow

end Spelling

/-- The outline lays out what the target writes.

**Proof sketch.** Each construct is laid out as it is written, from pieces of its arguments and of
fixed text. A duration and an alternative note the helpers that their text names. -/
theorem describes : outline.Describes target where
  variableCode _ := rfl
  literal h := by
    simp only [target, Emit.produces_bind, Emit.produces_pure, Emit.produces_requireAll] at h
    obtain ⟨_, _, rfl, _, ⟨rfl, rfl⟩, rfl⟩ := h
    rw [List.append_nil]
    exact ⟨spelled_literal _, rfl⟩
  letIn_nil h := by
    simp only [target, bindAround, Emit.produces_bind, Emit.produces_pure] at h
    obtain ⟨code, noted, hcode, _, ⟨rfl, rfl⟩, rfl⟩ := h
    exact ⟨code, by rwa [List.append_nil], rfl⟩
  letIn_cons {name value body rest fragment helpers} h := by
    simp only [target, bindAround, Emit.produces_bind, Emit.produces_pure] at h
    obtain ⟨_, _, ⟨inner, before, hinner, _, ⟨code, after, hcode, _, ⟨rfl, rfl⟩, rfl⟩, rfl⟩, _,
      ⟨rfl, rfl⟩, rfl⟩ := h
    have hrest : (target.letIn rest body).Produces (.atom inner) before := by
      simp only [target, Emit.produces_bind, Emit.produces_pure]
      exact ⟨inner, before, hinner, [], ⟨rfl, rfl⟩, List.append_nil _⟩
    refine ⟨.atom inner, before, code, after, hrest, hcode, rfl, fun hbody hvalue => ?_⟩
    simp only [List.append_nil]
    exact spelled_bound name hbody hvalue
  lambda {params body l fragment helpers} hbody h := by
    simp only [target, Emit.produces_bind, Emit.produces_pure] at h
    obtain ⟨code, noted, hcode, _, ⟨rfl, rfl⟩, rfl⟩ := h
    rw [List.append_nil]
    exact ⟨spelled_arrow params (hbody.code hcode), rfl⟩
  conditional htest hyes hno h := by
    simp only [target, Emit.produces_bind, Emit.produces_pure] at h
    obtain ⟨a, noted, ha, _, ⟨b, noted', hb, _, ⟨c, noted'', hc, _, ⟨rfl, rfl⟩, rfl⟩, rfl⟩, rfl⟩ := h
    refine ⟨?_, rfl⟩
    have hrow := ((((htest.wrapped ha).append (spelled_text " ? ")).append (hyes.wrapped hb)).append
      (spelled_text " : ")).append (hno.wrapped hc)
    simpa [outline, Fragment.operation, String.append_assoc] using hrow
  alternative {candidates ls ty fragment helpers} hcandidates h := by
    simp only [target, Emit.produces_bind, Emit.produces_pure, Emit.produces_require] at h
    obtain ⟨_, _, rfl, _, ⟨cs, noted, hcs, _, ⟨rfl, rfl⟩, rfl⟩, rfl⟩ := h
    refine ⟨?_, rfl⟩
    have harrows := (spelledRow_codes hcandidates hcs).map (f := arrowScraps []) (g := arrow "")
      (spelled_arrow [])
    have hcall := (spelled_helper (Helper.camel "alt")).append harrows.separated.parens
    simpa [outline, Fragment.atom, String.append_assoc, Function.comp_def] using hcall
  call site {args fragment helpers} hargs h := by
    obtain ⟨form, hlookup, hform⟩ := Registry.exists_of_produces_call h
    have hchecks := Registry.of_checks rfl checks_names hlookup
    have hlayout : outline.call site.name site.argTypes args = form.layout args site.argTypes := by
      simp only [outline, callLayout]
      rw [show site.argTypes.map Ty.tag = site.tags from rfl, hlookup]
    rw [hlayout]
    exact CallForm.spells_layout (Bool.and_eq_true_iff.mp hchecks).1 hargs hform
  executable {code scraps helpers} h := by
    have hcode : scrapsCode localName scraps = code := h.code_eq
    have hinput : localName inputName = "_" := by decide
    constructor
    · simp [outline, scrapsCode, Scrap.code, hcode, hinput, target]
    · intro name hname
      simp only [outline, scrapsFixedNames, Scrap.fixedNames, List.append_nil] at hname
      exact h.noted name hname

/-! ## Names -/

section Names

variable {scope : List String}

/-- An arrow function around a body that is well named in the scope of the parameters. -/
lemma allWellNamed_arrow {params : List String} (hparams : ∀ p ∈ params, IsIdentifier p)
    {body : List Scrap} (h : AllWellNamed isOwn (params.reverse ++ scope) body) :
    AllWellNamed isOwn scope (arrowScraps params body) := by
  refine allWellNamed_cons.mpr ⟨.function hparams ?_, allWellNamed_nil⟩
  split_ifs
  · exact allWellNamed_parens h
  · exact h

/-- The layout of a constant is well named. -/
lemma allWellNamed_literal (value : Literal) : AllWellNamed isOwn scope (literalScraps value) := by
  have htext {text : String} (h : (scrapsFixedNames (fixedText text)).all isOwn = true) :
      AllWellNamed isOwn scope (fixedText text) := allWellNamed_fixedText h
  cases value with
  | bool b => cases b <;> exact htext (isOwn_of_mem (by decide))
  | null => exact htext (isOwn_of_mem (by decide))
  | int | float | string => simp [literalScraps]
  | date | dateTime =>
    have hopening : AllWellNamed isOwn scope (fixedText "new Date(") := htext (isOwn_of_mem (by decide))
    simpa [literalScraps] using hopening
  | duration =>
    have hname : isOwn (Helper.camel "duration") = true := isOwn_camel (by decide)
    simpa [literalScraps] using hname

/-- The names of a call are those of its form and of its arguments.

**Proof sketch.** The pieces of the arguments are well named by assumption, and the names in the
text of a form are among those of the target by the check of the form. -/
lemma CallForm.wellNamed_layout {form : CallForm} (hform : form.fixedNames.all isOwn = true)
    {args : List (Ir × Layout)} {types : List Ty} (hargs : ∀ a ∈ args, a.2.WellNamed isOwn scope) :
    (form.layout args types).WellNamed isOwn scope := by
  have hlayouts : ∀ l ∈ args.map Prod.snd, l.WellNamed isOwn scope := by
    intro l hl
    obtain ⟨a, ha, rfl⟩ := List.mem_map.mp hl
    exact hargs a ha
  have hat := wellNamed_layoutAt hlayouts
  have hreceiver (i : Nat) := (hat i).wrapped precedence memberOp .left
  have htext {text : String} (h : (scrapsFixedNames (fixedText text)).all isOwn = true) :
      AllWellNamed isOwn scope (fixedText text) := allWellNamed_fixedText h
  cases form with
  | shared form => exact Form.wellNamed_layout hform hlayouts
  | byTime op =>
    have hend : AllWellNamed isOwn scope (fixedText ".getTime()") := htext (isOwn_of_mem (by decide))
    simpa [Layout.WellNamed, CallForm.layout] using ⟨hreceiver 0, htext hform, hreceiver 1, hend⟩
  | nullTest place op =>
    simpa [Layout.WellNamed, CallForm.layout] using
      ⟨(hat place).wrapped precedence op .left, htext hform⟩
  | reduce =>
    have hmethod : AllWellNamed isOwn scope (fixedText ".reduce(") := htext (isOwn_of_mem (by decide))
    have hstart : AllWellNamed isOwn scope _ := hat 1
    have hfunction : AllWellNamed isOwn scope _ := hat 2
    simpa [Layout.WellNamed, CallForm.layout] using ⟨hreceiver 0, hmethod, hfunction, hstart⟩
  | field =>
    have hkey : AllWellNamed isOwn scope _ := hat 1
    simp only [CallForm.layout]
    split
    · simpa [Layout.WellNamed] using hreceiver 0
    · simpa [Layout.WellNamed] using ⟨hreceiver 0, hkey⟩

end Names

/-- The outline keeps names in their scopes.

**Proof sketch.** Each construct keeps its arguments in the scope that they are laid out in: the
parameters of a function and the name of a binding are in scope in the body, and nowhere else. The
names in fixed text are names of the target. -/
theorem keepsNames : outline.KeepsNames where
  literal value _ := allWellNamed_literal value
  bound {name scope body value} hname hbody hvalue := by
    have hfunction : AllWellNamed isOwn scope (arrowScraps [name] body) :=
      allWellNamed_arrow (List.forall_mem_singleton.mpr hname) hbody
    have hvalue : AllWellNamed isOwn scope value := hvalue
    simpa [outline] using ⟨hfunction, hvalue⟩
  lambda hparams hbody := allWellNamed_arrow hparams hbody
  conditional {a b c scope} htest hyes hno := by
    have htest := htest.wrapped precedence "?:" .left
    have hyes := hyes.wrapped precedence "?:" .right
    have hno := hno.wrapped precedence "?:" .right
    simpa [Layout.WellNamed, outline] using ⟨htest, hyes, hno⟩
  alternative {ls scope} hls := by
    have hname : isOwn (Helper.camel "alt") = true := isOwn_camel (by decide)
    have hrow : AllWellNamed isOwn scope
        (separated (ls.map fun l => arrowScraps [] l.scraps)) := by
      refine allWellNamed_separated fun scraps hscraps => ?_
      obtain ⟨l, hl, rfl⟩ := List.mem_map.mp hscraps
      exact allWellNamed_arrow (List.forall_mem_nil _) (hls l hl)
    exact allWellNamed_cons.mpr ⟨.fixed hname, allWellNamed_parens hrow⟩
  call {name types args scope} hargs := by
    simp only [outline, callLayout]
    split
    · rename_i form hlookup
      have hchecks := Registry.of_checks rfl checks_names hlookup
      exact CallForm.wellNamed_layout (Bool.and_eq_true_iff.mp hchecks).2 hargs
    · exact allWellNamed_nil
  unit hscraps := by
    have hinput : ∀ p ∈ [inputName], IsIdentifier p :=
      List.forall_mem_singleton.mpr isIdentifier_inputName
    exact allWellNamed_cons.mpr ⟨.function hinput hscraps, allWellNamed_nil⟩

end Retarget.JavaScript
