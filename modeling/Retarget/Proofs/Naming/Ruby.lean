import Retarget.Proofs.Naming.Outline
import Retarget.Target.Ruby

set_option autoImplicit false

/-!
# Names in Ruby code

A function is a lambda, a binding is one that is called at once, and a candidate of an alternative
is one without parameters.

## Main definitions

* `Retarget.Ruby.outline` — how code is laid out.

## Main results

* `Retarget.Ruby.describes` — the outline lays out what the target writes.
* `Retarget.Ruby.keepsNames` — it keeps names in their scopes.
-/

namespace Retarget.Ruby

/-- The names of helpers start with the same letters. -/
def isHelper (name : String) : Bool := ("elo_".toList).isPrefixOf name.toList

/-! ## Calls -/

/-- The last of a row of arguments marked as a block. -/
def withBlockScraps : List (List Scrap) → List (List Scrap)
  | [] => []
  | [last] => [.text "&" :: last]
  | a :: b :: rest => a :: withBlockScraps (b :: rest)

/-- The layout of a call in a form. -/
def CallForm.layout : CallForm → List (Ir × Layout) → List Ty → Layout
  | .shared form, args, types => form.layout precedence (args.map Prod.snd) types
  | .block text, args, _ =>
    ⟨(layoutAt (args.map Prod.snd) 0).wrapped precedence memberOp .left ++ fixedText text ++
      parens (separated (withBlockScraps (((args.map Prod.snd).drop 1).map Layout.scraps))), none⟩
  | .dayShift op, args, _ =>
    let shift :=
      match (irAt args 1).literal?.bind Temporal.literalDays? with
      | some days => [.text (toString days)]
      | none => (layoutAt (args.map Prod.snd) 1).wrapped precedence op .right
    ⟨(layoutAt (args.map Prod.snd) 0).wrapped precedence op .left ++
      fixedText (" " ++ op ++ " ") ++ shift, some op⟩
  | .index, args, _ =>
    ⟨(layoutAt (args.map Prod.snd) 0).wrapped precedence memberOp .left ++ .text "[" ::
      (layoutAt (args.map Prod.snd) 1).scraps ++ [.text "]"], none⟩

/-- No name in the text of a form is a helper that the form does not note. -/
def CallForm.isClean : CallForm → Bool
  | .shared form => form.isClean isHelper
  | .block text => Retarget.isClean isHelper text
  | .dayShift op => Retarget.isClean isHelper (" " ++ op ++ " ")
  | .index => true

/-- The text of every form is clean. -/
lemma checks_clean : registry.checks (fun _ form => form.isClean) = true := by
  cbv

/-- The layout of a call. -/
def callLayout (name : String) (types : List Ty) (args : List (Ir × Layout)) : Layout :=
  match registry.lookup name (types.map Ty.tag) with
  | .ok form => form.layout args types
  | .error _ => ⟨[], none⟩

/-! ## The outline -/

/-- A function with parameters. -/
def arrowScraps (params : List String) (body : List Scrap) : List Scrap :=
  [.function "->(" params ") \x7b " body " \x7d"]

/-- A function without parameters. -/
def thunkScraps (body : List Scrap) : List Scrap := [.function "-> \x7b " [] "" body " \x7d"]

/-- How code is laid out. Text of the target may hold any name. -/
def outline : Outline where
  spell := localName
  isHelper := isHelper
  own := fun _ => true
  literal value := ⟨[.text (literalCode value)], none⟩
  bound name body value := arrowScraps [name] body ++ .text ".call(" :: value ++ [.text ")"]
  lambda params body :=
    ⟨if params.isEmpty then thunkScraps body else arrowScraps params body, none⟩
  conditional test yes no :=
    ⟨test.wrapped precedence "?:" .left ++ .text " ? " :: yes.wrapped precedence "?:" .right ++
      .text " : " :: no.wrapped precedence "?:" .right, some "?:"⟩
  alternative ls :=
    ⟨.fixed (Helper.snake "alt") :: parens (separated (ls.map fun l => thunkScraps l.scraps)), none⟩
  call := callLayout
  unit body := arrowScraps [inputName] body

section Spelling

variable {helpers : List String}

/-- The pieces spell Ruby code. -/
abbrev Spells (scraps : List Scrap) (code : String) (helpers : List String) : Prop :=
  Spelled localName isHelper scraps code helpers

/-- A function around pieces that spell its body. -/
lemma spelled_arrow (params : List String) {body : List Scrap} {code : String}
    (h : Spells body code helpers) :
    Spells (arrowScraps params body) (arrow (commaSeparated (params.map localName)) code) helpers where
  code_eq := by simp [arrowScraps, scrapsCode, Scrap.code, h.code_eq, arrow]
  noted name hname := by
    simp only [arrowScraps, scrapsFixedNames, Scrap.fixedNames, List.append_nil] at hname
    exact h.noted name hname

/-- The layout of a function without parameters spells its code. -/
lemma spelled_thunk {body : List Scrap} {code : String} (h : Spells body code helpers) :
    Spells (thunkScraps body) (thunk code) helpers where
  code_eq := by simp [thunkScraps, scrapsCode, Scrap.code, h.code_eq, thunk]
  noted name hname := by
    simp only [thunkScraps, scrapsFixedNames, Scrap.fixedNames, List.append_nil] at hname
    exact h.noted name hname

/-- The mark of a block before the last of a row. -/
lemma spelledRow_withBlock {row : List (List Scrap)} {codes : List String}
    (h : SpelledRow localName isHelper row codes helpers) :
    SpelledRow localName isHelper (withBlockScraps row) (withBlock codes) helpers := by
  induction h with
  | nil => exact .nil
  | cons hfirst hrest ih =>
    cases hrest with
    | nil => exact .cons ((spelled_text "&").append hfirst) .nil
    | cons => exact .cons hfirst ih

variable {site : Site} {args : List (Ir × Layout)} {fragment : Fragment}

/-- The layout of a call in a form spells the code of the call.

**Proof sketch.** One case for each form: its layout has the pieces of the arguments and of its text
in the order in which they are written. -/
lemma CallForm.spells_layout {form : CallForm} (hform : form.isClean = true)
    (hsite : List.Forall₂ (fun x (a : Ir × Layout) => x.ir = a.1 ∧ outline.Lays x a.2)
      site.operands args)
    (h : (form.emit site).Produces fragment helpers) :
    (form.layout args site.argTypes).Spells localName isHelper fragment helpers := by
  have hargs : List.Forall₂ (Operand.Laid localName isHelper) site.operands (args.map Prod.snd) :=
    Outline.lays_arguments hsite
  have hoperand := Site.laid_operand hargs
  cases form with
  | shared form => exact Form.spells_layout hform hargs h
  | block text =>
    simp only [CallForm.emit, Emit.produces_bind, Emit.produces_pure] at h
    obtain ⟨a, noted, ha, _, ⟨cs, noted', hcs, _, ⟨rfl, rfl⟩, rfl⟩, rfl⟩ := h
    refine ⟨?_, rfl⟩
    have hrest := spelledRow_withBlock (spelledRow_codes (List.forall₂_drop 1 hargs) hcs)
    have hrow := (((hoperand 0).wrapped ha).append (spelled_fixedText hform)).append
      hrest.separated.parens
    simp only [List.append_nil] at hrow ⊢
    simpa [CallForm.layout, Fragment.atom, String.append_assoc] using hrow
  | dayShift op =>
    simp only [CallForm.emit, Emit.produces_bind] at h
    obtain ⟨a, noted, ha, after, h, rfl⟩ := h
    have hlhs := ((hoperand 0).wrapped ha).append (spelled_fixedText hform)
    rw [Outline.ir_operand hsite 1] at h
    simp only [CallForm.layout]
    cases hdays : (irAt args 1).literal?.bind Temporal.literalDays? with
    | some days =>
      simp only [hdays, Emit.produces_bind, Emit.produces_pure] at h
      obtain ⟨_, _, ⟨rfl, rfl⟩, _, ⟨rfl, rfl⟩, rfl⟩ := h
      refine ⟨?_, rfl⟩
      simpa [Fragment.operation, String.append_assoc] using hlhs.append (spelled_text (toString days))
    | none =>
      simp only [hdays, Emit.produces_bind, Emit.produces_pure] at h
      obtain ⟨b, noted', hb, _, ⟨rfl, rfl⟩, rfl⟩ := h
      refine ⟨?_, rfl⟩
      simpa [Fragment.operation, String.append_assoc] using hlhs.append ((hoperand 1).wrapped hb)
  | index =>
    simp only [CallForm.emit, Emit.produces_bind, Emit.produces_pure] at h
    obtain ⟨a, noted, ha, _, ⟨b, noted', hb, _, ⟨rfl, rfl⟩, rfl⟩, rfl⟩ := h
    refine ⟨?_, rfl⟩
    have hrow := ((((hoperand 0).wrapped ha).append (spelled_text "[")).append
      ((hoperand 1).code hb)).append (spelled_text "]")
    simpa [CallForm.layout, Fragment.atom, String.append_assoc] using hrow

/-- The layout of bindings spells them step by step. -/
lemma spelled_bound (name : String) {body values : List Scrap} {code value : String}
    {before after : List String} (hbody : Spells body code before)
    (hvalue : Spells values value after) :
    Spells (outline.bound name body values)
      (arrow (localName name) code ++ ".call(" ++ value ++ ")") (before ++ after) := by
  have hrow := (((spelled_arrow [name] hbody).append (spelled_text ".call(")).append hvalue).append
    (spelled_text ")")
  simpa [outline, String.append_assoc] using hrow

end Spelling

/-- The outline lays out what the target writes.

**Proof sketch.** Each construct is laid out as it is written, from pieces of its arguments and of
fixed text. An alternative notes the helper that its text names. -/
theorem describes : outline.Describes target where
  variableCode _ := rfl
  literal h := by
    simp only [target, Emit.produces_pure] at h
    obtain ⟨rfl, rfl⟩ := h
    exact ⟨spelled_text _, rfl⟩
  letIn_nil h := by
    simp only [target, bindAround, Emit.produces_bind, Emit.produces_pure] at h
    obtain ⟨code, noted, hcode, _, ⟨rfl, rfl⟩, rfl⟩ := h
    exact ⟨code, by rwa [List.append_nil], rfl⟩
  letIn_cons {name value body rest fragment helpers} h := by
    simp only [target, bindAround, Emit.produces_bind, Emit.produces_pure] at h
    obtain ⟨_, _, ⟨inner, before, hinner, _, ⟨code, after, hcode, _, ⟨rfl, rfl⟩, rfl⟩, rfl⟩, _,
      ⟨rfl, rfl⟩, rfl⟩ := h
    have hrest : (target.letIn rest body).Produces (.atom inner) before := by
      simp only [target, Emit.produces_bind, Emit.produces_pure]
      exact ⟨inner, before, hinner, [], ⟨rfl, rfl⟩, List.append_nil _⟩
    refine ⟨.atom inner, before, code, after, hrest, hcode, rfl, fun hbody hvalue => ?_⟩
    simp only [List.append_nil]
    exact spelled_bound name hbody hvalue
  lambda {params body l fragment helpers} hbody h := by
    simp only [target, Emit.produces_bind] at h
    obtain ⟨code, noted, hcode, after, h, rfl⟩ := h
    have hspelled := hbody.code hcode
    cases params with
    | nil =>
      simp only [List.isEmpty_nil, if_true, Emit.produces_pure] at h
      obtain ⟨rfl, rfl⟩ := h
      rw [List.append_nil]
      exact ⟨spelled_thunk hspelled, rfl⟩
    | cons p ps =>
      simp only [List.isEmpty_cons, Bool.false_eq_true, if_false, Emit.produces_pure] at h
      obtain ⟨rfl, rfl⟩ := h
      rw [List.append_nil]
      exact ⟨spelled_arrow (p :: ps) hspelled, rfl⟩
  conditional htest hyes hno h := by
    simp only [target, Emit.produces_bind, Emit.produces_pure] at h
    obtain ⟨a, noted, ha, _, ⟨b, noted', hb, _, ⟨c, noted'', hc, _, ⟨rfl, rfl⟩, rfl⟩, rfl⟩, rfl⟩ := h
    refine ⟨?_, rfl⟩
    have hrow := ((((htest.wrapped ha).append (spelled_text " ? ")).append (hyes.wrapped hb)).append
      (spelled_text " : ")).append (hno.wrapped hc)
    simpa [outline, Fragment.operation, String.append_assoc] using hrow
  alternative {candidates ls ty fragment helpers} hcandidates h := by
    simp only [target, Emit.produces_bind, Emit.produces_pure, Emit.produces_require] at h
    obtain ⟨_, _, rfl, _, ⟨cs, noted, hcs, _, ⟨rfl, rfl⟩, rfl⟩, rfl⟩ := h
    refine ⟨?_, rfl⟩
    have hthunks := (spelledRow_codes hcandidates hcs).map (f := thunkScraps) (g := thunk)
      spelled_thunk
    have hcall := (spelled_helper (Helper.snake "alt")).append hthunks.separated.parens
    simpa [outline, Fragment.atom, String.append_assoc, Function.comp_def] using hcall
  call site {args fragment helpers} hargs h := by
    obtain ⟨form, hlookup, hform⟩ := Registry.exists_of_produces_call h
    have hlayout : outline.call site.name site.argTypes args = form.layout args site.argTypes := by
      simp only [outline, callLayout]
      rw [show site.argTypes.map Ty.tag = site.tags from rfl, hlookup]
    rw [hlayout]
    exact CallForm.spells_layout (Registry.of_checks rfl checks_clean hlookup) hargs hform
  executable {code scraps helpers} h := by
    have hinput : localName inputName = "_" := by decide
    have hunit := spelled_arrow [inputName] h
    rw [List.map_singleton, hinput, commaSeparated_singleton] at hunit
    exact hunit

/-! ## Names -/

section Names

variable {scope : List String}

/-- Any name is the target's own. -/
lemma all_own (names : List String) : names.all outline.own = true :=
  List.all_eq_true.mpr fun _ _ => rfl

/-- A function around a body that is well named in the scope of the parameters. -/
lemma allWellNamed_arrow {params : List String} (hparams : ∀ p ∈ params, IsIdentifier p)
    {body : List Scrap} (h : AllWellNamed outline.own (params.reverse ++ scope) body) :
    AllWellNamed outline.own scope (arrowScraps params body) :=
  allWellNamed_cons.mpr ⟨.function hparams h, allWellNamed_nil⟩

/-- A function without parameters around a well named body. -/
lemma allWellNamed_thunk {body : List Scrap} (h : AllWellNamed outline.own scope body) :
    AllWellNamed outline.own scope (thunkScraps body) :=
  allWellNamed_cons.mpr ⟨.function (List.forall_mem_nil _) h, allWellNamed_nil⟩

/-- Marking the last of well named arguments as a block. -/
lemma allWellNamed_withBlock {row : List (List Scrap)}
    (h : ∀ scraps ∈ row, AllWellNamed outline.own scope scraps) :
    ∀ scraps ∈ withBlockScraps row, AllWellNamed outline.own scope scraps := by
  induction row using withBlockScraps.induct with
  | case1 => exact h
  | case2 last =>
    have hlast := h last List.mem_cons_self
    exact List.forall_mem_singleton.mpr (allWellNamed_cons.mpr ⟨.text, hlast⟩)
  | case3 a b rest ih =>
    obtain ⟨ha, hrest⟩ := List.forall_mem_cons.mp h
    exact List.forall_mem_cons.mpr ⟨ha, ih hrest⟩

/-- The names of a call are those of its form and of its arguments.

**Proof sketch.** The pieces of the arguments are well named by assumption, and text of Ruby may
hold any name. -/
lemma CallForm.wellNamed_layout (form : CallForm) {args : List (Ir × Layout)} {types : List Ty}
    (hargs : ∀ a ∈ args, a.2.WellNamed outline.own scope) :
    (form.layout args types).WellNamed outline.own scope := by
  have hlayouts : ∀ l ∈ args.map Prod.snd, l.WellNamed outline.own scope := by
    intro l hl
    obtain ⟨a, ha, rfl⟩ := List.mem_map.mp hl
    exact hargs a ha
  have hat := wellNamed_layoutAt hlayouts
  have hreceiver := (hat 0).wrapped precedence memberOp .left
  have htext (text : String) : AllWellNamed outline.own scope (fixedText text) :=
    allWellNamed_fixedText (all_own _)
  cases form with
  | shared form => exact Form.wellNamed_layout (all_own _) hlayouts
  | block text =>
    have hrest : ∀ scraps ∈ ((args.map Prod.snd).drop 1).map Layout.scraps,
        AllWellNamed outline.own scope scraps := by
      intro scraps hscraps
      obtain ⟨l, hl, rfl⟩ := List.mem_map.mp hscraps
      exact hlayouts l (List.mem_of_mem_drop hl)
    exact allWellNamed_append.mpr ⟨allWellNamed_append.mpr ⟨hreceiver, htext text⟩,
      allWellNamed_parens (allWellNamed_separated (allWellNamed_withBlock hrest))⟩
  | dayShift op =>
    have hlhs := (hat 0).wrapped precedence op .left
    refine allWellNamed_append.mpr ⟨allWellNamed_append.mpr ⟨hlhs, htext _⟩, ?_⟩
    split
    · simp
    · exact (hat 1).wrapped precedence op .right
  | index =>
    have hkey : AllWellNamed outline.own scope _ := hat 1
    simpa [Layout.WellNamed, CallForm.layout] using ⟨hreceiver, hkey⟩

end Names

/-- The outline keeps names in their scopes.

**Proof sketch.** Each construct keeps its arguments in the scope that they are laid out in: the
parameters of a function and the name of a binding are in scope in the body, and nowhere else. -/
theorem keepsNames : outline.KeepsNames where
  literal _ _ := allWellNamed_cons.mpr ⟨.text, allWellNamed_nil⟩
  bound {name scope body value} hname hbody hvalue := by
    have hfunction : AllWellNamed outline.own scope (arrowScraps [name] body) :=
      allWellNamed_arrow (List.forall_mem_singleton.mpr hname) hbody
    rw [show outline.bound name body value =
      arrowScraps [name] body ++ .text ".call(" :: value ++ [.text ")"] from rfl]
    simpa using ⟨hfunction, hvalue⟩
  lambda {params scope body} hparams hbody := by
    simp only [Layout.WellNamed, outline]
    cases params with
    | nil => exact allWellNamed_thunk hbody
    | cons p ps => exact allWellNamed_arrow hparams hbody
  conditional {a b c scope} htest hyes hno := by
    have htest := htest.wrapped precedence "?:" .left
    have hyes := hyes.wrapped precedence "?:" .right
    have hno := hno.wrapped precedence "?:" .right
    simpa [Layout.WellNamed, outline] using ⟨htest, hyes, hno⟩
  alternative {ls scope} hls := by
    have hrow : AllWellNamed outline.own scope
        (separated (ls.map fun l => thunkScraps l.scraps)) := by
      refine allWellNamed_separated fun scraps hscraps => ?_
      obtain ⟨l, hl, rfl⟩ := List.mem_map.mp hscraps
      exact allWellNamed_thunk (hls l hl)
    exact allWellNamed_cons.mpr ⟨.fixed rfl, allWellNamed_parens hrow⟩
  call {name types args scope} hargs := by
    simp only [outline, callLayout]
    split
    · exact CallForm.wellNamed_layout _ hargs
    · exact allWellNamed_nil
  unit hscraps :=
    allWellNamed_arrow (List.forall_mem_singleton.mpr isIdentifier_inputName) hscraps

end Retarget.Ruby
