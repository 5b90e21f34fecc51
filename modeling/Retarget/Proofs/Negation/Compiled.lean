import Retarget.Proofs.Negation.Operand
import Retarget.Proofs.Quoting.Ways

set_option autoImplicit false

/-!
# The reach of a minus in compiled Ruby

Every minus that is written for the sign of an expression applies to the whole code of that
expression, but for one case: where the code starts with a number that a method is called on, or that
is read by an index, the minus is read as a part of that number.

## Main results

* `Retarget.Ruby.describes_ir` — the code of a lowered form has its lead and its operator.
* `Retarget.Ruby.negatesAll_minus_iff` — a minus in compiled code applies to its whole operand exactly
  where the operand does not start with a number that something is called on.
-/

namespace Retarget

open Quoting

namespace Ruby

/-! ## Constants and names -/

/-- The characters of a numeral. -/
lemma forall_mem_of_isNumeral {p : Char → Prop} {s : List Char} (h : IsNumeral s)
    (hdigit : ∀ c, c.isDigit = true → p c) (hmark : ∀ c ∈ ['.', 'e', '-', '+'], p c) :
    ∀ c ∈ s, p c := by
  have hdigits {ds : List Char} (hds : IsDigits ds) : ∀ c ∈ ds, p c := fun c hc => hdigit c (hds.2 c hc)
  obtain ⟨whole, fraction, exponent, rfl, hwhole, hfraction, hexponent⟩ := h
  refine List.forall_mem_append.mpr ⟨List.forall_mem_append.mpr ⟨hdigits hwhole, ?_⟩, ?_⟩
  · rcases hfraction with rfl | ⟨ds, rfl, hds⟩
    · exact List.forall_mem_nil _
    · exact List.forall_mem_cons.mpr ⟨hmark '.' (by simp), hdigits hds⟩
  · rcases hexponent with rfl | ⟨sign, ds, rfl, hsign, hds⟩
    · exact List.forall_mem_nil _
    · have hsigns : ∀ c ∈ sign, p c := by
        rcases hsign with rfl | rfl | rfl
        · exact List.forall_mem_nil _
        · exact List.forall_mem_singleton.mpr (hmark '-' (by simp))
        · exact List.forall_mem_singleton.mpr (hmark '+' (by simp))
      refine List.forall_mem_append.mpr ⟨?_, hdigits hds⟩
      exact List.forall_mem_cons.mpr ⟨hmark 'e' (by simp), hsigns⟩

/-- A number is a lead of its own. -/
lemma tight_numeral {s : String} (h : IsNumeral s.toList) : Tight .number s := by
  have hblank : ' ' ∉ s.toList := by
    intro hmem
    refine forall_mem_of_isNumeral (p := (· ≠ ' ')) h ?_ (by simp) ' ' hmem rfl
    rintro c hc rfl
    exact absurd hc (by decide)
  refine ⟨firm_of_isBare h.isInert.isBare hblank (p := Char.isDigit) (by decide) ?_, h⟩
  obtain ⟨whole, fraction, exponent, heq, ⟨hne, hdigits⟩, -, -⟩ := h
  cases whole with
  | nil => exact absurd rfl hne
  | cons c cs => simpa [heq] using hdigits c List.mem_cons_self

/-- The head of a constant. -/
lemma fits_literal {value : Literal} (h : value.IsUnsigned) (ty : Ty) :
    (head (.literal value ty)).Fits (.atom (literalCode value)) := by
  refine ⟨isSealed_literalCode h, ?_, fun _ => ?_⟩
  · cases value <;> rfl
  · cases value with
    | int v => exact tight_numeral (isNumeral_toString h)
    | float x => exact tight_numeral (isNumeral_write _ h.1 h.2)
    | bool b => cases b <;> exact tight_of_isWordlike (by decide) (by decide)
    | string s =>
      have hexposes : quoting.Exposes ['\x27'] (quote s) := ⟨_, seals_quote s, rfl⟩
      refine ⟨⟨_, hexposes, by decide⟩, ?_⟩
      change HeadFails Char.isDigit (quote s).toList
      rw [toList_quote]
      rintro c ⟨⟩
      decide
    | date s | dateTime s | duration s => exact tight_enclosed (by decide) (isSealed_quote s)
    | null => exact tight_of_isWordlike (by decide) (by decide)

/-- A variable starts like a name. -/
lemma tight_localName {name : String} (h : IsIdentifier name) : Tight .other (localName name) := by
  obtain ⟨c, cs, heq, hstart, hparts⟩ := Grammar.exists_cons_of_isWord (isWord_localName h)
  have hblank : ' ' ∉ c :: cs := fun hmem => absurd (hparts ' ' hmem) (by decide)
  refine tight_of_isWordlike (isInert_localName h).isBare ?_
  rw [heq]
  simp only [isWordlike, List.head?_cons, Option.any_some, hstart, Bool.true_and,
    List.contains_eq_mem, hblank, decide_false, Bool.not_false]

/-! ## Constructs -/

section Constructs

variable {body value : String}

/-- A function around a body. -/
lemma tight_arrow {params : String} (hparams : IsInert params) (hbody : quoting.IsSealed body) :
    Tight .other (arrow params body) := by
  have hfront : quoting.Exposes (frame "->(" ")") ("->(" ++ params ++ ")") :=
    exposes_enclosed (by decide) (isSealed_of_isBare hparams.isBare)
  have hback : quoting.Exposes (frame " \x7b " " \x7d") (" \x7b " ++ body ++ " \x7d") :=
    exposes_enclosed (by decide) hbody
  have hcode : arrow params body = "->(" ++ params ++ ")" ++ (" \x7b " ++ body ++ " \x7d") := by
    have hmiddle : ") \x7b " = ")" ++ " \x7b " := rfl
    simp only [arrow, hmiddle, String.append_assoc]
  have hclear : Clear (" \x7b " ++ body ++ " \x7d").toList := by
    rw [String.toList_append, String.toList_append]
    rintro c ⟨⟩
    decide
  refine ⟨⟨_, hcode ▸ hfront.append lawful hback hclear, by decide⟩, ?_⟩
  rw [hcode, String.toList_append, String.toList_append, String.toList_append]
  rintro c ⟨⟩
  decide

/-- A function without parameters starts with its arrow. -/
lemma tight_thunk (hbody : quoting.IsSealed body) : Tight .other (thunk body) :=
  tight_enclosed (by decide) hbody

/-- Bindings around a body, of which there is one at least. -/
lemma tight_bindAround {b : String × Operand} {bindings : List (String × Operand)}
    {inner : Emit String} (hnames : ∀ c ∈ b :: bindings, IsIdentifier c.1)
    (hvalues : ∀ c ∈ b :: bindings, c.2.Sound quoting [])
    (hinner : ∀ code, inner.Succeeds [] code → quoting.IsSealed code) {code : String}
    (h : (bindAround (b :: bindings) inner).Succeeds [] code) : Tight .other code := by
  obtain ⟨hname, hmoreNames⟩ := List.forall_mem_cons.mp hnames
  obtain ⟨hvalue, hmoreValues⟩ := List.forall_mem_cons.mp hvalues
  simp only [bindAround, Emit.succeeds_bind, Emit.succeeds_pure] at h
  obtain ⟨inside, hinside, value, hcode, rfl⟩ := h
  have hbody := writes_bindAround hmoreNames hmoreValues
    (fun code hcode => (hinner code hcode).writes []) hinside
  have hfunction := tight_arrow (isInert_localName hname) hbody.1
  have hbare : isBare ".call" = true := by decide
  have hcall := hfunction.method hbare (by decide) (hvalue.writes_code hcode).1
  have htext : ".call(" = ".call" ++ "(" := rfl
  rwa [htext, ← String.append_assoc]

end Constructs

/-- Code that starts with a text of its own and has no operator. -/
structure Plain (fragment : Fragment) : Prop where
  op : fragment.op = none
  tight : Tight .other fragment.code

section Target

variable {fragment : Fragment}

/-- Plain code has the head that says nothing of it. -/
lemma Plain.fits (h : Plain fragment) : (default : Head).Fits fragment :=
  ⟨h.tight.firm.isSealed, h.op, fun _ => h.tight⟩

/-- The code of a variable is plain. -/
lemma plain_variable {name : String} (hname : IsIdentifier name) (ty : Ty)
    (h : (target.fragment (.var name ty)).Succeeds [] fragment) : Plain fragment := by
  simp only [Target.fragment, Emit.succeeds_bind, Emit.succeeds_lookup, Emit.succeeds_pure,
    exists_eq_left'] at h
  subst h
  exact ⟨rfl, tight_localName hname⟩

/-- The code of bindings is plain. -/
lemma plain_letIn {b : String × Operand} {bindings : List (String × Operand)} {body : Operand}
    (hnames : ∀ c ∈ b :: bindings, IsIdentifier c.1)
    (hvalues : ∀ c ∈ b :: bindings, c.2.Sound quoting []) (hbody : body.Sound quoting [])
    (h : (target.letIn (b :: bindings) body).Succeeds [] fragment) : Plain fragment := by
  simp only [target, Emit.succeeds_bind, Emit.succeeds_pure] at h
  obtain ⟨code, hcode, rfl⟩ := h
  exact ⟨rfl, tight_bindAround hnames hvalues (fun _ h => (hbody.writes_code h).1) hcode⟩

/-- The code of a function is plain. -/
lemma plain_lambda {params : List String} {body : Operand} (hparams : ∀ p ∈ params, IsIdentifier p)
    (hbody : body.Sound quoting []) (h : (target.lambda params body).Succeeds [] fragment) :
    Plain fragment := by
  simp only [target, Emit.succeeds_bind] at h
  obtain ⟨code, hcode, h⟩ := h
  have hcode := (hbody.writes_code hcode).1
  split_ifs at h
  · rw [← Emit.succeeds_pure.mp h]
    exact ⟨rfl, tight_thunk hcode⟩
  · rw [← Emit.succeeds_pure.mp h]
    refine ⟨rfl, tight_arrow (isInert_commaSeparated fun s hs => ?_) hcode⟩
    obtain ⟨p, hp, rfl⟩ := List.mem_map.mp hs
    exact isInert_localName (hparams p hp)

/-- The code of an alternative is plain. -/
lemma plain_alternative {candidates : List Operand}
    (hcandidates : ∀ o ∈ candidates, o.Sound quoting []) (ty : Ty)
    (h : (target.alternative candidates ty).Succeeds [] fragment) : Plain fragment := by
  simp only [target, Emit.succeeds_bind, Emit.succeeds_pure, Emit.succeeds_require] at h
  obtain ⟨-, -, cs, hcs, rfl⟩ := h
  have hthunks : List.Forall₂ (quoting.Writes []) (candidates.map ([·])) (cs.map thunk) :=
    List.forall₂_map_right_iff.mpr ((forall₂_codes hcandidates hcs).imp fun _ _ => writes_thunk)
  have hrow := (writes_commaSeparated hthunks).1
  exact ⟨rfl, tight_helper (List.mem_map_of_mem (by decide)) hrow⟩

/-- A conditional has the loosest operator. -/
lemma op_conditional {test yes no : Operand} (ty : Ty)
    (h : (target.conditional test yes no ty).Succeeds [] fragment) : fragment.op = some "?:" := by
  simp only [target, Emit.succeeds_bind, Emit.succeeds_pure] at h
  obtain ⟨a, -, b, -, c, -, rfl⟩ := h
  rfl

end Target

/-! ## Lowered forms -/

/-- The heads of a row of arguments. -/
lemma forall₂_heads {irs : List Ir} (h : ∀ ir ∈ irs, (head ir).Describes (target.operand ir)) :
    List.Forall₂ Head.Describes (heads irs) (Target.operands target irs) := by
  induction irs with
  | nil => exact .nil
  | cons ir irs ih =>
    obtain ⟨hir, hirs⟩ := List.forall_mem_cons.mp h
    exact .cons hir (ih hirs)

/-- The code of a lexical form is sealed. -/
lemma sound_ir {ir : Ir} (h : ir.Lexical) : (target.operand ir).Sound quoting [] :=
  seals.operand h [] (List.forall_mem_nil _)

/-- The code of a lowered form without empty bindings has its lead and its operator.

**Proof sketch.** Induction over the lowered form. Constants, names, functions, bindings and
alternatives start with texts of their own, a conditional has a loose operator, and a call follows
its form. -/
theorem describes_ir {ir : Ir} (hlexical : ir.Lexical) (hlets : ir.LetsBind) :
    (head ir).Describes (target.operand ir) := by
  induction hlexical with
  | @literal value ty hvalue =>
    intro fragment hfragment
    obtain rfl : .atom (literalCode value) = fragment := Emit.succeeds_pure.mp hfragment
    exact fits_literal hvalue ty
  | @var name ty hname => exact fun fragment hfragment => (plain_variable hname ty hfragment).fits
  | @letIn bindings body ty hnames hvalues hbody _ _ =>
    cases hlets with
    | @letIn b bindings _ _ _ _ =>
      have hbound : ∀ c ∈ Target.boundOperands target (b :: bindings),
          IsIdentifier c.1 ∧ c.2.Sound quoting [] := by
        rw [Target.boundOperands_eq_map]
        exact List.forall_mem_map.mpr fun p hp => ⟨hnames p hp, sound_ir (hvalues p hp)⟩
      intro fragment hfragment
      exact (plain_letIn (fun c hc => (hbound c hc).1) (fun c hc => (hbound c hc).2)
        (sound_ir hbody) hfragment).fits
  | @lambda params body ty hparams hbody _ =>
    exact fun fragment hfragment => (plain_lambda hparams (sound_ir hbody) hfragment).fits
  | @cond test yes no ty htest hyes hno _ _ _ =>
    intro fragment hfragment
    have hsealed := sound_ir (.cond htest hyes hno) fragment hfragment
    have hloose : binds (some "?:") = false := by decide
    refine ⟨hsealed, op_conditional ty hfragment, fun hbinds => ?_⟩
    exact Bool.noConfusion (hloose.symm.trans hbinds)
  | @alternative candidates ty hcandidates _ =>
    have hrow : ∀ o ∈ Target.operands target candidates, o.Sound quoting [] := by
      rw [Target.operands_eq_map]
      exact List.forall_mem_map.mpr fun c hc => sound_ir (hcandidates c hc)
    exact fun fragment hfragment => (plain_alternative hrow ty hfragment).fits
  | @call name args argTypes ty hargs ih =>
    intro fragment hfragment
    cases hlets with
    | call hlets =>
      have hheads := forall₂_heads fun a ha => ih a ha (hlets a ha)
      obtain ⟨form, hlookup, hfits⟩ := fits_call ⟨name, _, argTypes, ty⟩ hheads hfragment
      have hhead : head (.call name args argTypes ty) = form.head (heads args) := by
        have hfound : registry.lookup name (argTypes.map Ty.tag) = .ok form := hlookup
        rw [head, hfound]
      rwa [hhead]

/-- What stands behind a minus is tight. -/
theorem tight_operand {ir : Ir} (hlexical : ir.Lexical) (hlets : ir.LetsBind) {fragment : Fragment}
    (h : (target.fragment ir).Succeeds [] fragment) :
    Tight (lead ir) (precedence.wrap fragment "u-" .right) := by
  refine (describes_ir hlexical hlets).tight_wrapped (by decide) ?_
  simp only [Operand.wrapped, Emit.succeeds_bind, Emit.succeeds_pure]
  exact ⟨fragment, h, rfl⟩

/-! ## Compiled code -/

/-- Every `let` of a node that occurs binds a name.

**Proof sketch.** Induction over the occurrence: every step leads to a part, and names stand for no
values in Ruby. -/
lemma letsBind_of_occurs {env : List (String × Ir)} {ir node : Ir}
    (h : TargetKind.ruby.Occurs node env ir) (henv : env = []) (hlets : ir.LetsBind) :
    node.LetsBind := by
  induction h with
  | here => exact hlets
  | arg ha _ _ ih =>
    cases hlets with
    | call hargs => exact ih henv (hargs _ (List.mem_of_getElem? ha))
  | test _ ih =>
    cases hlets with
    | cond htest _ _ => exact ih henv htest
  | yes _ _ ih =>
    cases hlets with
    | cond _ hyes _ => exact ih henv hyes
  | no _ _ ih =>
    cases hlets with
    | cond _ _ hno => exact ih henv hno
  | candidate hc _ _ ih =>
    cases hlets with
    | alternative hcandidates => exact ih henv (hcandidates _ hc)
  | inside _ ih =>
    cases hlets with
    | lambda hbody => exact ih henv hbody
  | value _ hb _ ih =>
    cases hlets with
    | letIn hvalues _ => exact ih henv (hvalues _ hb)
  | body _ _ ih =>
    cases hlets with
    | letIn _ hbody => exact ih henv hbody
  | bind hkind => cases hkind
  | bound hkind => cases hkind
  | use => cases henv
  | skip => cases henv

/-- A sign has one form. -/
lemma only_neg : registry.only "neg" [.any] (.shared (.prefixOp "u-" "-")) = true := by
  decide +kernel

/-- A sign is written as a minus in front of the code of its operand. -/
lemma exists_of_minus {e : Ir} {argTypes : List Ty} {ty : Ty} {minus : Fragment}
    (h : (target.fragment (.call "neg" [e] argTypes ty)).Succeeds [] minus) :
    ∃ fragment, (target.fragment e).Succeeds [] fragment ∧
      minus.code = "-" ++ precedence.wrap fragment "u-" .right := by
  obtain ⟨form, hlookup, hemit⟩ := Registry.exists_of_call h
  obtain ⟨-, rfl⟩ := Registry.of_only rfl only_neg hlookup
  simp only [CallForm.emit, Form.emit, Emit.succeeds_bind, Emit.succeeds_pure] at hemit
  obtain ⟨operand, hoperand, rfl⟩ := hemit
  simp only [Operand.wrapped, Emit.succeeds_bind, Emit.succeeds_pure] at hoperand
  obtain ⟨fragment, hfragment, rfl⟩ := hoperand
  exact ⟨fragment, hfragment, rfl⟩

/-- For every sign that occurs in the lowered form of a source, the compiled Ruby code has a minus
right in front of the whole code of its operand, in parentheses where the precedence table asks for
them. The code starts with its lead, and the minus applies to all of it exactly where it does not
start with a number that something is called on.

**Proof sketch.** A way leads to the sign, so that its code stands in the compiled code, a minus in front
of the code of its operand. That code has the lead of the operand by induction over the lowered form, and
the lead says whether a number at its head is read with the minus. -/
theorem negatesAll_minus_iff {source : String} {ir e : Ir} {argTypes : List Ty} {ty : Ty}
    {form : OutputForm} {out : Compiled} (hsource : lowerSource source = .ok ir)
    (hcompile : compile source .ruby form = .ok out)
    (hminus : TargetKind.ruby.Occurs (.call "neg" [e] argTypes ty) [] ir) :
    ∃ fragment operand, (target.fragment e).Succeeds [] fragment ∧
      operand = precedence.wrap fragment "u-" .right ∧
      quoting.Within ("-" ++ operand) out.code ∧ (lead e).Starts operand.toList ∧
      (NegatesAll operand ↔ lead e ≠ .receiver) := by
  obtain ⟨way, env, hway⟩ := TargetKind.exists_way_of_occurs hminus nofun
  obtain ⟨names, hbound, hlexical, -, minus, hwritten, hwithin⟩ :=
    TargetKind.shows_compile hsource hcompile hway
  obtain rfl : names = [] := by
    cases hbound with
    | nil => rfl
    | cons hkind => cases hkind
  obtain ⟨fragment, hfragment, hcode⟩ := exists_of_minus hwritten
  have hlets := letsBind_of_occurs hminus rfl (letsBind_of_lowerSource hsource)
  cases hlexical with
  | call hargs =>
    cases hlets with
    | call hbinds =>
      have htight := tight_operand (hargs e List.mem_cons_self) (hbinds e List.mem_cons_self) hfragment
      exact ⟨fragment, _, hfragment, rfl, hcode ▸ hwithin, htight.starts, htight.negatesAll_iff⟩

/-- The square of an absolute value. -/
def squaredAbs : Ir :=
  .call "pow" [.call "abs" [.ofLiteral (.int 3)] [.int] .int, .ofLiteral (.int 2)] [.int, .int] .int

/-- The tokens of the sign of the square. -/
def negatedSquareTokens : List Token :=
  [⟨.punct .minus, "-", 0⟩, ⟨.punct .openParen, "(", 1⟩, ⟨.ident "abs", "abs", 2⟩,
   ⟨.punct .openParen, "(", 5⟩, ⟨.literal (.int 3), "3", 6⟩, ⟨.punct .closeParen, ")", 7⟩,
   ⟨.punct .caret, "^", 9⟩, ⟨.literal (.int 2), "2", 11⟩, ⟨.punct .closeParen, ")", 12⟩,
   Token.atEnd 13]

/-- The minus goes to the number that the absolute value is taken of. -/
theorem negatesAll_minus_squaredAbs :
    lowerSource "-(abs(3) ^ 2)" = .ok (.call "neg" [squaredAbs] [.int] .int) ∧
      compile "-(abs(3) ^ 2)" .ruby .fragment = .ok ⟨"-3.abs ** 2", []⟩ ∧
      lead squaredAbs = .receiver ∧ ¬NegatesAll "3.abs ** 2" := by
  have htokens : (tokenize "-(abs(3) ^ 2)").toOption = some negatedSquareTokens := by cbv
  have hsource : lowerSource "-(abs(3) ^ 2)" = .ok (.call "neg" [squaredAbs] [.int] .int) :=
    lowerSource_eq_ok htokens rfl rfl
  have hcompile : compile "-(abs(3) ^ 2)" .ruby .fragment = .ok ⟨"-3.abs ** 2", []⟩ := by
    simp only [compile, hsource]
    rfl
  have hlead : lead squaredAbs = .receiver := by decide +kernel
  have hwritten : (target.fragment squaredAbs).Succeeds [] (.operation "3.abs ** 2" "**") := rfl
  obtain ⟨fragment, operand, hfragment, rfl, -, -, hnegates⟩ :=
    negatesAll_minus_iff hsource hcompile .here
  obtain rfl : fragment = .operation "3.abs ** 2" "**" :=
    Except.ok.inj (hfragment.symm.trans hwritten)
  exact ⟨hsource, hcompile, hlead, fun hall => hnegates.mp hall hlead⟩

end Ruby

end Retarget
