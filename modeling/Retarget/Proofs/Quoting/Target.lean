import Retarget.Proofs.Lexical
import Retarget.Proofs.Numeral
import Retarget.Proofs.Quoting.Form

set_option autoImplicit false

/-!
# Sealed code of lowered forms

A target whose every construct makes sealed code of sealed codes makes sealed code of every lowered
form of a source. Names and numbers of a source hold neither quotes nor brackets.

## Main definitions

* `Retarget.Quoting.IsInert` — a text without quotes and brackets.
* `Retarget.Target.Seals` — the constructs of a target make sealed code of sealed codes.

## Main results

* `Retarget.Target.Seals.operand` — the code of a lowered form of a source is sealed.
-/

namespace Retarget

open Quoting

/-! ## Names and numbers -/

namespace Quoting

/-- The quotes and the brackets. -/
def delimiters : List Char := quoteMarks ++ ['(', ')', '[', ']', '\x7b', '\x7d']

/-- A text without quotes and brackets. -/
def IsInert (s : String) : Prop := ∀ c ∈ s.toList, c ∉ delimiters

/-- The check of `IsInert`. -/
lemma isInert_of_all {s : String} (h : s.toList.all (· ∉ delimiters) = true) : IsInert s :=
  fun c hc => of_decide_eq_true (List.all_eq_true.mp h c hc)

/-- Characters of a kind that no delimiter is of are no delimiters. -/
lemma not_mem_delimiters {p : Char → Bool} (hp : delimiters.any p = false) {c : Char}
    (hc : p c = true) : c ∉ delimiters :=
  fun hmem => List.any_eq_false.mp hp c hmem hc

/-- A character that is no bracket opens and closes nothing. -/
lemma nestSign_of_not_mem {c : Char} (h : c ∉ delimiters) (opened : List Char) :
    nestSign opened c = some opened := by
  simp only [delimiters, List.mem_append, List.mem_cons, not_or] at h
  simp [nestSign, closer?, h]

/-- A text without quotes and brackets is bare. -/
lemma IsInert.isBare {s : String} (h : IsInert s) : isBare s = true := by
  have hplain : isPlain s = true := by
    rw [isPlain_eq, List.all_eq_true]
    exact fun c hc => decide_eq_true fun hmem => h c hc (List.mem_append_left _ hmem)
  have hnesting : ∀ cs : List Char, (∀ c ∈ cs, c ∉ delimiters) →
      nesting [] (cs.map Piece.sign) = some [] := by
    intro cs hcs
    induction cs with
    | nil => rfl
    | cons c cs ih =>
      obtain ⟨hc, hrest⟩ := List.forall_mem_cons.mp hcs
      rw [List.map_cons, nesting, List.foldlM_cons, nest, nestSign_of_not_mem hc]
      exact ih hrest
  simp [Quoting.isBare, signs_eq, hplain, hnesting s.toList h]

/-- A text without quotes and brackets behind another one. -/
lemma IsInert.append {s t : String} (hs : IsInert s) (ht : IsInert t) : IsInert (s ++ t) := by
  intro c hc
  rw [String.toList_append, List.mem_append] at hc
  exact hc.elim (hs c) (ht c)

/-- Texts without quotes and brackets, with commas between them. -/
lemma isInert_commaSeparated {ss : List String} (h : ∀ s ∈ ss, IsInert s) :
    IsInert (commaSeparated ss) := by
  induction ss with
  | nil => nofun
  | cons s ss ih =>
    obtain ⟨hs, hss⟩ := List.forall_mem_cons.mp h
    cases ss with
    | nil => simpa using hs
    | cons t ts =>
      rw [commaSeparated_cons_cons]
      have hcomma : IsInert ", " := isInert_of_all (by decide)
      exact (hs.append hcomma).append (ih hss)

end Quoting

/-- A name of the language holds neither quotes nor brackets. -/
lemma IsIdentifier.isInert {name : String} (h : IsIdentifier name) : IsInert name := by
  obtain ⟨c, cs, heq, hstart, hparts⟩ := h
  intro d hd
  rw [heq] at hd
  rcases List.mem_cons.mp hd with rfl | hd
  · exact not_mem_delimiters (by decide) hstart
  · exact not_mem_delimiters (by decide) (hparts d hd)

/-- A numeral holds neither quotes nor brackets.

**Proof sketch.** A numeral is made of digits, a point, an exponent mark and a sign, none of which
is a quote or a bracket. -/
lemma IsNumeral.isInert {s : String} (h : IsNumeral s.toList) : IsInert s := by
  have hdigits {ds : List Char} (h : ∀ c ∈ ds, c.isDigit = true) : ∀ c ∈ ds, c ∉ delimiters :=
    fun c hc => not_mem_delimiters (by decide) (h c hc)
  obtain ⟨whole, fraction, exponent, heq, hwhole, hfraction, hexponent⟩ := h
  intro c hc
  rw [heq, List.mem_append, List.mem_append] at hc
  rcases hc with (hc | hc) | hc
  · exact hdigits hwhole.2 c hc
  · rcases hfraction with rfl | ⟨ds, rfl, hds⟩
    · cases hc
    · rcases List.mem_cons.mp hc with rfl | hc
      · decide
      · exact hdigits hds.2 c hc
  · rcases hexponent with rfl | ⟨sign, ds, rfl, hsign, hds⟩
    · cases hc
    · rcases List.mem_append.mp hc with hc | hc
      · have hmarks : IsInert "e-+" := isInert_of_all (by decide)
        refine hmarks c ?_
        have hsigns : sign ⊆ ['-', '+'] := by rcases hsign with rfl | rfl | rfl <;> simp
        exact List.cons_subset_cons 'e' hsigns hc
      · exact hdigits hds.2 c hc

/-! ## Arguments of calls -/

/-- A constant that is a duration, which may be written as a count of days. -/
def Ir.isDuration (ir : Ir) : Bool :=
  match ir.literal? with
  | some (.duration _) => true
  | _ => false

/-- A constant with a number of days is a duration. -/
lemma Ir.isDuration_of_literalDays {ir : Ir} {days : Nat}
    (h : ir.literal?.bind Temporal.literalDays? = some days) : ir.isDuration = true := by
  obtain ⟨value, hvalue, hdays⟩ := Option.bind_eq_some_iff.mp h
  unfold Ir.isDuration
  rw [hvalue]
  cases value with
  | duration iso => rfl
  | int | float | bool | string | date | dateTime | null => cases hdays

/-- The calls that may shift a date. -/
def isShift (name : String) : Bool := name == "add" || name == "sub"

/-! ## Constructs -/

/-- The bound names stand for sealed codes. -/
def Quoting.SealsNames (q : Quoting) (names : Bindings) : Prop :=
  ∀ p ∈ names, q.IsSealed p.2.code

/-- The code of the argument is sealed, whatever sealed codes the bound names stand for. -/
def Operand.Seals (q : Quoting) (o : Operand) : Prop :=
  ∀ names, q.SealsNames names → o.Sound q names

/-- The constructs of the target make sealed code of sealed codes. -/
structure Target.Seals (t : Target) (q : Quoting) : Prop where
  literal {value : Literal} {names : Bindings} {fragment : Fragment} : value.IsUnsigned →
    (t.literal value).Succeeds names fragment → q.IsSealed fragment.code
  variableCode {name : String} : IsIdentifier name → q.IsSealed (t.variableCode name).code
  letIn {bindings : List (String × Operand)} {body : Operand} {names : Bindings}
    {fragment : Fragment} : (∀ b ∈ bindings, IsIdentifier b.1) → (∀ b ∈ bindings, b.2.Seals q) →
    body.Seals q → q.SealsNames names → (t.letIn bindings body).Succeeds names fragment →
      q.IsSealed fragment.code
  lambda {params : List String} {body : Operand} {names : Bindings} {fragment : Fragment} :
    (∀ p ∈ params, IsIdentifier p) → body.Sound q names →
    (t.lambda params body).Succeeds names fragment → q.IsSealed fragment.code
  conditional {test yes no : Operand} {ty : Ty} {names : Bindings} {fragment : Fragment} :
    test.Sound q names → yes.Sound q names → no.Sound q names →
    (t.conditional test yes no ty).Succeeds names fragment → q.IsSealed fragment.code
  alternative {candidates : List Operand} {ty : Ty} {names : Bindings} {fragment : Fragment} :
    (∀ o ∈ candidates, o.Sound q names) →
    (t.alternative candidates ty).Succeeds names fragment → q.IsSealed fragment.code
  call {site : Site} {names : Bindings} {fragment : Fragment} :
    (∀ o ∈ site.operands, o.Sound q names) → (t.call site).Succeeds names fragment →
      q.IsSealed fragment.code

namespace Target

variable {t : Target} {q : Quoting}

/-- The arguments are lowered forms one by one. -/
lemma operands_eq_map (t : Target) (irs : List Ir) : operands t irs = irs.map t.operand := by
  induction irs with
  | nil => rfl
  | cons ir irs ih => exact congrArg _ ih

/-- The argument at a place is the lowered form there. -/
lemma getElem?_operands (t : Target) {irs : List Ir} {i : Nat} {ir : Ir} (h : irs[i]? = some ir) :
    (operands t irs)[i]? = some (t.operand ir) := by
  rw [operands_eq_map, List.getElem?_map, h, Option.map_some]

/-- There are as many arguments as lowered forms. -/
lemma length_operands (t : Target) (irs : List Ir) : (operands t irs).length = irs.length := by
  rw [operands_eq_map, List.length_map]

/-- The bound values are lowered forms one by one. -/
lemma boundOperands_eq_map (t : Target) (bindings : List (String × Ir)) :
    boundOperands t bindings = bindings.map fun b => (b.1, t.operand b.2) := by
  induction bindings with
  | nil => rfl
  | cons b bindings ih => exact congrArg _ ih

/-- The code of a lexical form is sealed, whatever sealed codes the bound names stand for.

**Proof sketch.** By induction on the form. A name that is not bound is written as a variable; a
bound one stands for a code that is sealed by assumption. Every other form is the field of
`Target.Seals` for it, applied to the induction hypotheses. -/
theorem Seals.operand (h : t.Seals q) {ir : Ir} (hlexical : ir.Lexical) :
    (t.operand ir).Seals q := by
  induction hlexical with
  | literal hvalue =>
    intro names hnames fragment hfragment
    exact h.literal hvalue hfragment
  | @var name ty hname =>
    intro names hnames fragment hfragment
    have hwritten : (t.fragment (.var name ty)).Succeeds names fragment := hfragment
    simp only [Target.fragment, Emit.succeeds_bind, Emit.succeeds_lookup, Emit.succeeds_pure,
      exists_eq_left'] at hwritten
    subst hwritten
    cases hlookup : names.lookup name with
    | none => exact h.variableCode hname
    | some bound =>
      obtain ⟨before, after, heq, -⟩ := List.lookup_eq_some_iff.mp hlookup
      exact hnames (name, bound) (by simp [heq])
  | @letIn bindings body ty hnames hvalues hbody ihvalues ihbody =>
    intro names hsealed fragment hfragment
    have hbound : ∀ b ∈ boundOperands t bindings, IsIdentifier b.1 ∧ b.2.Seals q := by
      intro b hb
      rw [boundOperands_eq_map] at hb
      obtain ⟨p, hp, rfl⟩ := List.mem_map.mp hb
      exact ⟨hnames p hp, ihvalues p hp⟩
    exact h.letIn (fun b hb => (hbound b hb).1) (fun b hb => (hbound b hb).2) ihbody hsealed hfragment
  | lambda hparams hbody ih =>
    intro names hnames fragment hfragment
    exact h.lambda hparams (ih names hnames) hfragment
  | cond _ _ _ ihtest ihyes ihno =>
    intro names hnames fragment hfragment
    exact h.conditional (ihtest names hnames) (ihyes names hnames) (ihno names hnames) hfragment
  | @alternative candidates ty _ ih =>
    intro names hnames fragment hfragment
    refine h.alternative (fun o ho => ?_) hfragment
    rw [operands_eq_map] at ho
    obtain ⟨ir, hir, rfl⟩ := List.mem_map.mp ho
    exact ih ir hir names hnames
  | @call name args argTypes ty _ ih =>
    intro names hnames fragment hfragment
    refine h.call (fun o ho => ?_) hfragment
    change o ∈ operands t args at ho
    rw [operands_eq_map] at ho
    obtain ⟨ir, hir, rfl⟩ := List.mem_map.mp ho
    exact ih ir hir names hnames

end Target

end Retarget
