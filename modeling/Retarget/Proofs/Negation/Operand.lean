import Retarget.Proofs.Calling.Ruby
import Retarget.Proofs.Negation.Bindings
import Retarget.Proofs.Negation.Lead

set_option autoImplicit false

/-!
# What Ruby code starts with

The lead of the code of a lowered form follows from the form of its calls: a method call, an indexed
read and a truncated quotient start with their receiver, a power with its base, and everything else
with a text of its own. Code that may stand behind a minus without parentheses shows only operators
that bind tighter.

## Main definitions

* `Retarget.Ruby.head` — the lead and the operator of the code of a lowered form.
* `Retarget.Ruby.lead` — what the code starts with behind a minus.

## Main results

* `Retarget.Ruby.fits_form`, `Retarget.Ruby.fits_call` — the code of a call has the lead and the
  operator that follow from its form, if the code of every argument has its own.
-/

namespace Retarget.Ruby

open Quoting

/-! ## Heads -/

/-- The lead of a code and the operator at its top level. -/
structure Head where
  lead : Lead
  op : Option String
deriving DecidableEq, Repr

/-- A code that starts with neither a number nor an operand, and has no operator. -/
instance : Inhabited Head := ⟨.other, none⟩

namespace Head

/-- The lead on a side of an operator, where the code may have parentheses around it. -/
def wrap (h : Head) (outer : String) (side : Side) : Lead :=
  if precedence.needsParens h.op outer side then .other else h.lead

/-- The lead of what is called on the code, or read from it. -/
def received (h : Head) : Lead := (h.wrap memberOp .left).extended

end Head

/-- The heads of the arguments with the first two exchanged. -/
def exchangedHeads : List Head → List Head
  | a :: b :: hs => b :: a :: hs
  | hs => hs

/-- The head of a call by its form and the heads of its arguments. -/
def headOf : Form → List Head → Head
  | .constant _ op, _ => ⟨.other, op⟩
  | .identity, hs => hs.getD 0 default
  | .infixOp op, hs => ⟨((hs.getD 0 default).wrap op .left).raised, some op⟩
  | .prefixOp key _, _ => ⟨.other, some key⟩
  | .sequence _ _, _ | .helper _, _ | .record _, _ => default
  | .method _, hs => ⟨(hs.getD 0 default).received, none⟩
  | .suffix _ op, hs => ⟨(hs.getD 0 default).received, op⟩
  | .enclosed opening inner _ op, hs =>
    ⟨if opening = "" then (headOf inner hs).lead.extended else .other, op⟩
  | .exchanged inner, hs => headOf inner (exchangedHeads hs)

/-- The head of a call by its form and the heads of its arguments. -/
def CallForm.head : CallForm → List Head → Head
  | .shared form, hs => headOf form hs
  | .block _, hs | .index, hs => ⟨(hs.getD 0 default).received, none⟩
  | .dayShift op, _ => ⟨.other, some op⟩

mutual

/-- The head of the code of a lowered form. -/
def head : Ir → Head
  | .literal (.int _) _ | .literal (.float _) _ => ⟨.number, none⟩
  | .literal _ _ | .var _ _ | .letIn _ _ _ | .lambda _ _ _ | .alternative _ _ => default
  | .cond _ _ _ _ => ⟨.other, some "?:"⟩
  | .call name args argTypes _ =>
    match registry.lookup name (argTypes.map Ty.tag) with
    | .ok form => form.head (heads args)
    | .error _ => default

/-- The heads of a row of arguments. -/
def heads : List Ir → List Head
  | [] => []
  | ir :: irs => head ir :: heads irs

end

/-- What the code of a lowered form starts with, as it is written behind a minus. -/
def lead (ir : Ir) : Lead := (head ir).wrap "u-" .right

/-! ## Fitting heads -/

/-- The code is sealed and has the operator; where it needs no parentheses behind a minus it is tight
and has the lead. -/
structure Head.Fits (h : Head) (fragment : Fragment) : Prop where
  isSealed : quoting.IsSealed fragment.code
  op : fragment.op = h.op
  tight : binds h.op = true → Tight h.lead fragment.code

/-- Writing the argument gives code that the head fits. -/
def Head.Describes (h : Head) (o : Operand) : Prop :=
  ∀ fragment, o.fragment.Succeeds [] fragment → h.Fits fragment

/-- The operators that no looser operator stands under without parentheses. -/
def tightOps : List String := [memberOp, "**", "!", "u-"]

/-- What stands under such an operator without parentheses may stand behind a minus. -/
lemma binds_of_not_needsParens {op : Option String} {outer : String} {side : Side}
    (houter : outer ∈ tightOps) (h : precedence.needsParens op outer side = false) :
    binds op = true := by
  have hentries : ∀ e ∈ precedence, ∀ outer ∈ tightOps, ∀ side ∈ [Side.left, .right],
      precedence.needsParens (some e.1) outer side = false → binds (some e.1) = true := by
    decide
  cases op with
  | none => rfl
  | some op =>
    cases hentry : precedence.get? op with
    | none => simp [PrecedenceTable.needsParens, hentry] at h
    | some entry =>
      obtain ⟨before, after, heq, -⟩ := List.lookup_eq_some_iff.mp hentry
      have hmem : (op, entry) ∈ precedence := by simp [heq]
      exact hentries _ hmem outer houter side (by cases side <;> simp) h

section Operands

variable {h : Head} {o : Operand} {code : String}

/-- An argument that has a head is written as sealed code. -/
lemma Head.Describes.sound (ho : h.Describes o) : o.Sound quoting [] :=
  fun fragment hfragment => (ho fragment hfragment).isSealed

/-- An argument on a side of an operator that no looser one stands under. -/
lemma Head.Describes.tight_wrapped (ho : h.Describes o) {outer : String} {side : Side}
    (houter : outer ∈ tightOps) (hcode : (o.wrapped precedence outer side).Succeeds [] code) :
    Tight (h.wrap outer side) code := by
  simp only [Operand.wrapped, Emit.succeeds_bind, Emit.succeeds_pure] at hcode
  obtain ⟨fragment, hfragment, rfl⟩ := hcode
  have hfits := ho fragment hfragment
  rw [PrecedenceTable.wrap, Head.wrap, hfits.op]
  split_ifs with hparens
  · exact tight_parens hfits.isSealed
  · exact hfits.tight (binds_of_not_needsParens houter (Bool.eq_false_iff.mpr hparens))

variable {hs : List Head} {os : List Operand}

/-- Arguments that have heads are written as sealed code. -/
lemma forall_sound (hos : List.Forall₂ Head.Describes hs os) : ∀ o ∈ os, o.Sound quoting [] := by
  induction hos with
  | nil => exact List.forall_mem_nil _
  | cons ho _ ih => exact List.forall_mem_cons.mpr ⟨ho.sound, ih⟩

/-- The head of the argument at a place; an argument that the call does not have is never
written. -/
lemma describes_operand {site : Site} (hsite : List.Forall₂ Head.Describes hs site.operands)
    (i : Nat) : (hs.getD i default).Describes (site.operand i) := by
  unfold Site.operand
  generalize site.operands = os at hsite
  induction hsite generalizing i with
  | nil => exact fun fragment hfragment => (Emit.succeeds_fail.mp hfragment).elim
  | cons ho _ ih =>
    cases i with
    | zero => exact ho
    | succ i => exact ih i

end Operands

/-! ## Forms -/

/-- A text without blanks that starts like a name. -/
def isWordlike (s : List Char) : Bool := s.head?.any Grammar.isNameStart && !s.contains ' '

/-- The text of a method or a member. -/
def isMember (text : String) : Bool :=
  match text.toList with
  | '.' :: cs => isWordlike cs
  | _ => false

/-- The form is a method call. -/
def isMethod : Form → Bool
  | .method text => isMember text
  | _ => false

/-- The form is an operation that binds no tighter than a minus. -/
def isLoose : Form → Bool
  | .infixOp op => !binds (some op)
  | _ => false

/-- Code in the form that binds tighter than a minus starts with no number of its own, and shows no
operator that binds looser. The names of helpers are looked at elsewhere. -/
def isTight : Form → Bool
  | .constant code op => !binds op || (isBare code && isWordlike code.toList)
  | .identity | .helper _ | .record _ => true
  | .infixOp op => !binds (some op) || op == "**"
  | .prefixOp key text => !binds (some key) || (key == "!" && text == "!")
  | .sequence opening closing => isFrame opening closing
  | .method text | .suffix text _ => isMember text
  | .enclosed opening inner closing _ =>
    if opening = "" then isMethod inner && isMember closing else isFrame opening closing
  | .exchanged inner => isLoose inner

/-- The same for the forms of Ruby. -/
def CallForm.isTight : CallForm → Bool
  | .shared form => Ruby.isTight form
  | .block text => isMember text
  | .dayShift op => !binds (some op)
  | .index => true

/-- All forms of Ruby are tight where they have to be. -/
lemma tight_registry : registry.checks (fun _ form => form.isTight) = true := by
  decide +kernel

/-- Text that keeps brackets matched behind a code is bare. -/
lemma isBare_of_frames {text : String} (h : frames "" text = true) : isBare text = true := by
  have hopened : nesting [] (signs "") = some [] := rfl
  simp only [frames, fits, hopened, Bool.and_eq_true] at h
  obtain ⟨-, -, hplain, hnesting⟩ := h
  split at hnesting
  · rename_i opened hleft
    obtain rfl := List.isEmpty_iff.mp hnesting
    simp [isBare, hplain, hleft]
  · cases hnesting

section Texts

variable {lead : Lead} {code text : String}

/-- A text that is like a word has a first character, which starts a name, and no blanks. -/
lemma exists_of_isWordlike {s : List Char} (h : isWordlike s = true) :
    ' ' ∉ s ∧ ∃ c cs, s = c :: cs ∧ Grammar.isNameStart c = true := by
  simp only [isWordlike, Bool.and_eq_true, Bool.not_eq_true', List.contains_eq_mem,
    decide_eq_false_iff_not] at h
  obtain ⟨c, hc, hstart⟩ := (Option.any_eq_true _ _).mp h.1
  obtain ⟨cs, rfl⟩ := List.head?_eq_some_iff.mp hc
  exact ⟨h.2, c, cs, rfl, hstart⟩

/-- A text without blanks that starts like a name. -/
lemma tight_of_isWordlike (hbare : isBare text = true) (h : isWordlike text.toList = true) :
    Tight .other text := by
  obtain ⟨hblank, c, cs, hlist, hstart⟩ := exists_of_isWordlike h
  refine ⟨firm_of_isBare hbare hblank (p := Grammar.isNameStart) (by decide) ?_, ?_⟩
  · simpa [hlist] using hstart
  · rw [hlist]
    rintro d ⟨⟩
    exact Grammar.isDigit_of_isNameStart hstart

/-- A member of the code, with a text behind it that shows no blank. -/
lemma Tight.member (h : Tight lead code) (hbare : isBare text = true) (htext : isMember text = true)
    {shown : List Char} {rest : String} (hrest : quoting.Exposes shown rest) (hblank : ' ' ∉ shown) :
    Tight lead.extended (code ++ (text ++ rest)) := by
  unfold isMember at htext
  split at htext
  · rename_i cs hlist
    obtain ⟨hwords, c, ds, rfl, hstart⟩ := exists_of_isWordlike htext
    have htextBlank : ' ' ∉ text.toList := by simpa [hlist] using hwords
    refine h.extended (hrest.bare_append hbare) ?_ ?_
    · exact List.not_mem_append (mt mem_of_mem_outside_signs htextBlank) hblank
    · rw [String.toList_append, hlist]
      simpa [Lead.isTail] using Grammar.isDigit_of_isNameStart hstart
  · cases htext

/-- No code shows nothing. -/
lemma exposes_empty : quoting.Exposes [] "" := exposes_of_isBare (by decide)

/-- A row of arguments in parentheses shows no blank. -/
lemma exposes_arguments {row : String} (h : quoting.IsSealed row) :
    quoting.Exposes ['('] ("(" ++ row ++ ")") :=
  exposes_enclosed (by decide) h

/-- A method call. -/
lemma Tight.method (h : Tight lead code) (hbare : isBare text = true) (htext : isMember text = true)
    {row : String} (hrow : quoting.IsSealed row) :
    Tight lead.extended (code ++ text ++ "(" ++ row ++ ")") := by
  have hcall := h.member hbare htext (exposes_arguments hrow) (by decide)
  simpa only [← String.append_assoc] using hcall

/-- A member read. -/
lemma Tight.suffix (h : Tight lead code) (hbare : isBare text = true)
    (htext : isMember text = true) : Tight lead.extended (code ++ text) := by
  have hread := h.member hbare htext exposes_empty List.not_mem_nil
  simpa only [String.append_empty] using hread

/-- A read by an index. -/
lemma Tight.index (h : Tight lead code) {key : String} (hkey : quoting.IsSealed key) :
    Tight lead.extended (code ++ "[" ++ key ++ "]") := by
  have hindex : quoting.Exposes ['['] ("[" ++ key ++ "]") := exposes_enclosed (by decide) hkey
  have hread := h.extended hindex (by decide) (by simp [Lead.isTail])
  simpa only [← String.append_assoc] using hread

/-- A call of a helper. -/
lemma tight_helper {name row : String} (hname : name ∈ assisted.map Helper.snake)
    (hrow : quoting.IsSealed row) : Tight .other (name ++ "(" ++ row ++ ")") := by
  have hchars := List.all_eq_true.mp (continuesName_of_mem hname)
  have hinert : IsInert name := fun c hc => not_mem_delimiters (by decide) (hchars c hc)
  have hblank : ' ' ∉ name.toList := fun hmem => absurd (hchars ' ' hmem) (by decide)
  obtain ⟨function, -, rfl⟩ := List.mem_map.mp hname
  have hhead : (Helper.snake function).toList = 'e' :: ("lo_" ++ function).toList := by
    simp [Helper.snake]
  have hfirm : quoting.Firm looser (Helper.snake function) :=
    firm_of_isBare hinert.isBare hblank (p := Grammar.isNameStart) (by decide) (by rw [hhead]; rfl)
  have hcall := hfirm.extended lawful (exposes_arguments hrow) (by simp [Clear]; decide) (by decide)
  refine ⟨by simpa only [← String.append_assoc] using hcall, ?_⟩
  rw [String.toList_append, String.toList_append, String.toList_append, hhead]
  rintro c ⟨⟩
  decide

/-- Pairs in braces. -/
lemma tight_braced {pairs : List String} (h : quoting.IsSealed (commaSeparated pairs)) :
    Tight .other (braced pairs) := by
  unfold braced
  split_ifs with hempty
  · have hempty : quoting.IsSealed "" := exposes_empty.isSealed
    have hbraces : isFrame "\x7b" "\x7d" = true := by decide
    exact tight_enclosed hbraces hempty
  · exact tight_enclosed (by decide) h

end Texts

/-! ## Calls -/

section Calls

variable {site : Site} {hs : List Head} (hsite : List.Forall₂ Head.Describes hs site.operands)
  {fragment : Fragment}

include hsite

/-- The receiver of a call. -/
lemma tight_receiver {receiver : String} (h : (site.receiver precedence).Succeeds [] receiver) :
    Tight ((hs.getD 0 default).wrap memberOp .left) receiver :=
  (describes_operand hsite 0).tight_wrapped (by decide) h

/-- The arguments behind the receiver. -/
lemma isSealed_arguments {row : String} (h : (codeList (site.operands.drop 1)).Succeeds [] row) :
    quoting.IsSealed row :=
  (writes_codeList (fun o ho => forall_sound hsite o (List.mem_of_mem_drop ho)) h).1

/-- A method call in a shared form. -/
lemma tight_method {text : String} (hbare : isBare text = true) (htext : isMember text = true)
    (h : ((Form.method text).emit precedence site).Succeeds [] fragment) :
    Tight (hs.getD 0 default).received fragment.code := by
  simp only [Form.emit, Emit.succeeds_bind, Emit.succeeds_pure] at h
  obtain ⟨receiver, hreceiver, row, hrow, rfl⟩ := h
  exact (tight_receiver hsite hreceiver).method hbare htext (isSealed_arguments hsite hrow)

/-- The head of a call in a shared form.

**Proof sketch.** One case for each form. Text in front of a code decides what the call starts
with, and a receiver or a left operand keeps its own lead in front of a call or an operator. The
check of the form says that the text shows no operator looser than a minus, where the code may stand
behind one without parentheses. -/
theorem fits_form {form : Form} (hsound : form.isSound quoting = true) (htight : isTight form = true)
    (hown : ∀ name ∈ form.own, name ∈ assisted.map Helper.snake)
    (h : (form.emit precedence site).Succeeds [] fragment) : (headOf form hs).Fits fragment := by
  have hsealed := (Form.writes_emit hsound (forall_sound hsite) h).1
  cases form with
  | constant code op =>
    simp only [Form.emit, Emit.succeeds_pure] at h
    subst h
    refine ⟨hsealed, rfl, fun hbinds => ?_⟩
    have htext : isBare code = true ∧ isWordlike code.toList = true := by
      simpa [isTight, show binds op = true from hbinds] using htight
    exact tight_of_isWordlike htext.1 htext.2
  | identity => exact describes_operand hsite 0 fragment h
  | infixOp op =>
    simp only [Form.emit, Emit.succeeds_bind, Emit.succeeds_pure] at h
    obtain ⟨a, ha, b, hb, rfl⟩ := h
    refine ⟨hsealed, rfl, fun hbinds => ?_⟩
    obtain rfl : op = "**" := by simpa [isTight, show binds (some op) = true from hbinds] using htight
    exact ((describes_operand hsite 0).tight_wrapped (by decide) ha).raised
      ((describes_operand hsite 1).tight_wrapped (by decide) hb)
  | prefixOp key text =>
    simp only [Form.emit, Emit.succeeds_bind, Emit.succeeds_pure] at h
    obtain ⟨a, ha, rfl⟩ := h
    refine ⟨hsealed, rfl, fun hbinds => ?_⟩
    obtain ⟨rfl, rfl⟩ : key = "!" ∧ text = "!" := by
      simpa [isTight, show binds (some key) = true from hbinds] using htight
    exact ((describes_operand hsite 0).tight_wrapped (by decide) ha).inverted
  | sequence opening closing =>
    simp only [Form.emit, Emit.succeeds_bind, Emit.succeeds_pure] at h
    obtain ⟨row, hrow, rfl⟩ := h
    have hrow := (writes_codeList (forall_sound hsite) hrow).1
    exact ⟨hsealed, rfl, fun _ => tight_enclosed htight hrow⟩
  | helper name =>
    simp only [Form.emit, Emit.succeeds_bind, Emit.succeeds_pure, Emit.succeeds_require] at h
    obtain ⟨-, -, row, hrow, rfl⟩ := h
    have hrow := (writes_codeList (forall_sound hsite) hrow).1
    exact ⟨hsealed, rfl, fun _ => tight_helper (hown name List.mem_cons_self) hrow⟩
  | method text =>
    have hcode := tight_method hsite hsound htight h
    simp only [Form.emit, Emit.succeeds_bind, Emit.succeeds_pure] at h
    obtain ⟨receiver, -, row, -, rfl⟩ := h
    exact ⟨hsealed, rfl, fun _ => hcode⟩
  | suffix text op =>
    simp only [Form.emit, Emit.succeeds_bind, Emit.succeeds_pure] at h
    obtain ⟨receiver, hreceiver, rfl⟩ := h
    exact ⟨hsealed, rfl, fun _ => (tight_receiver hsite hreceiver).suffix hsound htight⟩
  | enclosed opening inner closing op =>
    simp only [Form.isSound, Bool.and_eq_true] at hsound
    simp only [Form.emit, Emit.succeeds_bind, Emit.succeeds_pure] at h
    obtain ⟨inside, hinside, rfl⟩ := h
    refine ⟨hsealed, rfl, fun _ => ?_⟩
    simp only [isTight, headOf] at htight ⊢
    -- Without text in front it is a member that is read behind a method call.
    split_ifs at htight ⊢ with hopening
    · subst hopening
      obtain ⟨hmethod, hclosing⟩ := Bool.and_eq_true_iff.mp htight
      cases inner with
      | method text =>
        have hread := (tight_method hsite hsound.2 hmethod hinside).suffix (isBare_of_frames hsound.1)
          hclosing
        rw [String.empty_append]
        exact hread
      | constant | identity | infixOp | prefixOp | sequence | helper | suffix | enclosed | exchanged
      | record => cases hmethod
    · have hinner := (Form.writes_emit hsound.2 (forall_sound hsite) hinside).1
      exact tight_enclosed htight hinner
  | exchanged inner =>
    cases inner with
    | infixOp op =>
      simp only [Form.emit, Emit.succeeds_bind, Emit.succeeds_pure] at h
      obtain ⟨a, ha, b, hb, rfl⟩ := h
      refine ⟨hsealed, rfl, fun hbinds => ?_⟩
      rw [isTight, isLoose, show binds (some op) = true from hbinds] at htight
      cases htight
    | constant | identity | prefixOp | sequence | helper | method | suffix | enclosed | exchanged
    | record => cases htight
  | record mark =>
    simp only [Form.emit, Emit.succeeds_bind, Emit.succeeds_pure] at h
    obtain ⟨pairs, hpairs, rfl⟩ := h
    have hrow := writes_commaSeparated
      (forall₂_keyValueCodes hsound (forall_sound hsite) hpairs)
    exact ⟨hsealed, rfl, fun _ => tight_braced hrow.1⟩

end Calls

/-- The head of a call by its form.

**Proof sketch.** The forms that all targets share are dealt with above. A block call, a shift of a
date and an index have the lead of their receiver with what is called on it or read from it. -/
theorem fits_call (site : Site) {hs : List Head} {fragment : Fragment}
    (hsite : List.Forall₂ Head.Describes hs site.operands)
    (h : (target.call site).Succeeds [] fragment) :
    ∃ form, registry.lookup site.name site.tags = .ok form ∧ (form.head hs).Fits fragment := by
  obtain ⟨form, hlookup, hemit⟩ := Registry.exists_of_call h
  have hchecks := Registry.of_checks rfl checks_registry hlookup
  have hsound := (Bool.and_eq_true_iff.mp hchecks).1
  have htight : form.isTight = true := Registry.of_checks rfl tight_registry hlookup
  have hsealed := (writes_emit hsound (forall_sound hsite) hemit).1
  refine ⟨form, hlookup, ?_⟩
  cases form with
  | shared form =>
    exact fits_form hsite hsound htight (fun name hname => own_mem hlookup hname) hemit
  | block text =>
    simp only [CallForm.emit, Emit.succeeds_bind, Emit.succeeds_pure] at hemit
    obtain ⟨receiver, hreceiver, cs, hcs, rfl⟩ := hemit
    have hsoundArguments : ∀ o ∈ site.operands.drop 1, o.Sound quoting [] :=
      fun o ho => forall_sound hsite o (List.mem_of_mem_drop ho)
    have hrow := writes_commaSeparated (forall₂_withBlock (forall₂_codes hsoundArguments hcs))
    exact ⟨hsealed, rfl, fun _ => (tight_receiver hsite hreceiver).method hsound htight hrow.1⟩
  | dayShift op =>
    have hop : fragment.op = some op := by
      simp only [CallForm.emit, Emit.succeeds_bind] at hemit
      obtain ⟨lhs, -, hemit⟩ := hemit
      split at hemit <;> simp only [Emit.succeeds_bind, Emit.succeeds_pure] at hemit <;>
        obtain ⟨rhs, -, rfl⟩ := hemit <;> rfl
    refine ⟨hsealed, hop, fun hbinds => ?_⟩
    rw [CallForm.isTight, show binds (some op) = true from hbinds] at htight
    cases htight
  | index =>
    simp only [CallForm.emit, Emit.succeeds_bind, Emit.succeeds_pure] at hemit
    obtain ⟨receiver, hreceiver, key, hkey, rfl⟩ := hemit
    have hkey := ((describes_operand hsite 1).sound.writes_code hkey).1
    exact ⟨hsealed, rfl, fun _ => (tight_receiver hsite hreceiver).index hkey⟩

end Retarget.Ruby
