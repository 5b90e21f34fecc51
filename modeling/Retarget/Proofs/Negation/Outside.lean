import Retarget.Proofs.Quoting.Target

set_option autoImplicit false

/-!
# Code outside of brackets

What code shows outside of its brackets and constants, word by word: a bracket is shown by the
character that opens it, and a constant by its mark. An operator that stands between blanks is a word
of its own. Code is firm if no word that it shows is a piece of an operator; then it stays so with
more text before or behind it.

## Main definitions

* `Retarget.Quoting.outside?` — what a code shows outside of its brackets.
* `Retarget.Quoting.Exposes` — sealed code and what it shows.
* `Retarget.Quoting.Firm` — no word that the code shows is a piece of an operator.

## Main results

* `Retarget.Quoting.Exposes.append`, `Retarget.Quoting.exposes_enclosed` — what codes side by side
  show, and a code in brackets.
* `Retarget.Quoting.Firm.extended`, `Retarget.Quoting.Firm.infixed` — text that keeps code firm.
-/

namespace Retarget

namespace Quoting

variable {q : Quoting}

/-! ## What pieces show -/

/-- The character that a piece starts with. -/
def Piece.mark : Piece → Char
  | .sign c => c
  | .constant mark _ => mark

/-- What a row of pieces shows outside of its brackets, where `opened` are still to be closed. -/
def outside : List Char → List Piece → List Char
  | _, [] => []
  | opened, p :: ps =>
    let rest := outside ((nest opened p).getD opened) ps
    if opened.isEmpty then p.mark :: rest else rest

/-- What a code shows outside of its brackets, if every constant in it ends. -/
def outside? (q : Quoting) (code : String) : Option (List Char) :=
  (q.pieces? 0 code.toList).map (outside [])

/-- What two rows of pieces show, where the second one starts inside of what the first one leaves
open. -/
lemma outside_append {opened left : List Char} {ps : List Piece} (h : nesting opened ps = some left)
    (qs : List Piece) : outside opened (ps ++ qs) = outside opened ps ++ outside left qs := by
  induction ps generalizing opened with
  | nil =>
    cases h
    rfl
  | cons p ps ih =>
    rw [nesting, List.foldlM_cons] at h
    obtain ⟨middle, hmiddle, h⟩ := Option.bind_eq_some_iff.mp h
    simp only [List.cons_append, outside, hmiddle, Option.getD_some, ih h]
    split_ifs <;> rfl

/-- Pieces show nothing where a bracket around them is open. -/
lemma outside_nested {opened left outer : List Char} {ps : List Piece}
    (h : nesting opened ps = some left) (houter : outer ≠ []) : outside (opened ++ outer) ps = [] := by
  induction ps generalizing opened with
  | nil => rfl
  | cons p ps ih =>
    rw [nesting, List.foldlM_cons] at h
    obtain ⟨middle, hmiddle, h⟩ := Option.bind_eq_some_iff.mp h
    have hopen : (opened ++ outer).isEmpty = false := by simp [houter]
    simp only [outside, hopen, Bool.false_eq_true, if_false, nest_append hmiddle, Option.getD_some,
      ih h]

/-- Pieces whose brackets match show nothing inside of brackets. -/
lemma Balanced.outside_eq_nil {ps : List Piece} (h : Balanced ps) {opened : List Char}
    (hopened : opened ≠ []) : outside opened ps = [] :=
  outside_nested h hopened

/-- Pieces show nothing that they do not start with. -/
lemma exists_of_mem_outside {opened : List Char} {ps : List Piece} {c : Char}
    (h : c ∈ outside opened ps) : ∃ p ∈ ps, p.mark = c := by
  induction ps generalizing opened with
  | nil => cases h
  | cons p ps ih =>
    have hcases : c = p.mark ∨ c ∈ outside ((nest opened p).getD opened) ps := by
      rw [outside] at h
      split_ifs at h
      · exact List.mem_cons.mp h
      · exact .inr h
    rcases hcases with rfl | hrest
    · exact ⟨p, List.mem_cons_self, rfl⟩
    · obtain ⟨r, hr, hmark⟩ := ih hrest
      exact ⟨r, List.mem_cons_of_mem p hr, hmark⟩

/-- What a text shows stands in it. -/
lemma mem_of_mem_outside_signs {opened : List Char} {s : String} {c : Char}
    (h : c ∈ outside opened (signs s)) : c ∈ s.toList := by
  obtain ⟨p, hp, rfl⟩ := exists_of_mem_outside h
  rw [signs_eq] at hp
  obtain ⟨d, hd, rfl⟩ := List.mem_map.mp hp
  exact hd

/-- A text without quotes and brackets shows itself. -/
lemma IsInert.outside_signs {s : String} (h : IsInert s) : outside [] (signs s) = s.toList := by
  unfold IsInert at h
  rw [signs_eq]
  generalize s.toList = cs at h ⊢
  induction cs with
  | nil => rfl
  | cons c cs ih =>
    obtain ⟨hc, hcs⟩ := List.forall_mem_cons.mp h
    simp only [List.map_cons, outside, nest, nestSign_of_not_mem hc, Option.getD_some, ih hcs]
    rfl

/-! ## What codes show -/

/-- The code is sealed, and shows the text outside of its brackets. -/
def Exposes (q : Quoting) (shown : List Char) (code : String) : Prop :=
  ∃ ps, q.Seals ps code ∧ outside [] ps = shown

/-- Code that shows a text is sealed. -/
lemma Exposes.isSealed {shown : List Char} {code : String} (h : q.Exposes shown code) :
    q.IsSealed code := by
  obtain ⟨ps, hps, -⟩ := h
  exact ⟨ps, hps⟩

/-- Code that shows a text shows just that text. -/
lemma Exposes.outside?_eq (laws : q.Lawful) {shown : List Char} {code : String}
    (h : q.Exposes shown code) : q.outside? code = some shown := by
  obtain ⟨ps, hps, rfl⟩ := h
  rw [outside?, hps.spells.pieces?_eq laws, Option.map_some]

/-- A text without quotes and brackets to be closed shows itself, but for what stands in its
brackets. -/
lemma exposes_of_isBare {s : String} (h : isBare s = true) : q.Exposes (outside [] (signs s)) s := by
  simp only [isBare, Bool.and_eq_true, beq_iff_eq] at h
  exact ⟨signs s, ⟨spells_signs h.1, h.2⟩, rfl⟩

/-- Pieces of a text that goes on without a quote start with a sign. -/
lemma Spells.isSign_head (laws : q.Lawful) {ps : List Piece} {s : List Char} (h : q.Spells ps s)
    (hs : Clear s) : ∀ p ∈ ps.head?, p.isSign = true := by
  intro p hp
  obtain ⟨qs, rfl⟩ : ∃ qs, ps = p :: qs := List.head?_eq_some_iff.mp hp
  cases p with
  | sign c => rfl
  | constant mark text =>
    have hmark : mark ∈ q.marks := h.admits (.constant mark text) List.mem_cons_self
    obtain ⟨body, hbody⟩ := laws.head hmark text
    have hchars : s = mark :: (body ++ qs.flatMap q.render) := by
      rw [h.chars, List.flatMap_cons, render, hbody, List.cons_append]
    exact absurd (laws.marks hmark) (hs mark (by rw [hchars, List.head?_cons]; rfl))

/-- Two codes side by side, the second of which starts with no quote. -/
lemma Exposes.append (laws : q.Lawful) {s t : List Char} {a b : String} (ha : q.Exposes s a)
    (hb : q.Exposes t b) (hclear : Clear b.toList) : q.Exposes (s ++ t) (a ++ b) := by
  obtain ⟨ps, hps, rfl⟩ := ha
  obtain ⟨qs, hqs, rfl⟩ := hb
  have hhead := hqs.spells.isSign_head laws hclear
  refine ⟨ps ++ qs, ⟨⟨?_, ?_, ?_⟩, ?_⟩, outside_append hps.balanced qs⟩
  · rw [String.toList_append, List.flatMap_append, hps.spells.chars, hqs.spells.chars]
  · exact List.forall_mem_append.mpr ⟨hps.spells.admits, hqs.spells.admits⟩
  · exact hps.spells.apart.append hqs.spells.apart fun _ _ b hb => .inr (hhead b hb)
  · rw [Balanced, nesting_append, hps.balanced]
    exact hqs.balanced

/-- Text without quotes whose brackets match, in front of a code. -/
lemma Exposes.bare_append {text : String} (htext : isBare text = true) {t : List Char} {code : String}
    (h : q.Exposes t code) : q.Exposes (outside [] (signs text) ++ t) (text ++ code) := by
  obtain ⟨ps, hps, rfl⟩ := h
  simp only [isBare, Bool.and_eq_true, beq_iff_eq] at htext
  refine ⟨signs text ++ ps, ⟨?_, ?_⟩, outside_append htext.2 ps⟩
  · rw [String.toList_append]
    exact hps.spells.signs_append htext.1
  · rw [Balanced, nesting_append, htext.2]
    exact hps.balanced

/-- Text around a code leaves a bracket open in front of it, and closes all brackets behind it. -/
def encloses (opening closing : String) : Bool :=
  isPlain opening && isPlain closing &&
    match nesting [] (signs opening) with
    | some (c :: opened) => nesting (c :: opened) (signs closing) == some []
    | _ => false

/-- What text around a code in brackets shows. -/
def frame (opening closing : String) : List Char :=
  outside [] (signs opening ++ signs closing)

/-- A code in brackets does not show.

**Proof sketch.** The opening text leaves a bracket open. Within one, nothing shows: neither the
code, which is balanced, nor the closing text, which ends there. -/
lemma exposes_enclosed {opening closing code : String} (henc : encloses opening closing = true)
    (h : q.IsSealed code) : q.Exposes (frame opening closing) (opening ++ code ++ closing) := by
  obtain ⟨ps, hps⟩ := h
  simp only [encloses, Bool.and_eq_true] at henc
  obtain ⟨⟨hopening, hclosing⟩, henc⟩ := henc
  split at henc
  · rename_i c opened hopened
    have hclosed : nesting (c :: opened) (signs closing) = some [] := by simpa using henc
    have hinner := hps.balanced.nesting_eq (c :: opened)
    refine ⟨signs opening ++ (ps ++ signs closing), ⟨?_, ?_⟩, ?_⟩
    · rw [String.append_assoc, String.toList_append, String.toList_append]
      refine Spells.signs_append hopening ⟨?_, ?_, ?_⟩
      · rw [List.flatMap_append, ← hps.spells.chars, ← (spells_signs (q := q) hclosing).chars]
      · exact List.forall_mem_append.mpr ⟨hps.spells.admits, (spells_signs hclosing).admits⟩
      · refine hps.spells.apart.append (spells_signs (q := q) hclosing).apart fun _ _ b hb => .inr ?_
        obtain ⟨d, -, rfl⟩ := List.mem_map.mp (List.mem_of_head? hb)
        rfl
    · rw [Balanced, nesting_append, hopened, Option.bind_some, nesting_append, hinner]
      exact hclosed
    · rw [frame, outside_append hopened, outside_append hopened, outside_append hinner,
        hps.balanced.outside_eq_nil (List.cons_ne_nil c opened), List.nil_append]
  · cases henc

/-! ## Words -/

/-- The words of a text, between blanks. -/
def words (s : List Char) : List (List Char) := s.splitOn ' '

/-- A blank ends a word. -/
lemma words_append_blank (s t : List Char) : words (s ++ ' ' :: t) = words s ++ words t :=
  List.splitOn_append_cons_self s t

/-- A text without blanks is one word. -/
lemma words_eq_singleton {s : List Char} (h : ' ' ∉ s) : words s = [s] :=
  List.splitOnP_eq_singleton fun c hc => by simpa using fun heq : c = ' ' => h (heq ▸ hc)

/-- The word is no piece of an operator, and neither is a longer one. -/
def Solid (ops : List String) (w : List Char) : Prop := ∀ op ∈ ops, ¬w <:+: op.toList

/-- All words of the text are solid. -/
def AllSolid (ops : List String) (s : List Char) : Prop := ∀ w ∈ words s, Solid ops w

instance (ops : List String) : DecidablePred (Solid ops) := fun w =>
  inferInstanceAs (Decidable (∀ op ∈ ops, ¬w <:+: op.toList))

instance (ops : List String) : DecidablePred (AllSolid ops) := fun s =>
  inferInstanceAs (Decidable (∀ w ∈ words s, Solid ops w))

section Solid

variable {ops : List String} {s t w : List Char}

/-- A word that stands in no operator stands in none with more around it. -/
lemma Solid.mono {v : List Char} (h : Solid ops v) (hvw : v <:+: w) : Solid ops w :=
  fun op hop hw => h op hop (hvw.trans hw)

/-- A character of a kind that no operator has makes a word solid. -/
lemma solid_of_mem {p : Char → Bool} (hops : ops.any (·.toList.any p) = false) {c : Char}
    (hp : p c = true) (hc : c ∈ w) : Solid ops w := by
  intro op hop hw
  have hnone := List.any_eq_false.mp hops op hop
  exact hnone (List.any_eq_true.mpr ⟨c, hw.subset hc, hp⟩)

/-- A solid word is not an operator. -/
lemma Solid.not_mem (h : Solid ops w) : ∀ op ∈ ops, w ≠ op.toList := by
  rintro op hop rfl
  exact h op hop List.infix_rfl

/-- A text without blanks that is solid is a solid word. -/
lemma Solid.allSolid (h : Solid ops w) (hblank : ' ' ∉ w) : AllSolid ops w := by
  unfold AllSolid
  rw [words_eq_singleton hblank]
  exact List.forall_mem_singleton.mpr h

/-- Two texts of solid words with a blank between them. -/
lemma AllSolid.append_blank (hs : AllSolid ops s) (ht : AllSolid ops t) :
    AllSolid ops (s ++ ' ' :: t) := by
  unfold AllSolid
  rw [words_append_blank]
  exact List.forall_mem_append.mpr ⟨hs, ht⟩

/-- The words on both sides of a blank are solid where all words are. -/
lemma AllSolid.of_append_blank (h : AllSolid ops (s ++ ' ' :: t)) : AllSolid ops s ∧ AllSolid ops t := by
  unfold AllSolid at h
  rw [words_append_blank] at h
  exact List.forall_mem_append.mp h

/-- A text that is one word stays solid with more of it. -/
lemma AllSolid.mono_word (hs : AllSolid ops s) (hblank : ' ' ∉ s) (hw : ' ' ∉ w)
    (hsw : s <:+: w) : AllSolid ops w := by
  have hsolid := hs s (by simp [words_eq_singleton hblank])
  exact (hsolid.mono hsw).allSolid hw

/-- The first word of a text may grow. -/
lemma AllSolid.word_append (ht : AllSolid ops t) (hw : ' ' ∉ w) : AllSolid ops (w ++ t) := by
  by_cases hblank : ' ' ∈ t
  · obtain ⟨first, rest, rfl, hfirst⟩ := List.eq_append_cons_of_mem hblank
    obtain ⟨hsolid, hrest⟩ := ht.of_append_blank
    have hgrown := hsolid.mono_word hfirst (w := w ++ first) (by simp [hw, hfirst])
      (List.suffix_append w first).isInfix
    rw [← List.append_assoc]
    exact hgrown.append_blank hrest
  · exact ht.mono_word hblank (by simp [hw, hblank]) (List.suffix_append w t).isInfix

/-- The last word of a text may grow. -/
lemma AllSolid.append_word (hs : AllSolid ops s) (hw : ' ' ∉ w) : AllSolid ops (s ++ w) := by
  by_cases hblank : ' ' ∈ s
  · obtain ⟨last, front, hreverse, hlast⟩ := List.eq_append_cons_of_mem (List.mem_reverse.mpr hblank)
    obtain rfl : s = front.reverse ++ ' ' :: last.reverse := by
      rw [← List.reverse_reverse s, hreverse]
      simp
    obtain ⟨hfront, hsolid⟩ := hs.of_append_blank
    have hgrown := hsolid.mono_word (w := last.reverse ++ w) (by simpa using hlast)
      (by simp [hw, hlast]) (List.prefix_append _ w).isInfix
    rw [List.append_assoc, List.cons_append]
    exact hfront.append_blank hgrown
  · exact hs.mono_word hblank (by simp [hw, hblank]) (List.prefix_append s w).isInfix

end Solid

/-! ## Firm code -/

/-- No word that the code shows outside of its brackets is a piece of an operator. -/
def Firm (q : Quoting) (ops : List String) (code : String) : Prop :=
  ∃ shown, q.Exposes shown code ∧ AllSolid ops shown

namespace Firm

variable {ops : List String} {code : String}

/-- Firm code is sealed. -/
lemma isSealed (h : q.Firm ops code) : q.IsSealed code := by
  obtain ⟨shown, hshown, -⟩ := h
  exact hshown.isSealed

/-- No word outside of the brackets of firm code is an operator. -/
lemma exists_outside (laws : q.Lawful) (h : q.Firm ops code) :
    ∃ shown, q.outside? code = some shown ∧ ∀ w ∈ words shown, ∀ op ∈ ops, w ≠ op.toList := by
  obtain ⟨shown, hshown, hsolid⟩ := h
  exact ⟨shown, hshown.outside?_eq laws, fun w hw => (hsolid w hw).not_mem⟩

/-- A code behind firm code that shows no blank and starts with no quote. -/
lemma extended (laws : q.Lawful) (h : q.Firm ops code) {t : List Char} {tail : String}
    (htail : q.Exposes t tail) (hclear : Clear tail.toList) (hblank : ' ' ∉ t) :
    q.Firm ops (code ++ tail) := by
  obtain ⟨shown, hshown, hsolid⟩ := h
  exact ⟨shown ++ t, hshown.append laws htail hclear, hsolid.append_word hblank⟩

/-- A text without blanks, quotes and brackets in front of firm code. -/
lemma prefixed (h : q.Firm ops code) {text : String} (htext : IsInert text)
    (hblank : ' ' ∉ text.toList) : q.Firm ops (text ++ code) := by
  obtain ⟨shown, hshown, hsolid⟩ := h
  have hboth := hshown.bare_append htext.isBare
  rw [htext.outside_signs] at hboth
  exact ⟨_, hboth, hsolid.word_append hblank⟩

/-- A solid word between two firm codes.

**Proof sketch.** The pieces of the two codes are put together with those of the word between them.
What shows is what shows of either, and blanks around the word keep it apart from both. -/
lemma infixed (laws : q.Lawful) {a b word : String} (ha : q.Firm ops a) (hb : q.Firm ops b)
    (hinert : IsInert word) (hblank : ' ' ∉ word.toList) (hword : Solid ops word.toList) :
    q.Firm ops (a ++ " " ++ word ++ " " ++ b) := by
  obtain ⟨s, hs, hsolid⟩ := ha
  obtain ⟨t, ht, hother⟩ := hb
  have hspaced : IsInert (" " ++ word ++ " ") := by
    have hspace : IsInert " " := isInert_of_all (by decide)
    exact (hspace.append hinert).append hspace
  have hrest := ht.bare_append hspaced.isBare
  have hclear : Clear (" " ++ word ++ " " ++ b).toList := by
    have hlist : (" " ++ word ++ " " ++ b).toList = ' ' :: (word ++ " " ++ b).toList := by simp
    rw [hlist]
    rintro c ⟨⟩
    decide
  have hboth := hs.append laws hrest hclear
  rw [hspaced.outside_signs] at hboth
  refine ⟨s ++ ' ' :: (word.toList ++ ' ' :: t), ?_, ?_⟩
  · simpa [String.append_assoc] using hboth
  · exact hsolid.append_blank ((hword.allSolid hblank).append_blank hother)

end Firm

/-- Text in brackets whose frame shows solid words. -/
lemma firm_enclosed {ops : List String} {opening closing code : String}
    (henc : (encloses opening closing && decide (AllSolid ops (frame opening closing))) = true)
    (h : q.IsSealed code) : q.Firm ops (opening ++ code ++ closing) := by
  obtain ⟨henc, hsolid⟩ := Bool.and_eq_true_iff.mp henc
  exact ⟨_, exposes_enclosed henc h, of_decide_eq_true hsolid⟩

/-- A text without blanks and quotes whose brackets match, which starts with a character of a kind
that no operator has. -/
lemma firm_of_isBare {ops : List String} {s : String} (h : isBare s = true)
    (hblank : ' ' ∉ s.toList) {p : Char → Bool} (hops : ops.any (·.toList.any p) = false)
    (hhead : s.toList.head?.any p = true) : q.Firm ops s := by
  refine ⟨_, exposes_of_isBare h, Solid.allSolid ?_ (mt mem_of_mem_outside_signs hblank)⟩
  obtain ⟨c, hc, hp⟩ := (Option.any_eq_true _ _).mp hhead
  obtain ⟨cs, hcs⟩ := List.head?_eq_some_iff.mp hc
  refine solid_of_mem hops hp ?_
  rw [signs_eq, hcs]
  exact List.mem_cons_self

end Quoting

end Retarget
