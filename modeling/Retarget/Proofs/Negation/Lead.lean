import Retarget.Proofs.Grouping.Ruby
import Retarget.Proofs.Negation.Outside
import Retarget.Proofs.Quoting.Ruby

set_option autoImplicit false

/-!
# What a minus applies to in Ruby

A minus right in front of a number is read as a part of the number, unless `**` follows the number.
Any other minus reaches over operators that bind tighter, and stops at the first operator outside of
brackets that does not. So it matters what the code behind a minus starts with, and which operators
it shows.

## Main definitions

* `Retarget.Ruby.NegatesAll` — a minus in front of the text applies to all of it.
* `Retarget.Ruby.Lead`, `Retarget.Ruby.Lead.Starts` — what code starts with.
* `Retarget.Ruby.Tight` — code that shows only operators that bind tighter than a minus.

## Main results

* `Retarget.Ruby.Tight.negatesAll_iff` — a minus applies to all of such code unless it starts with a
  number that something is called on.
* `Retarget.Ruby.Tight.extended`, `Retarget.Ruby.Tight.raised` — code that grows at its end.
-/

namespace Retarget.Ruby

open Quoting

/-! ## The reach of a minus -/

/-- Code with the operator at its top level stands behind a minus without parentheses. -/
def binds (op : Option String) : Bool := !precedence.needsParens op "u-" .right

/-- The operators that bind no tighter than a minus in front of its operand, as they are written
between blanks. -/
def looser : List String := (infixes.filter fun op => !binds (some op)) ++ ["?", ":"]

/-- The text goes on with a power, after blanks. -/
def isRaised (rest : List Char) : Bool := "**".toList.isPrefixOf (rest.dropWhile (· == ' '))

/-- A minus right in front of the text applies to all of it: a number that it starts with, with its
fraction and its exponent, is raised or all there is, and no operator outside of brackets keeps the
minus from the end. -/
structure NegatesAll (operand : String) : Prop where
  number (literal rest : List Char) : Lexer.numeral operand.toList = some (literal, rest) →
    rest = [] ∨ isRaised rest = true
  reach : ∃ shown, quoting.outside? operand = some shown ∧
    ∀ w ∈ words shown, ∀ op ∈ looser, w ≠ op.toList

/-- What code starts with. -/
inductive Lead
  /-- A number, which is all of the code. -/
  | number
  /-- A number that a method is called on, or that is read by an index. -/
  | receiver
  /-- A number that is raised to a power. -/
  | base
  | other
deriving DecidableEq, Repr

/-- A text that starts with no digit starts with no number. -/
lemma numeral_eq_none {s : List Char} (h : HeadFails Char.isDigit s) : Lexer.numeral s = none := by
  have hdigits : Scan.some1 Char.isDigit s = none := by
    cases s with
    | nil => rfl
    | cons c cs => simp [Scan.some1, h c rfl]
  simp [Lexer.numeral, Scan.all, Scan.seq, hdigits]

namespace Lead

/-- The lead with a call or a read behind the code. -/
def extended : Lead → Lead
  | .number => .receiver
  | lead => lead

/-- The lead with a power behind the code. -/
def raised : Lead → Lead
  | .number => .base
  | lead => lead

/-- The text starts with the lead. -/
def Starts : Lead → List Char → Prop
  | .number, s => IsNumeral s
  | .receiver, s => ∃ literal c rest, s = literal ++ c :: rest ∧ IsNumeral literal ∧
      c ∈ ['.', '['] ∧ EndsNumeral (c :: rest)
  | .base, s => ∃ literal rest, s = literal ++ (" ** ".toList ++ rest) ∧ IsNumeral literal
  | .other, s => HeadFails Char.isDigit s

/-- A text that starts with a point before a letter, or with an index. -/
def isTail : List Char → Bool
  | '.' :: c :: _ => !c.isDigit
  | '[' :: _ => true
  | _ => false

/-- A method call or the read of an index ends the numeral before it, and starts with a point or a
bracket. -/
lemma endsNumeral_of_isTail {tail : List Char} (h : isTail tail = true) :
    EndsNumeral tail ∧ ∃ c rest, tail = c :: rest ∧ c ∈ ['.', '['] := by
  unfold isTail at h
  split at h
  · rename_i c rest
    refine ⟨⟨by rintro d ⟨⟩; decide, by rintro d ⟨⟩; decide, ?_⟩, '.', c :: rest, rfl, by decide⟩
    rintro cs ⟨⟩ d ⟨⟩
    simpa using h
  · rename_i rest
    refine ⟨⟨by rintro d ⟨⟩; decide, by rintro d ⟨⟩; decide, nofun⟩, '[', rest, rfl, by decide⟩
  · cases h

/-- A power ends the numeral before it. -/
lemma endsNumeral_power (rest : List Char) : EndsNumeral (" ** ".toList ++ rest) :=
  ⟨by rintro d ⟨⟩; decide, by rintro d ⟨⟩; decide, nofun⟩

/-- A text that starts with no digit, or is empty, before another such text. -/
lemma headFails_append {s t : List Char} (hs : HeadFails Char.isDigit s)
    (ht : HeadFails Char.isDigit t) : HeadFails Char.isDigit (s ++ t) := by
  cases s with
  | nil => exact ht
  | cons c cs => exact hs

variable {lead : Lead} {s t : List Char}

/-- More text behind code that is not a number alone. -/
lemma Starts.append (h : lead.Starts s) (hlead : lead ≠ .number) (ht : HeadFails Char.isDigit t) :
    lead.Starts (s ++ t) := by
  cases lead with
  | number => exact absurd rfl hlead
  | receiver =>
    obtain ⟨literal, c, rest, rfl, hliteral, hc, hdigit, hmark, hpoint⟩ := h
    refine ⟨literal, c, rest ++ t, by simp, hliteral, hc, ?_, ?_, ?_⟩
    · rintro d ⟨⟩
      exact hdigit c rfl
    · rintro d ⟨⟩
      exact hmark c rfl
    · rintro cs ⟨⟩
      exact headFails_append (hpoint rest rfl) ht
  | base =>
    obtain ⟨literal, rest, rfl, hliteral⟩ := h
    exact ⟨literal, rest ++ t, by simp, hliteral⟩
  | other => exact headFails_append h ht

/-- A call on code, or a read from it. -/
lemma Starts.extended (h : lead.Starts s) (ht : isTail t = true) :
    lead.extended.Starts (s ++ t) := by
  obtain ⟨hends, c, rest, rfl, hc⟩ := endsNumeral_of_isTail ht
  cases lead with
  | number => exact ⟨s, c, rest, rfl, h, hc, hends⟩
  | receiver | base | other => exact h.append nofun hends.1

/-- A power of code. -/
lemma Starts.raised (h : lead.Starts s) (t : List Char) :
    lead.raised.Starts (s ++ (" ** ".toList ++ t)) := by
  cases lead with
  | number => exact ⟨s, t, rfl, h⟩
  | receiver | base | other => exact h.append nofun (endsNumeral_power t).1

/-- A minus is a part of the number that the text starts with exactly where something is called on
that number.

**Proof sketch.** The numeral at the head of the text is taken as long as possible, so that there is
one way to split it off. What stands behind it is nothing, a power, a method call or an index, which
the leads tell apart. -/
lemma Starts.number_iff (h : lead.Starts s) :
    (∀ literal rest, Lexer.numeral s = some (literal, rest) → rest = [] ∨ isRaised rest = true) ↔
      lead ≠ .receiver := by
  cases lead with
  | number =>
    have hends : EndsNumeral [] := ⟨nofun, nofun, nofun⟩
    have hnumeral : Lexer.numeral s = some (s, []) := by
      simpa using numeral_append h hends
    refine iff_of_true (fun literal rest hscan => .inl ?_) nofun
    rw [hnumeral] at hscan
    cases hscan
    rfl
  | receiver =>
    obtain ⟨literal, c, rest, rfl, hliteral, hc, hends⟩ := h
    refine iff_of_false (fun hall => ?_) (by simp)
    have hraised := (hall _ _ (numeral_append hliteral hends)).resolve_left nofun
    simp only [List.mem_cons, List.not_mem_nil, or_false] at hc
    rcases hc with rfl | rfl <;> exact absurd hraised (by simp [isRaised])
  | base =>
    obtain ⟨literal, rest, rfl, hliteral⟩ := h
    refine iff_of_true (fun taken more hscan => .inr ?_) nofun
    rw [numeral_append hliteral (endsNumeral_power rest)] at hscan
    cases hscan
    rfl
  | other =>
    refine iff_of_true (fun taken more hscan => ?_) nofun
    rw [numeral_eq_none h] at hscan
    cases hscan

end Lead

/-! ## Code behind a minus -/

/-- Code that shows only operators that bind tighter than a minus, and what it starts with. -/
structure Tight (lead : Lead) (code : String) : Prop where
  firm : quoting.Firm looser code
  starts : lead.Starts code.toList

namespace Tight

variable {lead : Lead} {code : String}

/-- A minus applies to all of the code, unless it starts with a number that something is called
on. -/
theorem negatesAll_iff (h : Tight lead code) : NegatesAll code ↔ lead ≠ .receiver :=
  ⟨fun hall => h.starts.number_iff.mp hall.number,
    fun hlead => ⟨h.starts.number_iff.mpr hlead, h.firm.exists_outside lawful⟩⟩

/-- A call on the code, or a read from it, whose arguments stand in brackets. -/
lemma extended (h : Tight lead code) {shown : List Char} {tail : String}
    (hshown : quoting.Exposes shown tail) (hblank : ' ' ∉ shown)
    (htail : Lead.isTail tail.toList = true) : Tight lead.extended (code ++ tail) := by
  have hclear : Clear tail.toList := by
    obtain ⟨-, c, rest, heq, hc⟩ := Lead.endsNumeral_of_isTail htail
    rw [heq]
    rintro d ⟨⟩
    simp only [List.mem_cons, List.not_mem_nil, or_false] at hc
    rcases hc with rfl | rfl <;> decide
  refine ⟨h.firm.extended lawful hshown hclear hblank, ?_⟩
  rw [String.toList_append]
  exact h.starts.extended htail

/-- A power. -/
lemma raised {a b : String} {left right : Lead} (ha : Tight left a) (hb : Tight right b) :
    Tight left.raised (a ++ " " ++ "**" ++ " " ++ b) := by
  refine ⟨ha.firm.infixed lawful hb.firm (isInert_of_all (by decide)) (by decide) (by decide), ?_⟩
  have hlist : (a ++ " " ++ "**" ++ " " ++ b).toList = a.toList ++ (" ** ".toList ++ b.toList) := by
    simp
  rw [hlist]
  exact ha.starts.raised b.toList

/-- A logical negation. -/
lemma inverted (h : Tight lead code) : Tight .other ("!" ++ code) := by
  refine ⟨h.firm.prefixed (isInert_of_all (by decide)) (by decide), ?_⟩
  rw [String.toList_append]
  rintro c ⟨⟩
  decide

end Tight

/-- Text around a code in brackets that starts with no digit and shows no looser operator. -/
def isFrame (opening closing : String) : Bool :=
  (encloses opening closing && decide (AllSolid looser (frame opening closing))) &&
    opening.toList.head?.any (!·.isDigit)

/-- Sealed code in a frame is tight. -/
lemma tight_enclosed {opening closing code : String} (h : isFrame opening closing = true)
    (hcode : quoting.IsSealed code) : Tight .other (opening ++ code ++ closing) := by
  obtain ⟨hframe, hhead⟩ := Bool.and_eq_true_iff.mp h
  refine ⟨firm_enclosed hframe hcode, ?_⟩
  obtain ⟨c, hc, hdigit⟩ := (Option.any_eq_true _ _).mp hhead
  obtain ⟨cs, hcs⟩ := List.head?_eq_some_iff.mp hc
  rw [String.toList_append, String.toList_append, hcs]
  rintro d ⟨⟩
  simpa using hdigit

/-- Sealed code in parentheses is tight. -/
lemma tight_parens {code : String} (h : quoting.IsSealed code) : Tight .other ("(" ++ code ++ ")") :=
  tight_enclosed (by decide) h

end Retarget.Ruby
