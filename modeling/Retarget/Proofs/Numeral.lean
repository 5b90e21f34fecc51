import Retarget.Decimal.Shortest
import Retarget.Token.Lexer
import Mathlib.Tactic.Common

set_option autoImplicit false

/-!
# Numerals

The texts that a number can be written as, and where a numeral ends.

## Main definitions

* `Retarget.IsNumeral` — digits, with an optional fraction and an optional exponent.
* `Retarget.EndsNumeral` — a text that a numeral in front of it does not run on into.

## Main results

* `Retarget.numeral_append` — a numeral is taken whole and nothing more.
* `Retarget.isNumeral_toString`, `Retarget.isNumeral_write` — integers that are not negative, and
  numbers that are finite and not negative, are written as numerals.
-/

namespace Retarget

/-! ## Scanning -/

/-- A text whose first character, if any, does not satisfy the predicate. -/
def HeadFails (p : Char → Bool) (s : List Char) : Prop := ∀ c, s.head? = some c → p c = false

/-- A text fails the predicate where its first character does. -/
lemma headFails_cons {p : Char → Bool} {c : Char} {s : List Char} (h : p c = false) :
    HeadFails p (c :: s) := by
  rintro _ ⟨⟩
  exact h

/-- Characters that satisfy the predicate are taken up to a text that fails it. -/
lemma takeWhile_append_of_headFails {p : Char → Bool} {taken rest : List Char}
    (htaken : ∀ c ∈ taken, p c = true) (hrest : HeadFails p rest) :
    (taken ++ rest).takeWhile p = taken := by
  rw [List.takeWhile_append_of_pos htaken]
  cases rest with
  | nil => simp
  | cons c cs => simp [hrest c rfl]

/-- Characters that satisfy the predicate are dropped up to a text that fails it. -/
lemma dropWhile_append_of_headFails {p : Char → Bool} {taken rest : List Char}
    (htaken : ∀ c ∈ taken, p c = true) (hrest : HeadFails p rest) :
    (taken ++ rest).dropWhile p = rest := by
  rw [List.dropWhile_append_of_pos htaken]
  cases rest with
  | nil => simp
  | cons c cs => simp [hrest c rfl]

/-- A row of characters is taken up to the first that does not belong to it. -/
lemma Scan.some1_append {p : Char → Bool} {taken rest : List Char} (hne : taken ≠ [])
    (htaken : ∀ c ∈ taken, p c = true) (hrest : HeadFails p rest) :
    Scan.some1 p (taken ++ rest) = some (taken, rest) := by
  rw [Scan.some1, takeWhile_append_of_headFails htaken hrest,
    dropWhile_append_of_headFails htaken hrest]
  cases taken with
  | nil => exact absurd rfl hne
  | cons c cs => rfl

/-- Two patterns that match one after the other. -/
lemma Scan.seq_append {a b : Scan} {s x y mid rest : List Char} (ha : a s = some (x, mid))
    (hb : b mid = some (y, rest)) : Scan.seq a b s = some (x ++ y, rest) := by
  simp [Scan.seq, ha, hb]

/-! ## Numerals -/

/-- A nonempty row of digits. -/
def IsDigits (s : List Char) : Prop := s ≠ [] ∧ ∀ c ∈ s, c.isDigit = true

/-- The fraction of a numeral, which may be missing. -/
def IsFraction (s : List Char) : Prop := s = [] ∨ ∃ ds, s = '.' :: ds ∧ IsDigits ds

/-- The exponent of a numeral, which may be missing. -/
def IsExponent (s : List Char) : Prop :=
  s = [] ∨ ∃ sign ds, s = 'e' :: sign ++ ds ∧ (sign = [] ∨ sign = ['-'] ∨ sign = ['+']) ∧ IsDigits ds

/-- Digits, with an optional fraction and an optional exponent. -/
def IsNumeral (s : List Char) : Prop :=
  ∃ whole fraction exponent, s = whole ++ fraction ++ exponent ∧ IsDigits whole ∧
    IsFraction fraction ∧ IsExponent exponent

/-- A numeral in front of the text does not run on into it. -/
def EndsNumeral (s : List Char) : Prop :=
  HeadFails Char.isDigit s ∧ HeadFails Lexer.isExponentMark s ∧
    ∀ cs, s = '.' :: cs → HeadFails Char.isDigit cs

/-- A digit is neither a point nor a mark of an exponent. -/
lemma isDigit_ne {c : Char} (h : c.isDigit = true) :
    c ≠ '.' ∧ Lexer.isExponentMark c = false ∧ Temporal.isSign c = false := by
  refine ⟨?_, ?_, ?_⟩
  · rintro rfl
    exact absurd h (by decide)
  · by_contra hmark
    simp only [Lexer.isExponentMark, Bool.not_eq_false, Bool.or_eq_true, beq_iff_eq] at hmark
    rcases hmark with rfl | rfl <;> exact absurd h (by decide)
  · by_contra hsign
    simp only [Temporal.isSign, Bool.not_eq_false, Bool.or_eq_true, beq_iff_eq] at hsign
    rcases hsign with rfl | rfl <;> exact absurd h (by decide)

/-- The fraction of a numeral is taken whole. -/
lemma fraction_append {fraction rest : List Char} (h : IsFraction fraction)
    (hdigit : HeadFails Char.isDigit rest)
    (hpoint : fraction = [] → ∀ cs, rest = '.' :: cs → HeadFails Char.isDigit cs) :
    Scan.optional (Scan.seq (Scan.char '.') (Scan.some1 Char.isDigit)) (fraction ++ rest) =
      some (fraction, rest) := by
  rcases h with rfl | ⟨ds, rfl, hne, hds⟩
  · cases rest with
    | nil => rfl
    | cons c cs =>
      by_cases hc : c = '.'
      · subst hc
        have hnone : Scan.some1 Char.isDigit cs = none := by
          have hcs := hpoint rfl cs rfl
          cases cs with
          | nil => rfl
          | cons d ds => simp [Scan.some1, hcs d rfl]
        simp [Scan.optional, Scan.seq, Scan.char, Scan.one, hnone]
      · simp [Scan.optional, Scan.seq, Scan.char, Scan.one, hc]
  · have hrow := Scan.some1_append hne hds hdigit
    simp [Scan.optional, Scan.seq, Scan.char, Scan.one, hrow]

/-- The exponent of a numeral is taken whole.

**Proof sketch.** By cases on the exponent. Without one the mark is missing and nothing is taken;
else the mark, the sign and the row of digits are taken in turn. -/
lemma exponent_append {exponent rest : List Char} (h : IsExponent exponent)
    (hdigit : HeadFails Char.isDigit rest)
    (hmark : exponent = [] → HeadFails Lexer.isExponentMark rest) :
    Scan.optional (Scan.all [Scan.one Lexer.isExponentMark,
        Scan.optional (Scan.one Temporal.isSign), Scan.some1 Char.isDigit]) (exponent ++ rest) =
      some (exponent, rest) := by
  rcases h with rfl | ⟨sign, ds, rfl, hsign, hne, hds⟩
  · have hrest := hmark rfl
    cases rest with
    | nil => rfl
    | cons c cs => simp [Scan.optional, Scan.all, Scan.seq, Scan.one, hrest c rfl]
  · have hrow := Scan.some1_append hne hds hdigit
    have hoptional : Scan.optional (Scan.one Temporal.isSign) (sign ++ (ds ++ rest)) =
        some (sign, ds ++ rest) := by
      rcases hsign with rfl | rfl | rfl
      · cases ds with
        | nil => exact absurd rfl hne
        | cons d ds =>
          simp [Scan.optional, Scan.one, (isDigit_ne (hds d (by simp))).2.2]
      · rfl
      · rfl
    have hmarked : Scan.one Lexer.isExponentMark ('e' :: (sign ++ (ds ++ rest))) =
        some (['e'], sign ++ (ds ++ rest)) := rfl
    have hall := Scan.seq_append hmarked
      (Scan.seq_append hoptional (Scan.seq_append hrow (b := Scan.all []) rfl))
    simp only [List.cons_append, List.append_assoc, List.append_nil, List.nil_append] at hall ⊢
    simp only [Scan.optional, Scan.all] at hall ⊢
    rw [hall, Option.getD_some]

/-- A numeral is taken whole and nothing more.

**Proof sketch.** The digits are taken up to the first character that is no digit, and so are those
of the fraction and the exponent. What follows starts with none of them, and with no point before a
digit. -/
theorem numeral_append {s rest : List Char} (h : IsNumeral s) (hrest : EndsNumeral rest) :
    Lexer.numeral (s ++ rest) = some (s, rest) := by
  obtain ⟨whole, fraction, exponent, rfl, ⟨hne, hwhole⟩, hfraction, hexponent⟩ := h
  obtain ⟨hdigit, hmark, hpoint⟩ := hrest
  -- What stands behind the whole part and behind the fraction does not start with a digit.
  have hexponentHead : HeadFails Char.isDigit (exponent ++ rest) := by
    rcases hexponent with rfl | ⟨sign, ds, rfl, -, -⟩
    · exact hdigit
    · intro c hc
      cases hc
      rfl
  have hfractionHead : HeadFails Char.isDigit (fraction ++ (exponent ++ rest)) := by
    rcases hfraction with rfl | ⟨ds, rfl, -⟩
    · exact hexponentHead
    · intro c hc
      cases hc
      rfl
  have hwholeRow := Scan.some1_append hne hwhole hfractionHead
  have hfractionRow := fraction_append hfraction hexponentHead fun _ cs hcs => by
    rcases hexponent with rfl | ⟨sign, ds, rfl, -, -⟩
    · exact hpoint cs hcs
    · cases hcs
  have hexponentRow := exponent_append hexponent hdigit fun _ => hmark
  have hall := Scan.seq_append hwholeRow (Scan.seq_append hfractionRow
    (Scan.seq_append hexponentRow (b := Scan.all []) rfl))
  simp only [List.append_assoc, List.append_nil] at hall ⊢
  exact hall

/-! ## What is written as a numeral -/

/-- The digits of a natural number. -/
lemma isDigits_toDigits (n : Nat) : IsDigits (Nat.toDigits 10 n) :=
  ⟨Nat.toDigits_ne_nil, fun _ hc => Nat.isDigit_of_mem_toDigits (by decide) (by decide) hc⟩

/-- The digit zero is a row of digits. -/
lemma isDigits_zero : IsDigits ['0'] :=
  ⟨List.cons_ne_nil _ _, List.forall_mem_singleton.mpr rfl⟩

/-- Digits alone are a numeral. -/
lemma IsDigits.isNumeral {s : List Char} (h : IsDigits s) : IsNumeral s :=
  ⟨s, [], [], by simp, h, .inl rfl, .inl rfl⟩

/-- More digits behind digits. -/
lemma IsDigits.append {s : List Char} (h : IsDigits s) {t : List Char}
    (ht : ∀ c ∈ t, c.isDigit = true) : IsDigits (s ++ t) := by
  refine ⟨by simp [h.1], fun c hc => ?_⟩
  rcases List.mem_append.mp hc with hc | hc
  · exact h.2 c hc
  · exact ht c hc

/-- A row of zeros. -/
lemma toList_zeros (n : Nat) : (DecimalStyle.zeros n).toList = List.replicate n '0' := by
  induction n with
  | zero => rfl
  | succ n ih =>
    rw [List.replicate_succ', ← ih]
    exact String.toList_push _

/-- The text of a natural number is its digits. -/
lemma toList_toString_ofNat (n : Nat) : (toString (n : Int)).toList = Nat.toDigits 10 n := by
  simp [toString, Int.repr, Nat.toList_repr]

/-- A natural number is written as a numeral. -/
lemma isNumeral_toString_nat (n : Nat) : IsNumeral (toString n).toList := by
  have hdigits : (toString n).toList = Nat.toDigits 10 n := by simp [toString, Nat.toList_repr]
  rw [hdigits]
  exact (isDigits_toDigits n).isNumeral

/-- An integer that is not negative is written as a numeral. -/
lemma isNumeral_toString {v : Int} (h : 0 ≤ v) : IsNumeral (toString v).toList := by
  obtain ⟨n, rfl⟩ := Int.eq_ofNat_of_zero_le h
  rw [toList_toString_ofNat]
  exact (isDigits_toDigits n).isNumeral

/-- The text of an exponent is a sign, which may be missing, and digits. -/
lemma isExponent_exponentText (style : DecimalStyle) (k : Int) :
    IsExponent ('e' :: (style.exponentText k).toList) := by
  cases k with
  | ofNat n =>
    refine .inr ⟨if style.plusSign && 0 < Int.ofNat n then ['+'] else [], Nat.toDigits 10 n, ?_, ?_,
      isDigits_toDigits n⟩
    · simp only [DecimalStyle.exponentText, String.toList_append, List.cons_append]
      rw [show toString (Int.ofNat n) = toString (n : Int) from rfl, toList_toString_ofNat]
      split_ifs <;> rfl
    · split_ifs <;> simp
  | negSucc n =>
    refine .inr ⟨['-'], Nat.toDigits 10 (n + 1), ?_, .inr (.inl rfl), isDigits_toDigits _⟩
    simp [DecimalStyle.exponentText, toString, Int.repr, Nat.toList_repr]

/-- A positive decimal is written as a numeral, in every style.

**Proof sketch.** One case for each way to lay out the digits: as a whole number with zeros behind
it, with a point among them, as a fraction with zeros before it, and with an exponent behind one
digit or behind a digit and a fraction. Each of them is a numeral. -/
lemma isNumeral_layOut (style : DecimalStyle) (d : Decimal) :
    IsNumeral (style.layOut d).toList := by
  obtain ⟨hne, hds⟩ := isDigits_toDigits d.digits
  have hzeros (n : Nat) : ∀ c ∈ List.replicate n '0', c.isDigit = true := by
    intro c hc
    rw [List.eq_of_mem_replicate hc]
    rfl
  rw [DecimalStyle.layOut]
  generalize Nat.toDigits 10 d.digits = ds at hne hds ⊢
  have htake {n : Nat} (hn : n ≠ 0) : IsDigits (ds.take n) :=
    ⟨by simp [hn, hne], fun c hc => hds c (List.mem_of_mem_take hc)⟩
  have hdrop (n : Nat) : ∀ c ∈ ds.drop n, c.isDigit = true :=
    fun c hc => hds c (List.mem_of_mem_drop hc)
  simp only
  split_ifs with hpositional hwhole hleading
  · -- All digits stand before the point.
    refine ⟨ds ++ List.replicate d.exponent.toNat '0', ['.', '0'], [], ?_,
      IsDigits.append ⟨hne, hds⟩ (hzeros _), .inr ⟨['0'], rfl, isDigits_zero⟩, .inl rfl⟩
    simp [toList_zeros]
  · -- The point stands among the digits.
    refine ⟨ds.take ((d.exponent + ds.length - 1).toNat + 1),
      '.' :: ds.drop ((d.exponent + ds.length - 1).toNat + 1), [], by simp, htake (by omega),
      .inr ⟨_, rfl, ?_, hdrop _⟩, .inl rfl⟩
    intro hnil
    have hlen := List.drop_eq_nil_iff.mp hnil
    omega
  · -- All digits stand behind the point.
    refine ⟨['0'], '.' :: (List.replicate (-(d.exponent + ds.length - 1) - 1).toNat '0' ++ ds), [],
      ?_, isDigits_zero, .inr ⟨_, rfl, by simp [hne], ?_⟩, .inl rfl⟩
    · simp [toList_zeros]
    · intro c hc
      rcases List.mem_append.mp hc with hc | hc
      · exact hzeros _ c hc
      · exact hds c hc
  · -- One digit and an exponent.
    refine ⟨ds.take 1, [], _, ?_, htake (by omega), .inl rfl,
      isExponent_exponentText style (d.exponent + ds.length - 1)⟩
    simp
  · -- One digit, a fraction and an exponent.
    refine ⟨ds.take 1, '.' :: ds.drop 1, _, ?_, htake (by omega),
      .inr ⟨_, rfl, ?_, hdrop 1⟩, isExponent_exponentText style (d.exponent + ds.length - 1)⟩
    · simp
    · intro hnil
      have hlen := List.drop_eq_nil_iff.mp hnil
      have hpos := List.length_pos_iff.mpr hne
      omega

/-- A number that is finite and not negative is written as a numeral. -/
theorem isNumeral_write {x : Binary64} (style : DecimalStyle) (hfinite : x.isFinite = true)
    (hsign : x.isNegative = false) : IsNumeral (style.write x).toList := by
  have hnan : x.isNaN = false := by
    simp only [Binary64.isFinite, bne_iff_ne] at hfinite
    simp [Binary64.isNaN, hfinite]
  simp only [DecimalStyle.write, hnan, hsign, hfinite, Bool.false_eq_true, ↓reduceIte,
    Bool.not_true]
  split_ifs with hzero
  · exact ⟨['0'], ['.', '0'], [], rfl, isDigits_zero,
      .inr ⟨['0'], rfl, isDigits_zero⟩, .inl rfl⟩
  · rw [String.toList_append]
    exact isNumeral_layOut style _

end Retarget
