import Retarget.Proofs.Parsing.Lexeme

set_option autoImplicit false

/-!
# Tokens of texts that end sooner

A token is found by looking at its own characters and at a few behind it. Cutting off the text
anywhere behind a token leaves the token as it is: every look behind it then finds less, and none of
them makes a token longer.

The patterns are greedy, so an option that was passed over must not match once the text is shorter.
That is why growth is tracked: a pattern that matches a text still matches when the text goes on.

## Main definitions

* `Retarget.Scan.Truncates` — a pattern takes the same part of a text that ends sooner.
* `Retarget.Scan.Grows`, `Retarget.Scan.Settles` — what a longer text does to a match.
* `Retarget.Lexer.Local` — the same for what is found behind a first character.

## Main results

* `Retarget.Lexer.local_lexeme` — a token stays as it is if the text ends sooner behind it.
-/

namespace Retarget

namespace Scan

variable {a b : Scan} {p : Char → Bool}

/-! ## Laws of patterns -/

/-- The pattern takes the front of a text, and the same part of a text that ends sooner. -/
structure Truncates (a : Scan) : Prop where
  splits {cs x r : List Char} : a cs = some (x, r) → x ++ r = cs
  cut {x y s : List Char} : a (x ++ (y ++ s)) = some (x, y ++ s) → a (x ++ y) = some (x, y)

/-- A pattern that matches a text matches every longer one. -/
def Grows (a : Scan) : Prop := ∀ y s, (a y).isSome → (a (y ++ s)).isSome

/-- Where the pattern leaves something, it takes the same part of every longer text. -/
def Settles (a : Scan) : Prop :=
  ∀ y s x r, a y = some (x, r) → r ≠ [] → a (y ++ s) = some (x, r ++ s)

/-- The pattern matches every text. -/
def Total (a : Scan) : Prop := ∀ y, (a y).isSome

/-- What two patterns take is what one takes and then the other. -/
lemma seq_eq_some {cs x r : List Char} (h : Scan.seq a b cs = some (x, r)) :
    ∃ x₁ r₁ x₂, a cs = some (x₁, r₁) ∧ b r₁ = some (x₂, r) ∧ x = x₁ ++ x₂ := by
  unfold Scan.seq at h
  cases ha : a cs with
  | none => simp [ha] at h
  | some found =>
    obtain ⟨x₁, r₁⟩ := found
    cases hb : b r₁ with
    | none => simp [ha, hb] at h
    | some found =>
      obtain ⟨x₂, r₂⟩ := found
      obtain ⟨rfl, rfl⟩ : x₁ ++ x₂ = x ∧ r₂ = r := by simpa [ha, hb] using h
      exact ⟨x₁, r₁, x₂, rfl, hb, rfl⟩

/-- Two patterns match where the second one does behind the first. -/
lemma isSome_seq {cs : List Char} :
    (Scan.seq a b cs).isSome ↔ ∃ x r, a cs = some (x, r) ∧ (b r).isSome := by
  unfold Scan.seq
  cases ha : a cs with
  | none => simp
  | some found =>
    obtain ⟨x, r⟩ := found
    cases hb : b r <;> simp [hb]

/-- A run of characters is not empty, and takes all that satisfy the predicate. -/
lemma some1_eq_some {cs x r : List Char} (h : some1 p cs = some (x, r)) :
    x ≠ [] ∧ cs.takeWhile p = x ∧ cs.dropWhile p = r := by
  unfold some1 at h
  split at h
  · cases h
  · rename_i taken hne
    cases h
    exact ⟨hne, rfl, rfl⟩

/-- What ends a row is no character of it. -/
lemma headFails_of_some1 {cs x r : List Char} (h : some1 p cs = some (x, r)) : HeadFails p r := by
  obtain ⟨-, -, rfl⟩ := some1_eq_some h
  intro c hc
  have hhead := List.head?_dropWhile_not p cs
  rw [hc] at hhead
  simpa using hhead

/-- A row is taken from every text that it starts and that does not go on with it. -/
lemma some1_of_some1 {cs x r rest : List Char} (h : some1 p cs = some (x, r))
    (hrest : HeadFails p rest) : some1 p (x ++ rest) = some (x, rest) := by
  obtain ⟨hx, htaken, -⟩ := some1_eq_some h
  have hall : ∀ c ∈ x, p c = true := by
    rw [← htaken]
    exact fun c hc => List.all_eq_true.mp List.all_takeWhile c hc
  exact some1_append hx hall hrest

/-! ### Growth -/

/-- A character is found in every longer text. -/
lemma grows_one : Grows (one p) := by
  intro y s h
  cases y with
  | nil => cases h
  | cons c y =>
    rw [one] at h
    split_ifs at h with hc
    · simp [one, hc]
    · cases h

/-- A character is the same in every longer text. -/
lemma settles_one : Settles (one p) := by
  intro y s x r h _
  cases y with
  | nil => cases h
  | cons c y =>
    rw [List.cons_append, one]
    rw [one] at h
    split_ifs at h ⊢
    cases h
    rfl

/-- A run of characters is found in every longer text. -/
lemma grows_some1 : Grows (some1 p) := by
  have hiff (cs : List Char) : (some1 p cs).isSome ↔ cs.head?.any p = true := by
    unfold some1
    cases cs with
    | nil => simp
    | cons c cs => by_cases hc : p c = true <;> simp [hc]
  intro y s h
  rw [hiff] at h ⊢
  cases y with
  | nil => cases h
  | cons c y => exact h

/-- A run of characters that something is left behind is the same in every longer text. -/
lemma settles_some1 : Settles (some1 p) := by
  intro y s x r h hr
  have hsplit : x ++ r = y := by
    obtain ⟨-, rfl, rfl⟩ := some1_eq_some h
    exact List.takeWhile_append_dropWhile
  rw [← hsplit, List.append_assoc]
  refine some1_of_some1 h fun c hc => headFails_of_some1 h c ?_
  rwa [List.head?_append_of_ne_nil _ hr] at hc

/-- A pattern that settles, and then one that needs a character. -/
lemma Settles.grows_seq (ha : Settles a) (hb : Grows b) (hnil : b [] = none) :
    Grows (seq a b) := by
  intro y s h
  rw [isSome_seq] at h ⊢
  obtain ⟨x, r, hy, hr⟩ := h
  have hne : r ≠ [] := by
    rintro rfl
    simp [hnil] at hr
  exact ⟨x, r ++ s, ha _ _ _ _ hy hne, hb _ _ hr⟩

/-- A pattern that matches every text may follow one that grows. -/
lemma Grows.seq_total (ha : Grows a) (hb : Total b) : Grows (seq a b) := by
  intro y s h
  rw [isSome_seq] at h ⊢
  obtain ⟨x, r, hy, -⟩ := h
  obtain ⟨⟨x', r'⟩, hys⟩ := Option.isSome_iff_exists.mp (ha y s (by simp [hy]))
  exact ⟨x', r', hys, hb r'⟩

/-- An option with which what follows it does not start. -/
lemma Settles.grows_option (ha : Settles a) (hb : Grows b) (hnil : b [] = none)
    (hstart : ∀ y s, (b y).isSome → a (y ++ s) = none) : Grows (seq (optional a) b) := by
  intro y s h
  rw [isSome_seq] at h ⊢
  obtain ⟨x, r, hy, hr⟩ := h
  have hne : r ≠ [] := by
    rintro rfl
    simp [hnil] at hr
  unfold Scan.optional at hy ⊢
  cases hfound : a y with
  | none =>
    rw [hfound] at hy
    cases hy
    exact ⟨[], y ++ s, by rw [hstart y s hr]; rfl, hb _ _ hr⟩
  | some found =>
    rw [hfound] at hy
    cases hy
    exact ⟨x, r ++ s, by rw [ha _ _ _ _ hfound hne]; rfl, hb _ _ hr⟩

/-- Two patterns that settle do so in turn, if the second one needs text. -/
lemma Settles.seq (ha : Settles a) (hb : Settles b) (hnil : b [] = none) : Settles (seq a b) := by
  intro y s x r h hr
  obtain ⟨x₁, r₁, x₂, h₁, h₂, rfl⟩ := seq_eq_some h
  have hne : r₁ ≠ [] := by
    rintro rfl
    simp [hnil] at h₂
  simp [Scan.seq, ha _ _ _ _ h₁ hne, hb _ _ _ _ h₂ hr]

/-- One character or none: where something is left, the first character of the text has decided. -/
lemma settles_optional_one : Settles (optional (one p)) := by
  intro y s x r h hr
  cases y with
  | nil =>
    cases h
    exact absurd rfl hr
  | cons c y =>
    unfold Scan.optional at h ⊢
    rw [List.cons_append]
    by_cases hc : p c = true
    · simp only [one, hc, if_true, Option.getD_some] at h ⊢
      cases h
      rfl
    · simp only [one, hc] at h ⊢
      cases h
      rfl

/-- One of two patterns that grow. -/
lemma Grows.either (ha : Grows a) (hb : Grows b) : Grows (either a b) := by
  intro y s h
  simp only [Scan.either, Option.isSome_or, Bool.or_eq_true] at h ⊢
  exact h.imp (ha y s) (hb y s)

/-- A pattern that may be missing matches every text. -/
lemma total_optional : Total (optional a) := fun _ => rfl

/-- Patterns that match every text do so in turn. -/
lemma total_all {as : List Scan} (h : ∀ a ∈ as, Total a) : Total (all as) := by
  induction as with
  | nil => exact fun _ => rfl
  | cons a as ih =>
    obtain ⟨ha, has⟩ := List.forall_mem_cons.mp h
    intro y
    obtain ⟨⟨x, r⟩, hy⟩ := Option.isSome_iff_exists.mp (ha y)
    exact isSome_seq.mpr ⟨x, r, hy, ih has r⟩

/-! ### Truncation -/

/-- One character is taken where the first one satisfies the predicate. -/
lemma one_eq_some {cs x r : List Char} (h : one p cs = some (x, r)) :
    ∃ c, cs = c :: r ∧ p c = true ∧ x = [c] := by
  cases cs with
  | nil => cases h
  | cons c cs =>
    rw [one] at h
    split_ifs at h with hc
    cases h
    exact ⟨c, rfl, hc, rfl⟩

/-- A character is taken from a text that ends behind it. -/
lemma truncates_one : Truncates (one p) where
  splits h := by
    obtain ⟨c, rfl, -, rfl⟩ := one_eq_some h
    rfl
  cut h := by
    obtain ⟨c, -, hc, rfl⟩ := one_eq_some h
    simp [one, hc]

/-- A run of characters is taken from a text that ends behind it. -/
lemma truncates_some1 : Truncates (some1 p) where
  splits h := by
    obtain ⟨-, rfl, rfl⟩ := some1_eq_some h
    exact List.takeWhile_append_dropWhile
  cut h := by
    refine some1_of_some1 h fun c hc => headFails_of_some1 h c ?_
    rw [List.head?_append, hc]
    rfl

/-- What the first pattern leaves is what the second one takes and leaves. -/
lemma Truncates.seq (ha : Truncates a) (hb : Truncates b) : Truncates (seq a b) where
  splits h := by
    obtain ⟨x₁, r₁, x₂, h₁, h₂, rfl⟩ := seq_eq_some h
    rw [List.append_assoc, hb.splits h₂, ha.splits h₁]
  cut {x y s} h := by
    obtain ⟨x₁, r₁, x₂, h₁, h₂, rfl⟩ := seq_eq_some h
    obtain rfl : x₂ ++ (y ++ s) = r₁ := hb.splits h₂
    rw [List.append_assoc] at h₁ ⊢
    rw [← List.append_assoc x₂ y s] at h₁
    simp [Scan.seq, ha.cut h₁, hb.cut h₂]

/-- Patterns in turn take the same from a text that ends sooner. -/
lemma truncates_all {as : List Scan} (h : ∀ a ∈ as, Truncates a) : Truncates (all as) := by
  induction as with
  | nil =>
    refine ⟨?_, ?_⟩
    · rintro cs x r ⟨⟩
      rfl
    · intro x y s h
      obtain rfl : [] = x := (Prod.mk.inj (Option.some.inj h)).1
      rfl
  | cons a as ih =>
    obtain ⟨ha, has⟩ := List.forall_mem_cons.mp h
    exact ha.seq (ih has)

/-- A pattern that does not match a text matches no shorter one. -/
lemma Grows.eq_none (ha : Grows a) {y s : List Char} (h : a (y ++ s) = none) : a y = none := by
  have hnone := mt (ha y s)
  simpa [h] using hnone

/-- A pattern that may be missing takes the same from a text that ends sooner.

**Proof sketch.** By cases on whether the pattern matches. If it does not, it does not match in a
shorter text either, as it could only match more of a longer one (`Grows`). -/
lemma Truncates.optional (ha : Truncates a) (hgrows : Grows a) : Truncates (optional a) where
  splits {cs x r} h := by
    unfold Scan.optional at h
    cases hcs : a cs with
    | none =>
      rw [hcs] at h
      cases h
      rfl
    | some found =>
      rw [hcs] at h
      cases h
      exact ha.splits hcs
  cut {x y s} h := by
    unfold Scan.optional at h ⊢
    cases hcs : a (x ++ (y ++ s)) with
    | none =>
      obtain rfl : [] = x := by
        rw [hcs] at h
        exact (Prod.mk.inj (Option.some.inj h)).1
      rw [hgrows.eq_none (s := s) (by simpa using hcs)]
      rfl
    | some found =>
      rw [hcs, Option.getD_some] at h
      rw [ha.cut (hcs.trans h)]
      rfl

/-- One of two patterns takes the same from a text that ends sooner. -/
lemma Truncates.either (ha : Truncates a) (hgrows : Grows a) (hb : Truncates b) :
    Truncates (either a b) where
  splits h := by
    obtain h | ⟨-, h⟩ := Option.or_eq_some_iff.mp h
    · exact ha.splits h
    · exact hb.splits h
  cut {x y s} h := by
    obtain h | ⟨hnone, h⟩ := Option.or_eq_some_iff.mp h
    · simp [Scan.either, ha.cut h]
    · rw [← List.append_assoc] at hnone
      simp [Scan.either, hgrows.eq_none hnone, hb.cut h]

end Scan

/-! ## The patterns of literals -/

namespace Temporal

open Scan

/-- Two digits are taken from a text that ends behind them. -/
lemma truncates_twoDigits : Truncates twoDigits := truncates_one.seq truncates_one

/-- Two digits are the same in every longer text. -/
lemma settles_twoDigits : Settles twoDigits := settles_one.seq settles_one rfl

/-- Two digits are found in every longer text. -/
lemma grows_twoDigits : Grows twoDigits := settles_one.grows_seq grows_one rfl

/-- A letter is taken from a text that ends behind it. -/
lemma truncates_char (letter : Char) : Truncates (Scan.char letter) := truncates_one

/-- A date is taken from a text that ends behind it. -/
lemma truncates_date : Truncates date :=
  truncates_all (by simp [truncates_twoDigits, truncates_char])

/-- A fraction is taken from a text that ends behind it. -/
lemma truncates_fraction : Truncates fraction := truncates_one.seq truncates_some1

/-- A fraction is found in every longer text. -/
lemma grows_fraction : Grows fraction := settles_one.grows_seq grows_some1 rfl

/-- The seconds of a time of day. -/
lemma grows_secondsPart : Grows (all [Scan.char ':', twoDigits, Scan.optional fraction]) :=
  settles_one.grows_seq (grows_twoDigits.seq_total (total_all (by simp [total_optional]))) rfl

/-- A time of day is taken from a text that ends behind it. -/
lemma truncates_clock : Truncates clock := by
  have hseconds : Truncates (all [Scan.char ':', twoDigits, Scan.optional fraction]) :=
    truncates_all (by
      simp [truncates_twoDigits, truncates_char, truncates_fraction.optional grows_fraction])
  exact truncates_all (by
    simp [truncates_twoDigits, truncates_char, hseconds.optional grows_secondsPart])

/-- A time of day is found in every longer text. -/
lemma grows_clock : Grows clock :=
  settles_twoDigits.grows_seq (settles_one.grows_seq (grows_twoDigits.seq_total
    (total_all (by simp [total_optional]))) rfl) rfl

/-- A zone is taken from a text that ends behind it. -/
lemma truncates_zone : Truncates zone :=
  (truncates_char 'Z').either grows_one
    (truncates_all (by simp [truncates_twoDigits, truncates_char, truncates_one]))

/-- A zone is found in every longer text. -/
lemma grows_zone : Grows zone := by
  refine Grows.either grows_one (settles_one.grows_seq (settles_twoDigits.grows_seq
    (settles_one.grows_seq ?_ rfl) rfl) rfl)
  exact grows_twoDigits.seq_total (total_all (by simp))

/-- A part of a duration is taken from a text that ends behind it. -/
lemma truncates_component (letter : Char) : Truncates (Scan.optional (component letter)) :=
  (truncates_some1.seq truncates_one).optional (settles_some1.grows_seq grows_one rfl)

/-- The seconds of a duration are taken from a text that ends behind them. -/
lemma truncates_seconds : Truncates seconds :=
  truncates_all (by
    simp [truncates_some1, truncates_char, truncates_fraction.optional grows_fraction])

/-- A fraction starts with a point, and what follows it with another letter. -/
lemma grows_seconds : Grows seconds := by
  have hend : Grows (all [Scan.char 'S']) := grows_one.seq_total (total_all (by simp))
  have hfraction : Settles fraction := settles_one.seq settles_some1 rfl
  refine settles_some1.grows_seq (hfraction.grows_option hend rfl ?_) rfl
  intro y s hy
  obtain ⟨x, r, hletter, -⟩ := isSome_seq.mp hy
  obtain ⟨c, rfl, hc, -⟩ := one_eq_some hletter
  obtain rfl : c = 'S' := by simpa using hc
  rfl

/-- A duration is taken from a text that ends behind it. -/
lemma truncates_duration : Truncates duration := by
  have htime : Truncates (all [Scan.char 'T', Scan.optional (component 'H'),
      Scan.optional (component 'M'), Scan.optional seconds]) :=
    truncates_all (by
      simp [truncates_char, truncates_component, truncates_seconds.optional grows_seconds])
  have hgrows : Grows (all [Scan.char 'T', Scan.optional (component 'H'),
      Scan.optional (component 'M'), Scan.optional seconds]) :=
    grows_one.seq_total (total_all (by simp [total_optional]))
  exact truncates_all (by simp [truncates_char, truncates_component, htime.optional hgrows])

end Temporal

namespace Lexer

open Scan

/-- A number is taken from a text that ends behind it. -/
lemma truncates_numeral : Truncates numeral := by
  have hfraction : Truncates (Scan.seq (Scan.char '.') (some1 Char.isDigit)) :=
    truncates_one.seq truncates_some1
  have hgrows : Grows (Scan.seq (Scan.char '.') (some1 Char.isDigit)) :=
    settles_one.grows_seq grows_some1 rfl
  have hexponent : Truncates (all [one isExponentMark, Scan.optional (one Temporal.isSign),
      some1 Char.isDigit]) :=
    truncates_all (by simp [truncates_one, truncates_one.optional grows_one, truncates_some1])
  have hgrows' : Grows (all [one isExponentMark, Scan.optional (one Temporal.isSign),
      some1 Char.isDigit]) :=
    settles_one.grows_seq (settles_optional_one.grows_seq
      (grows_some1.seq_total (total_all (by simp))) rfl) rfl
  exact truncates_all (by
    simp [truncates_some1, hfraction.optional hgrows, hexponent.optional hgrows'])

/-- The time of a datetime is taken from a text that ends behind it. -/
lemma truncates_timePart : Truncates (Scan.optional timePart) := by
  have htime : Truncates timePart :=
    truncates_all (by simp [Temporal.truncates_char, Temporal.truncates_clock,
      Temporal.truncates_zone.optional Temporal.grows_zone])
  refine htime.optional (settles_one.grows_seq ?_ rfl)
  exact Temporal.grows_clock.seq_total (total_all (by simp [total_optional]))

/-! ## Tokens -/

/-- What is found takes a part off the front of the text behind the first character, and the same
is found in a text that ends sooner behind that part. -/
def Local (find : List Char → Found) : Prop :=
  ∀ cs kind n, find cs = .ok (kind, n) → ∃ x rest, cs = x ++ rest ∧ n = x.length + 1 ∧
    ∀ y s, rest = y ++ s → find (x ++ y) = .ok (kind, n)

/-- A word that does not run on in a text does not do so where the text ends sooner. -/
lemma runsOn_of_append {y s : List Char} (h : runsOn (y ++ s) = false) : runsOn y = false := by
  cases y with
  | nil => rfl
  | cons c y => exact h

/-- A number takes a character at least. -/
lemma numeral_ne_nil {cs x r : List Char} (h : numeral cs = some (x, r)) : x ≠ [] := by
  rw [numeral, Scan.all] at h
  obtain ⟨x₁, r₁, x₂, hdigits, -, rfl⟩ := seq_eq_some h
  exact List.append_ne_nil_of_left_ne_nil (some1_eq_some hdigits).1 x₂

/-- The token of a number takes all its characters. -/
lemma length_of_numeralValue {taken : List Char} {kind : Token.Kind} {n : Nat}
    (h : numeralValue taken = .ok (kind, n)) : n = taken.length := by
  simp only [numeralValue, literal, refuse] at h
  split_ifs at h
  · exact (Prod.mk.inj (Except.ok.inj h)).2.symm
  · split at h
    · split_ifs at h
      exact (Prod.mk.inj (Except.ok.inj h)).2.symm
    · cases h

/-- A number is found alike in a text that ends behind it. -/
lemma local_number (c : Char) : Local fun cs => number (c :: cs) := by
  intro cs kind n h
  unfold number at h
  cases hnumeral : numeral (c :: cs) with
  | none => simp [hnumeral, refuse] at h
  | some found =>
    obtain ⟨taken, rest⟩ := found
    simp only [hnumeral] at h
    split_ifs at h with hruns
    obtain ⟨d, x, rfl⟩ := List.exists_cons_of_ne_nil (numeral_ne_nil hnumeral)
    obtain ⟨rfl, rfl⟩ := List.cons.inj (truncates_numeral.splits hnumeral)
    refine ⟨x, rest, rfl, length_of_numeralValue h, ?_⟩
    rintro y s rfl
    have hcut : numeral (d :: x ++ y) = some (d :: x, y) := truncates_numeral.cut hnumeral
    have hruns' : runsOn y = false := runsOn_of_append (by simpa using hruns)
    simp only [number]
    rw [← List.cons_append, hcut]
    simpa only [hruns', Bool.false_eq_true, if_false] using h

/-- A literal of a date and a time of day, by its parts.

**Proof sketch.** The literal is a date and, if there is one, a time of day, and both take a prefix
that does not depend on what stands behind it (`Truncates.cut`). That no letter or digit follows at
once remains true when the text ends sooner. -/
lemma local_temporal : Local temporal := by
  intro cs kind n h
  unfold temporal at h
  cases hday : Temporal.date cs with
  | none => simp [hday, refuse] at h
  | some found =>
    obtain ⟨day, afterDay⟩ := found
    simp only [hday] at h
    obtain ⟨time, rest, htime⟩ : ∃ time rest, Scan.optional timePart afterDay = some (time, rest) :=
      ⟨_, _, rfl⟩
    have hgetD : (timePart afterDay).getD ([], afterDay) = (time, rest) := Option.some.inj htime
    obtain rfl : day ++ afterDay = cs := Temporal.truncates_date.splits hday
    obtain rfl : time ++ rest = afterDay := truncates_timePart.splits htime
    have hlength : n = (day ++ time).length + 1 := by
      simp only [hgetD, refuse] at h
      split_ifs at h with _ _ hempty
      · obtain rfl : time = [] := by simpa using hempty
        simpa using (Prod.mk.inj (Except.ok.inj h)).2.symm
      · exact (Prod.mk.inj (Except.ok.inj h)).2.symm
    refine ⟨day ++ time, rest, by rw [List.append_assoc], hlength, ?_⟩
    rintro y s rfl
    have hruns : runsOn (y ++ s) = false := by
      by_contra hruns
      simp [hgetD, eq_true_of_ne_false hruns] at h
    have hday' : Temporal.date (day ++ (time ++ y)) = some (day, time ++ y) :=
      Temporal.truncates_date.cut (by rwa [List.append_assoc])
    have htime' : (timePart (time ++ y)).getD ([], time ++ y) = (time, y) :=
      Option.some.inj (truncates_timePart.cut htime)
    unfold temporal
    rw [List.append_assoc, hday']
    simp only [hgetD, hruns] at h
    simp only [htime', runsOn_of_append hruns]
    exact h

/-- A duration is found alike in a text that ends behind it.

**Proof sketch.** The literal is the prefix that `Temporal.duration` takes, which stays the same in
a shorter text. The tests on what follows it (no letter, digit or point) remain true when the text
ends sooner. -/
lemma local_duration : Local fun cs => duration ('P' :: cs) := by
  intro cs kind n h
  unfold duration at h
  cases hfound : Temporal.duration ('P' :: cs) with
  | none => simp [hfound, refuse] at h
  | some found =>
    obtain ⟨taken, rest⟩ := found
    simp only [hfound, literal, refuse] at h
    split_ifs at h with hends
    simp only [Bool.or_eq_true, not_or] at hends
    obtain ⟨⟨hshort, hruns⟩, hpoint⟩ := hends
    have hne : taken ≠ [] := by
      rintro rfl
      simp [byteLength] at hshort
    obtain ⟨d, x, rfl⟩ := List.exists_cons_of_ne_nil hne
    obtain ⟨rfl, rfl⟩ := List.cons.inj (Temporal.truncates_duration.splits hfound)
    refine ⟨x, rest, rfl, (Prod.mk.inj (Except.ok.inj h)).2.symm, ?_⟩
    rintro y s rfl
    have hcut : Temporal.duration ('P' :: x ++ y) = some ('P' :: x, y) :=
      Temporal.truncates_duration.cut hfound
    have hruns' : runsOn y = false := runsOn_of_append (by simpa using hruns)
    have hpoint' : (y.head? == some '.') = false := by
      cases y with
      | nil => rfl
      | cons c y => simpa using hpoint
    simp only [duration]
    rw [← List.cons_append, hcut]
    simp only [hruns', hpoint', literal, Bool.or_false, hshort]
    exact h

/-- Characters in braces denote the same whatever follows them.

**Proof sketch.** The braces enclose a row of hexadecimal digits, which ends at the closing brace
whatever comes behind that. -/
lemma exists_of_bracedScalar? {cs : List Char} {d : Char} {n : Nat}
    (h : bracedScalar? cs = some (d, n)) : ∃ text rest, cs = text ++ rest ∧ text.length = n ∧
      ∀ rest', bracedScalar? (text ++ rest') = some (d, n) := by
  unfold bracedScalar? at h
  simp only at h
  split_ifs at h with hguard
  obtain ⟨hopen, hclose, hsome, hsix⟩ := hguard
  obtain ⟨cs, rfl⟩ := List.head?_eq_some_iff.mp hopen
  obtain ⟨tail, htail⟩ := List.head?_eq_some_iff.mp hclose
  obtain ⟨⟨e, he, rfl⟩, rfl⟩ : (∃ e, _ = some e ∧ e = d) ∧ _ = n := by
    simpa [Option.map_eq_some_iff] using h
  have hdigits : ∀ c ∈ cs.takeWhile isHexDigit, isHexDigit c = true :=
    fun c hc => List.all_eq_true.mp List.all_takeWhile c hc
  have hfails (rest : List Char) : HeadFails isHexDigit ('\x7d' :: rest) :=
    headFails_cons (by decide)
  refine ⟨'\x7b' :: cs.takeWhile isHexDigit ++ ['\x7d'], tail, ?_, by simp, fun rest' => ?_⟩
  · rw [List.drop_one, List.tail_cons] at htail
    simp only [List.cons_append, List.append_assoc, List.nil_append, ← htail,
      List.takeWhile_append_dropWhile]
  · have htake : (cs.takeWhile isHexDigit ++ '\x7d' :: rest').takeWhile isHexDigit =
        cs.takeWhile isHexDigit := takeWhile_append_of_headFails hdigits (hfails rest')
    have hdrop : (cs.takeWhile isHexDigit ++ '\x7d' :: rest').dropWhile isHexDigit =
        '\x7d' :: rest' := dropWhile_append_of_headFails hdigits (hfails rest')
    simp only [List.drop_one, List.tail_cons] at hsome hsix he
    simp [bracedScalar?, htake, hdrop, hsome, hsix, he]

/-- An escape denotes the same if the text ends sooner behind it. -/
lemma escape_truncate {c d : Char} {x y s : List Char} {n : Nat}
    (h : escape c (x ++ (y ++ s)) = .ok (d, n)) (hn : n ≤ x.length + 1) :
    escape c (x ++ y) = .ok (d, n) := by
  unfold escape at h ⊢
  split at h
  · exact h
  · split_ifs at h ⊢
    split at h
    · rename_i e m hscalar
      cases h
      obtain ⟨text, rest, hcs, rfl, hfree⟩ := exists_of_bracedScalar? hscalar
      have hprefix : text <+: x := by
        have htext : text <+: x ++ (y ++ s) := ⟨rest, hcs.symm⟩
        exact List.prefix_of_prefix_length_le htext (List.prefix_append _ _) (by omega)
      obtain ⟨more, rfl⟩ := hprefix
      rw [List.append_assoc, hfree]
    · cases h

/-- A step of a string that reads the rest. -/
lemma exists_of_behind (give : List Char → List Char) {rest : Except Failure (List Char × Nat)}
    {ds : List Char} {count : Nat}
    (h : (match rest with
      | .error failure => .error failure
      | .ok (ds, count) => .ok (give ds, count + 1)) = Except.ok (ds, count)) :
    ∃ ds' n, rest = .ok (ds', n) ∧ ds = give ds' ∧ count = n + 1 := by
  cases rest with
  | error failure => cases h
  | ok found =>
    cases h
    exact ⟨found.1, found.2, rfl, rfl, rfl⟩

/-- A string up to its closing quote. The characters of an escape that has been resolved stand
before that quote.

**Proof sketch.** By induction on the text, one case for each way a character is read. The
characters of an escape are still to be passed over when it has been resolved, so all of them are
taken and a shorter text has them too (`escape_truncate`). -/
lemma local_stringBody {quote : Char} {cs : List Char} {offset skip : Nat} {ds : List Char}
    {count : Nat} (h : stringBody quote offset skip cs = .ok (ds, count)) :
    ∃ x rest, cs = x ++ rest ∧ count = x.length ∧ skip < count ∧
      ∀ y s, rest = y ++ s → stringBody quote offset skip (x ++ y) = .ok (ds, count) := by
  induction cs generalizing offset skip ds count with
  | nil => simp [stringBody] at h
  | cons c cs ih =>
    unfold stringBody at h
    cases skip with
    | succ skip =>
      obtain ⟨ds, n, hrest, rfl, rfl⟩ := exists_of_behind id h
      obtain ⟨x, rest, rfl, rfl, hskip, hlocal⟩ := ih hrest
      refine ⟨c :: x, rest, rfl, rfl, by omega, fun y s hys => ?_⟩
      simp only [List.cons_append, stringBody, hlocal y s hys]
    | zero =>
      simp only at h
      split_ifs at h with hquote hslash
      · cases h
        refine ⟨[c], cs, rfl, rfl, Nat.one_pos, fun y s _ => ?_⟩
        unfold stringBody
        simp [hquote]
      · cases cs with
        | nil => cases h
        | cons e more =>
          simp only at h
          cases hescape : escape e more with
          | error fault => simp [hescape] at h
          | ok unit =>
            simp only [hescape] at h
            obtain ⟨ds, n, hrest, rfl, rfl⟩ := exists_of_behind (unit.1 :: ·) h
            obtain ⟨x, rest, hcs, rfl, hskip, hlocal⟩ := ih hrest
            obtain ⟨e', x, rfl⟩ := List.exists_cons_of_length_pos (Nat.zero_lt_of_lt hskip)
            obtain ⟨rfl, rfl⟩ := List.cons.inj hcs
            refine ⟨c :: e :: x, rest, rfl, rfl, Nat.succ_pos _, ?_⟩
            rintro y s rfl
            have hbody := hlocal y s rfl
            rw [List.cons_append] at hbody
            unfold stringBody
            rw [List.cons_append, List.cons_append]
            simp only [if_neg hquote, if_pos hslash,
              escape_truncate hescape (Nat.le_of_lt_succ (Nat.lt_succ_of_lt hskip)), hbody]
      · obtain ⟨ds, n, hrest, rfl, rfl⟩ := exists_of_behind (c :: ·) h
        obtain ⟨x, rest, rfl, rfl, hskip, hlocal⟩ := ih hrest
        refine ⟨c :: x, rest, rfl, rfl, Nat.succ_pos _, fun y s hys => ?_⟩
        unfold stringBody
        rw [List.cons_append]
        simp only [if_neg hquote, if_neg hslash, hlocal y s hys]

/-- A string is found alike in a text that ends behind it. -/
lemma local_string (quote : Char) : Local (string quote) := by
  intro cs kind n h
  unfold string at h
  cases hbody : stringBody quote 1 0 cs with
  | error failure => simp [hbody] at h
  | ok found =>
    obtain ⟨x, rest, rfl, hcount, -, hlocal⟩ := local_stringBody hbody
    simp only [hbody, hcount] at h
    refine ⟨x, rest, rfl, (Prod.mk.inj (Except.ok.inj h)).2.symm, fun y s hys => ?_⟩
    simp only [string, hlocal y s hys, hcount]
    exact h

/-- A word is found alike in a text that ends behind it.

**Proof sketch.** The word is the longest row of letters and digits, and it ends where it does as
well in a text that ends sooner. Whether it is a keyword depends on its characters only. -/
lemma local_word {c : Char} (hc : isIdentStart c = true) : Local fun cs => word (c :: cs) := by
  have hpart : isIdentPart c = true := by
    simp only [isIdentStart, isIdentPart, Char.isAlphanum, Bool.or_eq_true] at hc ⊢
    exact hc.imp_left .inl
  have htake (cs : List Char) :
      (c :: cs).takeWhile isIdentPart = c :: cs.takeWhile isIdentPart := by simp [hpart]
  intro cs kind n h
  have hcs : cs = cs.takeWhile isIdentPart ++ cs.dropWhile isIdentPart :=
    List.takeWhile_append_dropWhile.symm
  have hlength : n = (cs.takeWhile isIdentPart).length + 1 := by
    simp only [word, htake] at h
    split at h <;> exact (Prod.mk.inj (Except.ok.inj h)).2.symm
  refine ⟨_, _, hcs, hlength, fun y s hys => ?_⟩
  have hfails : HeadFails isIdentPart y := by
    intro d hd
    have hhead := List.head?_dropWhile_not isIdentPart cs
    rw [hys, List.head?_append, hd] at hhead
    simpa using hhead
  have hall : ∀ d ∈ cs.takeWhile isIdentPart, isIdentPart d = true :=
    fun d hd => List.all_eq_true.mp List.all_takeWhile d hd
  have hsame : (cs.takeWhile isIdentPart ++ y).takeWhile isIdentPart =
      cs.takeWhile isIdentPart := takeWhile_append_of_headFails hall hfails
  simp only [word, htake, hsame] at h ⊢
  exact h

/-- The longest punctuator is the same if the text ends sooner behind it. -/
lemma exists_of_atStart? {cs : List Char} {p : Punct} (h : Punct.atStart? cs = some p) :
    ∃ rest, cs = p.text.toList ++ rest ∧
      ∀ y s, rest = y ++ s → Punct.atStart? (p.text.toList ++ y) = some p := by
  obtain ⟨hp, before, after, hevery, hbefore⟩ := List.find?_eq_some_iff_append.mp h
  obtain ⟨rest, rfl⟩ := List.isPrefixOf_iff_prefix.mp hp
  refine ⟨rest, rfl, ?_⟩
  rintro y s rfl
  refine List.find?_eq_some_iff_append.mpr ⟨by simp, before, after, hevery, fun q hq => ?_⟩
  have hq := hbefore q hq
  simp only [Bool.not_eq_true', Bool.eq_false_iff, ne_eq, List.isPrefixOf_iff_prefix] at hq ⊢
  intro hshort
  exact hq (hshort.trans ⟨s, by simp⟩)

/-- The punctuator at the start of a text, with the character that no token starts with as a
fault. -/
def punctuator (c : Char) (cs : List Char) : Found :=
  match Punct.atStart? (c :: cs) with
  | some p => .ok (.punct p, p.text.length)
  | none => refuse (.invalidCharacter c)

/-- A mark is found alike in a text that ends behind it. -/
lemma local_punctuator (c : Char) : Local (punctuator c) := by
  intro cs kind n h
  unfold punctuator at h
  cases hstart : Punct.atStart? (c :: cs) with
  | none => simp [hstart, refuse] at h
  | some p =>
    simp only [hstart] at h
    obtain ⟨rest, hcs, hlocal⟩ := exists_of_atStart? hstart
    have hne : p.text.toList ≠ [] := by cases p <;> decide
    obtain ⟨d, x, hx⟩ := List.exists_cons_of_ne_nil hne
    rw [hx] at hcs hlocal
    obtain ⟨rfl, rfl⟩ := List.cons.inj hcs
    have hn : n = x.length + 1 := by
      rw [← (Prod.mk.inj (Except.ok.inj h)).2, ← String.length_toList, hx]
      rfl
    refine ⟨x, rest, rfl, hn, fun y s hys => ?_⟩
    rw [punctuator, ← List.cons_append, hlocal y s hys]
    exact h

section Guards

variable {y s : List Char}

/-- A shorter text does not start a date that the whole one does not start. -/
lemma head?_any_of_append {p : Char → Bool} (h : y.head?.any p = true) :
    (y ++ s).head?.any p = true := by
  cases y with
  | nil => cases h
  | cons c y => exact h

/-- A shorter text does not start a duration that the whole one does not start. -/
lemma startsDuration_of_append (h : startsDuration y = true) : startsDuration (y ++ s) = true := by
  rcases y with - | ⟨c, y⟩
  · cases h
  · simp only [List.cons_append, startsDuration, Bool.or_eq_true, Bool.and_eq_true] at h ⊢
    exact h.imp_right fun htime => ⟨htime.1, head?_any_of_append htime.2⟩

/-- A duration goes on behind the marks that start it. -/
lemma startsDuration_of_duration {kind : Token.Kind} {n : Nat} {x : List Char}
    (h : startsDuration (x ++ s) = true) (hfound : duration ('P' :: x) = .ok (kind, n)) :
    startsDuration (x ++ y) = true := by
  rcases x with - | ⟨c, - | ⟨d, x⟩⟩
  · cases hfound
  · by_cases hc : c = 'T'
    · subst hc
      cases hfound
    · simp only [List.cons_append, startsDuration, beq_eq_false_iff_ne.mpr hc] at h ⊢
      simpa using h
  · exact h

end Guards

/-- A token takes a part off the front of the text, and it stays as it is if the text ends sooner
behind it. Which kind of token is tried does not change then, since the guards look at what the
token takes.

**Proof sketch.** The kinds of tokens are tried in turn. Each is local by its own lemma, and what
remains is that the guard in front of it decides alike on the shorter text: for dates and durations
because the token takes the characters that the guard looks at, for words and punctuators because
the guards before them fail on a prefix too. -/
theorem local_lexeme (c : Char) : Local (lexeme c) := by
  intro cs kind n h
  by_cases hdigit : c.isDigit = true
  · have heq (cs : List Char) : lexeme c cs = number (c :: cs) := by simp [lexeme, hdigit]
    simp only [heq] at h ⊢
    exact local_number c cs kind n h
  by_cases hquote : c = apostrophe ∨ c = doubleQuote
  · have heq (cs : List Char) : lexeme c cs = string c cs := by simp [lexeme, hdigit, hquote]
    simp only [heq] at h ⊢
    exact local_string c cs kind n h
  -- The digit that makes a date belongs to it, so it stands in the shorter text.
  by_cases hdate : c = 'D' ∧ cs.head?.any Char.isDigit
  · have heq {cs : List Char} (hcs : cs.head?.any Char.isDigit = true) :
        lexeme c cs = temporal cs := by
      simp only [lexeme, if_neg hdigit, if_neg hquote, if_pos (And.intro hdate.1 hcs)]
    rw [heq hdate.2] at h
    obtain ⟨x, rest, rfl, hn, hlocal⟩ := local_temporal cs kind n h
    have hx : x ≠ [] := by
      rintro rfl
      cases hlocal [] rest rfl
    refine ⟨x, rest, rfl, hn, fun y s hys => ?_⟩
    rw [heq, hlocal y s hys]
    rw [List.head?_append_of_ne_nil _ hx, ← List.head?_append_of_ne_nil _ hx]
    exact hdate.2
  by_cases hduration : c = 'P' ∧ startsDuration cs
  · obtain ⟨rfl, hstarts⟩ := hduration
    have heq {cs : List Char} (hcs : startsDuration cs = true) :
        lexeme 'P' cs = duration ('P' :: cs) := by
      simp [lexeme, apostrophe, doubleQuote, hcs]
    rw [heq hstarts] at h
    obtain ⟨x, rest, rfl, hn, hlocal⟩ := local_duration cs kind n h
    refine ⟨x, rest, rfl, hn, fun y s hys => ?_⟩
    have halone := hlocal [] rest rfl
    rw [List.append_nil] at halone
    rw [heq (startsDuration_of_duration hstarts halone)]
    exact hlocal y s hys
  -- What does not start a date or a duration does not do so when it is cut.
  have hplain (y s : List Char) (hys : cs = y ++ s) :
      lexeme c y = if isIdentStart c then word (c :: y) else punctuator c y := by
    subst hys
    have hd : ¬(c = 'D' ∧ y.head?.any Char.isDigit) :=
      fun hd => hdate ⟨hd.1, head?_any_of_append hd.2⟩
    have hp : ¬(c = 'P' ∧ startsDuration y) :=
      fun hp => hduration ⟨hp.1, startsDuration_of_append hp.2⟩
    exact (if_neg hdigit).trans ((if_neg hquote).trans ((if_neg hd).trans (if_neg hp)))
  have hfind : Local fun cs => if isIdentStart c then word (c :: cs) else punctuator c cs := by
    by_cases hname : isIdentStart c = true
    · simp only [hname, if_true]
      exact local_word hname
    · simp only [hname]
      exact local_punctuator c
  rw [hplain cs [] (List.append_nil cs).symm] at h
  obtain ⟨x, rest, rfl, hn, hlocal⟩ := hfind cs kind n h
  refine ⟨x, rest, rfl, hn, ?_⟩
  rintro y s rfl
  rw [hplain (x ++ y) s (List.append_assoc x y s).symm]
  exact hlocal y s rfl

end Lexer

end Retarget
