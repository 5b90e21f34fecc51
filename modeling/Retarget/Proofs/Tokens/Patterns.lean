import Mathlib
import Retarget.Proofs.Tokens.Iso
import Retarget.Proofs.Tokens.Truncation

set_option autoImplicit false

/-!
# Patterns of dates, times of day and durations

What the patterns take, and that they take it whole. Dates and times of day pass their checks exactly
where they are texts of the standard. The counts of a duration are options one behind another that
all start with digits; what tells them apart is the first character that is no digit.

## Main definitions

* `Retarget.Temporal.IsClockShape` — the shape of a time of day, in the digits of any script.
* `Retarget.Temporal.unit?` — the unit of the count that comes next.

## Main results

* `Retarget.Temporal.isDate_of_date`, `Retarget.Temporal.date_append` — dates.
* `Retarget.Temporal.isClock_iff`, `Retarget.Temporal.clock_append` — times of day.
* `Retarget.Temporal.duration_sound`, `Retarget.Temporal.duration_whole` — durations.
-/

namespace Retarget

open Text (isDecimalDigit)

namespace Scan

/-! ## What patterns take -/

variable {a b : Scan} {p : Char → Bool} {cs x r : List Char}

/-- One character is taken where the first one satisfies the predicate. -/
lemma one_eq_some_iff : one p cs = some (x, r) ↔ ∃ c, p c = true ∧ x = [c] ∧ cs = c :: r := by
  cases cs with
  | nil => simp [one]
  | cons c cs =>
    by_cases hc : p c = true
    · simp only [one, hc, if_true, Option.some.injEq, Prod.mk.injEq, List.cons.injEq]
      constructor
      · rintro ⟨rfl, rfl⟩
        exact ⟨c, hc, rfl, rfl, rfl⟩
      · rintro ⟨_, -, rfl, rfl, rfl⟩
        exact ⟨rfl, rfl⟩
    · simp only [one, hc, Bool.false_eq_true, if_false, reduceCtorEq, List.cons.injEq, false_iff]
      rintro ⟨_, hd, -, rfl, -⟩
      exact hc hd

/-- A character and then a pattern. -/
lemma seq_one_eq_some_iff : seq (one p) b cs = some (x, r) ↔
    ∃ c rest y, p c = true ∧ cs = c :: rest ∧ x = c :: y ∧ b rest = some (y, r) := by
  constructor
  · intro h
    obtain ⟨_, rest, y, hone, hb, hx⟩ := seq_eq_some h
    obtain ⟨c, hc, rfl, hcs⟩ := one_eq_some_iff.mp hone
    exact ⟨c, rest, y, hc, hcs, hx, hb⟩
  · rintro ⟨c, rest, y, hc, rfl, rfl, hb⟩
    exact seq_append (one_eq_some_iff.mpr ⟨c, hc, rfl, rfl⟩) hb

/-- A pattern behind a letter is taken where that letter comes first. -/
lemma seq_char_eq_some_iff {d : Char} : seq (char d) b cs = some (x, r) ↔
    ∃ rest y, cs = d :: rest ∧ x = d :: y ∧ b rest = some (y, r) := by
  simp [char, seq_one_eq_some_iff]

/-- An option takes what its pattern takes, or nothing. -/
lemma optional_eq_some (h : optional a cs = some (x, r)) :
    a cs = some (x, r) ∨ a cs = none ∧ x = [] ∧ r = cs := by
  unfold Scan.optional at h
  cases ha : a cs with
  | none =>
    rw [ha] at h
    cases h
    exact .inr ⟨rfl, rfl, rfl⟩
  | some found =>
    rw [ha] at h
    exact .inl h

/-- A pattern that matches is taken. -/
lemma optional_of_some (h : a cs = some (x, r)) : optional a cs = some (x, r) := by
  rw [Scan.optional, h, Option.getD_some]

/-- A pattern that does not match may be missing. -/
lemma optional_of_none (h : a cs = none) : optional a cs = some ([], cs) := by
  rw [Scan.optional, h, Option.getD_none]

/-- A row is taken where it stands. -/
lemma row_of_some1 (h : some1 p cs = some (x, r)) : Iso.Row p x ∧ cs = x ++ r := by
  obtain ⟨hne, rfl, rfl⟩ := some1_eq_some h
  exact ⟨⟨hne, fun c hc => List.all_eq_true.mp List.all_takeWhile c hc⟩,
    List.takeWhile_append_dropWhile.symm⟩

end Scan

namespace Temporal

variable {cs x r : List Char}

/-- Two digits and then a pattern. -/
lemma seq_twoDigits_eq_some_iff {b : Scan} : Scan.seq twoDigits b cs = some (x, r) ↔
    ∃ u v rest y, isDecimalDigit u = true ∧ isDecimalDigit v = true ∧ cs = u :: v :: rest ∧
      x = u :: v :: y ∧ b rest = some (y, r) := by
  constructor
  · intro h
    obtain ⟨_, rest, y, htwo, hb, rfl⟩ := Scan.seq_eq_some h
    obtain ⟨u, cs, z, hu, rfl, rfl, hv⟩ := Scan.seq_one_eq_some_iff.mp htwo
    obtain ⟨v, hdigit, rfl, rfl⟩ := Scan.one_eq_some_iff.mp hv
    exact ⟨u, v, rest, y, hu, hdigit, rfl, rfl, hb⟩
  · rintro ⟨u, v, rest, y, hu, hv, rfl, rfl, hb⟩
    have htwo : twoDigits (u :: v :: rest) = some ([u, v], rest) := Scan.seq_one_eq_some_iff.mpr
      ⟨u, _, _, hu, rfl, rfl, Scan.one_eq_some_iff.mpr ⟨v, hv, rfl, rfl⟩⟩
    exact Scan.seq_append htwo hb

/-! ## Dates -/

/-- What is taken as a date and checked is one. -/
lemma isDate_of_date (h : date cs = some (x, r)) (hcheck : isCalendarDate x = true) :
    Iso.IsDate x ∧ cs = x ++ r := by
  obtain ⟨a, b, cs₁, x₁, -, -, rfl, rfl, h₁⟩ := seq_twoDigits_eq_some_iff.mp h
  obtain ⟨c, d, cs₂, x₂, -, -, rfl, rfl, h₂⟩ := seq_twoDigits_eq_some_iff.mp h₁
  obtain ⟨cs₃, x₃, rfl, rfl, h₃⟩ := Scan.seq_char_eq_some_iff.mp h₂
  obtain ⟨e, f, cs₄, x₄, -, -, rfl, rfl, h₄⟩ := seq_twoDigits_eq_some_iff.mp h₃
  obtain ⟨cs₅, x₅, rfl, rfl, h₅⟩ := Scan.seq_char_eq_some_iff.mp h₄
  obtain ⟨g, i, cs₆, x₆, -, -, rfl, rfl, h₆⟩ := seq_twoDigits_eq_some_iff.mp h₅
  cases h₆
  refine ⟨?_, rfl⟩
  simp only [isCalendarDate, List.take_succ_cons, List.take_zero, List.drop_succ_cons,
    List.drop_zero] at hcheck
  split at hcheck
  · rename_i year month day hyear hmonth hday
    obtain ⟨hbound, hyear⟩ := Iso.eq_year_of_number? hyear
    obtain ⟨-, hmonth⟩ := Iso.eq_two_of_number? hmonth
    obtain ⟨-, hday⟩ := Iso.eq_two_of_number? hday
    refine ⟨year, month, day, hbound, Iso.dayExists_iff.mpr (by simpa using hcheck), ?_⟩
    rw [← hyear, ← hmonth, ← hday]
    rfl
  · cases hcheck

/-- Two digits of a number are taken as such. -/
lemma seq_twoDigits_two {b : Scan} {n : Nat} (h : n < 100) (hb : b cs = some (x, r)) :
    Scan.seq twoDigits b (Iso.two n ++ cs) = some (Iso.two n ++ x, r) := by
  obtain ⟨u, v, htwo, hu, hv⟩ := Iso.exists_two h
  rw [htwo]
  exact seq_twoDigits_eq_some_iff.mpr ⟨u, v, cs, x, hu, hv, rfl, rfl, hb⟩

/-- A letter and a pattern behind it are taken one after the other. -/
lemma seq_char {b : Scan} (d : Char) (hb : b cs = some (x, r)) :
    Scan.seq (Scan.char d) b (d :: cs) = some (d :: x, r) :=
  Scan.seq_char_eq_some_iff.mpr ⟨cs, x, rfl, rfl, hb⟩

/-- A date is taken whole, and passes its check. -/
lemma date_append {day : List Char} (h : Iso.IsDate day) (r : List Char) :
    date (day ++ r) = some (day, r) ∧ isCalendarDate day = true := by
  obtain ⟨year, month, day, hyear, hexists, rfl⟩ := h
  have hlast := Iso.dayExists_iff.mp hexists
  have hbounds : month < 100 ∧ day < 100 := by
    simp only [daysInMonth] at hlast
    split_ifs at hlast <;> simp_all <;> omega
  constructor
  · have hdone : Scan.all [] r = some ([], r) := rfl
    have htaken := seq_twoDigits_two (n := year / 100) (by omega)
      (seq_twoDigits_two (n := year % 100) (by omega) (seq_char '-'
        (seq_twoDigits_two hbounds.1 (seq_char '-' (seq_twoDigits_two hbounds.2 hdone)))))
    simpa [date, Scan.all] using htaken
  · have hparts : number? (Iso.two (year / 100) ++ Iso.two (year % 100)) = some year ∧
        number? (Iso.two month) = some month ∧ number? (Iso.two day) = some day :=
      ⟨Iso.number?_year hyear, Iso.number?_two hbounds.1, Iso.number?_two hbounds.2⟩
    simp only [Iso.two, List.cons_append, List.nil_append] at hparts ⊢
    simp only [isCalendarDate, List.take_succ_cons, List.take_zero, List.drop_succ_cons,
      List.drop_zero, hparts]
    simpa using hlast

/-! ## Times of day and zones -/

/-- The shape of a time of day, in the digits of any script. -/
def IsClockShape (text : List Char) : Prop :=
  ∃ a b c d tail, isDecimalDigit a = true ∧ isDecimalDigit b = true ∧ isDecimalDigit c = true ∧
    isDecimalDigit d = true ∧ text = a :: b :: ':' :: c :: d :: tail ∧
    (tail = [] ∨ ∃ e f fraction, isDecimalDigit e = true ∧ isDecimalDigit f = true ∧
      (fraction = [] ∨ ∃ ds, Iso.Row isDecimalDigit ds ∧ fraction = '.' :: ds) ∧
      tail = ':' :: e :: f :: fraction)

/-- A time of day may go on with the character. -/
def continuesClock (c : Char) : Bool := isDecimalDigit c || c == '.' || c == ':'

/-- A time of day may go on with a digit. -/
lemma continuesClock_of_isDecimalDigit {c : Char} (h : isDecimalDigit c = true) :
    continuesClock c = true := by
  simp [continuesClock, h]

/-- What is taken as a fraction. -/
lemma fraction_sound (h : Scan.optional fraction cs = some (x, r)) :
    (x = [] ∨ ∃ ds, Iso.Row isDecimalDigit ds ∧ x = '.' :: ds) ∧ cs = x ++ r := by
  obtain h | ⟨-, rfl, rfl⟩ := Scan.optional_eq_some h
  · obtain ⟨cs, ds, rfl, rfl, hrow⟩ := Scan.seq_char_eq_some_iff.mp h
    obtain ⟨hds, rfl⟩ := Scan.row_of_some1 hrow
    exact ⟨.inr ⟨ds, hds, rfl⟩, rfl⟩
  · exact ⟨.inl rfl, rfl⟩

/-- A fraction that may be missing is taken up to what is no digit. -/
lemma fraction_append (hx : x = [] ∨ ∃ ds, Iso.Row isDecimalDigit ds ∧ x = '.' :: ds)
    (hr : HeadFails isDecimalDigit r) (hpoint : r.head? ≠ some '.') :
    Scan.optional fraction (x ++ r) = some (x, r) := by
  obtain rfl | ⟨ds, ⟨hne, hds⟩, rfl⟩ := hx
  · refine Scan.optional_of_none (Option.eq_none_iff_forall_ne_some.mpr fun found h => ?_)
    obtain ⟨rest, y, rfl, -⟩ := Scan.seq_char_eq_some_iff.mp h
    exact hpoint rfl
  · exact Scan.optional_of_some (seq_char '.' (Scan.some1_append hne hds hr))

/-- What is taken as a time of day has its shape. -/
lemma clock_sound (h : clock cs = some (x, r)) : IsClockShape x ∧ cs = x ++ r := by
  obtain ⟨a, b, cs₁, x₁, ha, hb, rfl, rfl, h₁⟩ := seq_twoDigits_eq_some_iff.mp h
  obtain ⟨cs₂, x₂, rfl, rfl, h₂⟩ := Scan.seq_char_eq_some_iff.mp h₁
  obtain ⟨c, d, cs₃, x₃, hc, hd, rfl, rfl, h₃⟩ := seq_twoDigits_eq_some_iff.mp h₂
  obtain ⟨tail, rest, _, htail, hdone, rfl⟩ := Scan.seq_eq_some h₃
  cases hdone
  rw [List.append_nil]
  obtain htail | ⟨-, rfl, rfl⟩ := Scan.optional_eq_some htail
  · obtain ⟨cs₄, x₄, rfl, rfl, h₄⟩ := Scan.seq_char_eq_some_iff.mp htail
    obtain ⟨e, f, cs₅, x₅, he, hf, rfl, rfl, h₅⟩ := seq_twoDigits_eq_some_iff.mp h₄
    obtain ⟨fraction, rest, _, hfraction, hdone, rfl⟩ := Scan.seq_eq_some h₅
    cases hdone
    obtain ⟨hshape, rfl⟩ := fraction_sound hfraction
    rw [List.append_nil]
    exact ⟨⟨a, b, c, d, _, ha, hb, hc, hd, rfl, .inr ⟨e, f, fraction, he, hf, hshape, rfl⟩⟩, by simp⟩
  · exact ⟨⟨a, b, c, d, [], ha, hb, hc, hd, rfl, .inl rfl⟩, rfl⟩

/-- A time of day is taken whole.

**Proof sketch.** Hours and minutes are taken digit by digit. The seconds are taken if they are
there, with their fraction; if not, the text behind does not start with a colon. -/
lemma clock_append (hx : IsClockShape x) (hr : HeadFails continuesClock r) :
    clock (x ++ r) = some (x, r) := by
  obtain ⟨a, b, c, d, tail, ha, hb, hc, hd, rfl, htail⟩ := hx
  have hends (c : Char) (h : r.head? = some c) :
      isDecimalDigit c = false ∧ c ≠ '.' ∧ c ≠ ':' := by
    simpa [continuesClock, and_assoc] using hr c h
  have hoption : Scan.optional (Scan.all [Scan.char ':', twoDigits, Scan.optional fraction])
      (tail ++ r) = some (tail, r) := by
    obtain rfl | ⟨e, f, fraction, he, hf, hfraction, rfl⟩ := htail
    · refine Scan.optional_of_none (Option.eq_none_iff_forall_ne_some.mpr fun found h => ?_)
      obtain ⟨rest, y, rfl, -⟩ := Scan.seq_char_eq_some_iff.mp h
      exact (hends ':' rfl).2.2 rfl
    · have htaken := fraction_append hfraction (fun c h => (hends c h).1)
        fun h => (hends '.' h).2.1 rfl
      have hdone := Scan.seq_append htaken (b := Scan.all []) rfl
      rw [List.append_nil] at hdone
      exact Scan.optional_of_some (seq_char ':'
        (seq_twoDigits_eq_some_iff.mpr ⟨e, f, _, _, he, hf, rfl, rfl, hdone⟩))
  have hdone := Scan.seq_append hoption (b := Scan.all []) rfl
  rw [List.append_nil] at hdone
  exact seq_twoDigits_eq_some_iff.mpr ⟨a, b, _, _, ha, hb, rfl, rfl, seq_char ':'
    (seq_twoDigits_eq_some_iff.mpr ⟨c, d, _, _, hc, hd, rfl, rfl, hdone⟩)⟩

/-- The check of a fraction asks for ASCII digits. -/
lemma isFraction_iff (hx : x = [] ∨ ∃ ds, Iso.Row isDecimalDigit ds ∧ x = '.' :: ds) :
    isFraction x = true ↔ IsFraction x := by
  obtain rfl | ⟨ds, ⟨hne, -⟩, rfl⟩ := hx
  · exact iff_of_true rfl (.inl rfl)
  · simp [isFraction, IsFraction, IsDigits, number?, hne]

/-- Two characters that are read as a number up to a bound are its digits. -/
lemma any_number?_iff {a b : Char} {bound : Nat} (hbound : bound < 100) :
    (number? [a, b]).any (· ≤ bound) = true ↔ ∃ n ≤ bound, [a, b] = Iso.two n := by
  constructor
  · intro h
    obtain ⟨n, hn, hle⟩ := (Option.any_eq_true _ _).mp h
    exact ⟨n, of_decide_eq_true hle, (Iso.eq_two_of_number? hn).2⟩
  · rintro ⟨n, hle, heq⟩
    simp [heq, Iso.number?_two (show n < 100 by omega), hle]

/-- The times of day are the texts of that shape that pass the check.

**Proof sketch.** The check reads the digits of a shape as numbers, so on a text of the shape it
says that these are in range (`hclock`, `hseconds`). Both directions take a text apart into hours,
minutes and seconds and put the three statements together. -/
lemma isClock_iff : Iso.IsClock x ↔ IsClockShape x ∧ isTimeOfDay x = true := by
  have hclock (a b c d : Char) (tail : List Char) :
      isTimeOfDay (a :: b :: ':' :: c :: d :: tail) = true ↔ ((∃ n ≤ 23, [a, b] = Iso.two n) ∧
        ∃ n ≤ 59, [c, d] = Iso.two n) ∧ isSecondsPart tail = true := by
    simp [isTimeOfDay, ← any_number?_iff]
  have hseconds (e f : Char) (fraction : List Char) :
      isSecondsPart (':' :: e :: f :: fraction) = true ↔ (∃ n ≤ 60, [e, f] = Iso.two n) ∧
        isFraction fraction = true := by
    simp [isSecondsPart, ← any_number?_iff]
  constructor
  · rintro ⟨hour, minute, tail, hhour, hminute, rfl, htail⟩
    obtain ⟨a, b, hab, ha, hb⟩ := Iso.exists_two (show hour < 100 by omega)
    obtain ⟨c, d, hcd, hc, hd⟩ := Iso.exists_two (show minute < 100 by omega)
    simp only [hab, hcd, List.cons_append, List.nil_append]
    obtain rfl | ⟨second, fraction, hsecond, hfraction, rfl⟩ := htail
    · exact ⟨⟨a, b, c, d, [], ha, hb, hc, hd, rfl, .inl rfl⟩,
        (hclock ..).mpr ⟨⟨⟨hour, hhour, hab.symm⟩, minute, hminute, hcd.symm⟩, rfl⟩⟩
    · obtain ⟨e, f, hef, he, hf⟩ := Iso.exists_two (show second < 100 by omega)
      have hshape : fraction = [] ∨ ∃ ds, Iso.Row isDecimalDigit ds ∧ fraction = '.' :: ds :=
        hfraction.imp_right fun ⟨ds, heq, hne, hds⟩ =>
          ⟨ds, ⟨hne, fun c hc => Iso.isDecimalDigit_of_isDigit (hds c hc)⟩, heq⟩
      simp only [hef, List.cons_append, List.nil_append]
      exact ⟨⟨a, b, c, d, _, ha, hb, hc, hd, rfl, .inr ⟨e, f, fraction, he, hf, hshape, rfl⟩⟩,
        (hclock ..).mpr ⟨⟨⟨hour, hhour, hab.symm⟩, minute, hminute, hcd.symm⟩,
          (hseconds ..).mpr ⟨⟨second, hsecond, hef.symm⟩, (isFraction_iff hshape).mpr hfraction⟩⟩⟩
  · rintro ⟨⟨a, b, c, d, tail, -, -, -, -, rfl, htail⟩, hcheck⟩
    obtain ⟨⟨⟨hour, hhour, hab⟩, minute, hminute, hcd⟩, hrest⟩ := (hclock ..).mp hcheck
    refine ⟨hour, minute, tail, hhour, hminute, by simp [← hab, ← hcd], ?_⟩
    obtain rfl | ⟨e, f, fraction, -, -, hshape, rfl⟩ := htail
    · exact .inl rfl
    · obtain ⟨⟨second, hsecond, hef⟩, hfraction⟩ := (hseconds ..).mp hrest
      exact .inr ⟨second, fraction, hsecond, (isFraction_iff hshape).mp hfraction, by simp [← hef]⟩

/-- What is taken as a zone has its shape. -/
lemma zone_sound (h : zone cs = some (x, r)) : Iso.IsOffsetShape x ∧ cs = x ++ r := by
  obtain h | ⟨-, h⟩ := Option.or_eq_some_iff.mp h
  · obtain ⟨c, hc, rfl, rfl⟩ := Scan.one_eq_some_iff.mp h
    obtain rfl : c = 'Z' := by simpa using hc
    exact ⟨.inl rfl, rfl⟩
  · obtain ⟨sign, cs₁, x₁, hsign, rfl, rfl, h₁⟩ := Scan.seq_one_eq_some_iff.mp h
    obtain ⟨a, b, cs₂, x₂, ha, hb, rfl, rfl, h₂⟩ := seq_twoDigits_eq_some_iff.mp h₁
    obtain ⟨cs₃, x₃, rfl, rfl, h₃⟩ := Scan.seq_char_eq_some_iff.mp h₂
    obtain ⟨c, d, cs₄, x₄, hc, hd, rfl, rfl, hdone⟩ := seq_twoDigits_eq_some_iff.mp h₃
    cases hdone
    exact ⟨.inr ⟨sign, by simpa [isSign] using hsign, a, b, c, d, ha, hb, hc, hd, rfl⟩, rfl⟩

/-- A zone is taken whole. -/
lemma zone_append (hx : Iso.IsOffsetShape x) (r : List Char) : zone (x ++ r) = some (x, r) := by
  obtain rfl | ⟨sign, hsign, a, b, c, d, ha, hb, hc, hd, rfl⟩ := hx
  · rfl
  · have hsign : sign = '+' ∨ sign = '-' := by simpa using hsign
    have hmark : isSign sign = true := by simpa [isSign] using hsign
    have hne : Scan.char 'Z' (sign :: a :: b :: ':' :: c :: d :: r) = none := by
      obtain rfl | rfl := hsign <;> rfl
    have hdone : Scan.all [] r = some ([], r) := rfl
    have htaken := Scan.seq_one_eq_some_iff.mpr ⟨sign, _, _, hmark, rfl, rfl,
      seq_twoDigits_eq_some_iff.mpr ⟨a, b, _, _, ha, hb, rfl, rfl, seq_char ':'
        (seq_twoDigits_eq_some_iff.mpr ⟨c, d, _, _, hc, hd, rfl, rfl, hdone⟩)⟩⟩
    exact Option.or_eq_some_iff.mpr (.inr ⟨hne, htaken⟩)

/-! ## Durations -/

/-- The first character that is no digit; of a count, its unit. -/
def unit? (s : List Char) : Option Char := (s.dropWhile isDecimalDigit).head?

/-- The unit of a count stands behind its digits. -/
lemma unit?_row {ds : List Char} {u : Char} (hds : Iso.Row isDecimalDigit ds)
    (hu : isDecimalDigit u = false) : unit? (ds ++ u :: r) = some u := by
  rw [unit?, dropWhile_append_of_headFails hds.2 (headFails_cons hu), List.head?_cons]

/-- A count is missing where another unit, or none, comes next. -/
lemma component_none {u : Char} (h : unit? cs ≠ some u) : component u cs = none := by
  refine Option.eq_none_iff_forall_ne_some.mpr fun found hfound => h ?_
  obtain ⟨ds, rest, _, hrow, hchar, -⟩ := Scan.seq_eq_some hfound
  obtain ⟨c, hc, -, rfl⟩ := Scan.one_eq_some_iff.mp hchar
  obtain rfl : c = u := by simpa using hc
  obtain ⟨-, -, hdrop⟩ := Scan.some1_eq_some hrow
  rw [unit?, hdrop, List.head?_cons]

/-- A count is taken whole. -/
lemma component_append {ds : List Char} {u : Char} (hds : Iso.Row isDecimalDigit ds)
    (hu : isDecimalDigit u = false) : component u (ds ++ u :: r) = some (ds ++ [u], r) := by
  exact Scan.seq_append (Scan.some1_append hds.1 hds.2 (headFails_cons hu))
    (Scan.one_eq_some_iff.mpr ⟨u, by simp, rfl, rfl⟩)

section Units

variable {units s : List Char}

/-- The unit that comes next is among the units, or it is the one behind the counts. -/
lemma unit?_counts (h : Iso.Counts isDecimalDigit units s)
    (hunits : ∀ u ∈ units, isDecimalDigit u = false) (r : List Char) :
    (∃ u ∈ units, unit? (s ++ r) = some u) ∨ unit? (s ++ r) = unit? r := by
  induction h with
  | nil => exact .inr rfl
  | @skip unit units s _ ih =>
    obtain ⟨u, hu, hnext⟩ | hnext := ih (fun u hu => hunits u (List.mem_cons_of_mem _ hu))
    · exact .inl ⟨u, List.mem_cons_of_mem _ hu, hnext⟩
    · exact .inr hnext
  | @count unit units ds s hds _ _ =>
    refine .inl ⟨unit, List.mem_cons_self, ?_⟩
    rw [List.append_assoc, List.cons_append]
    exact unit?_row hds (hunits unit List.mem_cons_self)

/-- Counts are taken whole, each unit at most once. -/
lemma all_counts {more : List Scan} {z t : List Char} (h : Iso.Counts isDecimalDigit units s)
    (hunits : ∀ u ∈ units, isDecimalDigit u = false) (hnodup : units.Nodup)
    (hnext : ∀ u ∈ units, unit? r ≠ some u) (hmore : Scan.all more r = some (z, t)) :
    Scan.all (units.map (fun u => Scan.optional (component u)) ++ more) (s ++ r) =
      some (s ++ z, t) := by
  induction h with
  | nil => exact hmore
  | @skip unit units s hs ih =>
    obtain ⟨hhere, hlater⟩ := List.forall_mem_cons.mp hunits
    obtain ⟨hnew, hnodup⟩ := List.nodup_cons.mp hnodup
    obtain ⟨hfirst, hnext⟩ := List.forall_mem_cons.mp hnext
    have hnone : component unit (s ++ r) = none := by
      refine component_none fun hunit => ?_
      obtain ⟨u, hu, hfound⟩ | hfound := unit?_counts hs hlater r
      · rw [hunit] at hfound
        exact hnew (Option.some.inj hfound ▸ hu)
      · exact hfirst (hfound ▸ hunit)
    have htaken := Scan.seq_append (Scan.optional_of_none hnone) (ih hlater hnodup hnext)
    simpa [Scan.all] using htaken
  | @count unit units ds s hds hs ih =>
    obtain ⟨hhere, hlater⟩ := List.forall_mem_cons.mp hunits
    have hrest := ih hlater (List.nodup_cons.mp hnodup).2 (List.forall_mem_cons.mp hnext).2
    have htaken := Scan.optional_of_some (component_append (r := s ++ r) hds hhere)
    simpa [Scan.all] using Scan.seq_append htaken hrest

/-- What is taken for units are counts of them. -/
lemma counts_of_all {more : List Scan}
    (h : Scan.all (units.map (fun u => Scan.optional (component u)) ++ more) cs = some (x, r)) :
    ∃ s rest y, Iso.Counts isDecimalDigit units s ∧ cs = s ++ rest ∧ x = s ++ y ∧
      Scan.all more rest = some (y, r) := by
  induction units generalizing cs x with
  | nil => exact ⟨[], cs, x, .nil, rfl, rfl, h⟩
  | cons unit units ih =>
    obtain ⟨x₁, cs₁, x₂, hoption, hmore, rfl⟩ := Scan.seq_eq_some h
    obtain ⟨s, rest, y, hs, rfl, rfl, hrest⟩ := ih hmore
    obtain hcount | ⟨-, rfl, rfl⟩ := Scan.optional_eq_some hoption
    · obtain ⟨ds, cs₂, _, hrow, hchar, rfl⟩ := Scan.seq_eq_some hcount
      obtain ⟨hds, rfl⟩ := Scan.row_of_some1 hrow
      obtain ⟨c, hc, rfl, rfl⟩ := Scan.one_eq_some_iff.mp hchar
      obtain rfl : c = unit := by simpa using hc
      exact ⟨ds ++ c :: s, rest, y, .count hds hs, by simp, by simp, hrest⟩
    · exact ⟨s, rest, y, .skip hs, rfl, rfl, hrest⟩

end Units

/-- What is taken as seconds. -/
lemma seconds_sound (h : seconds cs = some (x, r)) :
    Iso.IsSeconds isDecimalDigit x ∧ cs = x ++ r := by
  obtain ⟨whole, cs₁, x₁, hrow, h₁, rfl⟩ := Scan.seq_eq_some h
  obtain ⟨fraction, cs₂, x₂, hfraction, h₂, rfl⟩ := Scan.seq_eq_some h₁
  obtain ⟨cs₃, x₃, rfl, rfl, hdone⟩ := Scan.seq_char_eq_some_iff.mp h₂
  cases hdone
  obtain ⟨hwhole, rfl⟩ := Scan.row_of_some1 hrow
  obtain ⟨hshape, rfl⟩ := fraction_sound hfraction
  exact ⟨⟨whole, fraction, hwhole, hshape, by simp⟩, by simp⟩

/-- Seconds are taken whole, and their unit or a point comes next. -/
lemma seconds_append {s : List Char} (h : Iso.IsSeconds isDecimalDigit s) :
    seconds s = some (s, []) ∧ (unit? s = some 'S' ∨ unit? s = some '.') := by
  obtain ⟨whole, fraction, hwhole, hfraction, rfl⟩ := h
  have hunit : isDecimalDigit 'S' = false := by decide
  have hpoint : isDecimalDigit '.' = false := by decide
  have hfails : HeadFails isDecimalDigit ['S'] := headFails_cons hunit
  have hbehind : HeadFails isDecimalDigit (fraction ++ ['S']) := by
    obtain rfl | ⟨ds, -, rfl⟩ := hfraction
    · exact hfails
    · exact headFails_cons hpoint
  constructor
  · have hend : Scan.all [Scan.char 'S'] ['S'] = some (['S'], []) := rfl
    have htaken := Scan.seq_append (Scan.some1_append hwhole.1 hwhole.2 hbehind)
      (Scan.seq_append (fraction_append hfraction hfails (by simp)) hend)
    simpa [seconds, Scan.all] using htaken
  · obtain rfl | ⟨ds, -, rfl⟩ := hfraction
    · exact .inl (by simpa using unit?_row (r := []) hwhole hunit)
    · exact .inr (by simpa using unit?_row (r := ds ++ ['S']) hwhole hpoint)

/-- The pattern of the part of a duration from `T` on. -/
def timeOfDuration : Scan :=
  Scan.seq (Scan.char 'T') (Scan.all (['H', 'M'].map (fun u => Scan.optional (component u)) ++
    [Scan.optional seconds]))

/-- A duration is `P` with the counts of days and longer units, and the part of the time. -/
lemma duration_eq : duration = Scan.seq (Scan.char 'P') (Scan.all
    (['Y', 'M', 'W', 'D'].map (fun u => Scan.optional (component u)) ++
      [Scan.optional timeOfDuration])) := rfl

/-- What is taken as the part from `T` on; all of its components may be missing. -/
lemma timeOfDuration_sound (h : timeOfDuration cs = some (x, r)) :
    ∃ counts tail, Iso.Counts isDecimalDigit ['H', 'M'] counts ∧
      (tail = [] ∨ Iso.IsSeconds isDecimalDigit tail) ∧ x = 'T' :: (counts ++ tail) ∧
      cs = x ++ r := by
  obtain ⟨cs₁, x₁, rfl, rfl, h₁⟩ := Scan.seq_char_eq_some_iff.mp h
  obtain ⟨counts, cs₂, x₂, hcounts, rfl, rfl, h₂⟩ := counts_of_all h₁
  obtain ⟨tail, cs₃, x₃, hoption, hdone, rfl⟩ := Scan.seq_eq_some h₂
  cases hdone
  rw [List.append_nil]
  obtain hseconds | ⟨-, rfl, rfl⟩ := Scan.optional_eq_some hoption
  · obtain ⟨hshape, rfl⟩ := seconds_sound hseconds
    exact ⟨counts, tail, hcounts, .inr hshape, rfl, by simp⟩
  · exact ⟨counts, [], hcounts, .inl rfl, rfl, by simp⟩

/-- What is taken as a duration; all of its components may be missing. -/
lemma duration_sound (h : duration cs = some (x, r)) :
    ∃ counts time, Iso.Counts isDecimalDigit ['Y', 'M', 'W', 'D'] counts ∧
      (time = [] ∨ ∃ counts tail, Iso.Counts isDecimalDigit ['H', 'M'] counts ∧
        (tail = [] ∨ Iso.IsSeconds isDecimalDigit tail) ∧ time = 'T' :: (counts ++ tail)) ∧
      x = 'P' :: (counts ++ time) ∧ cs = x ++ r := by
  rw [duration_eq] at h
  obtain ⟨cs₁, x₁, rfl, rfl, h₁⟩ := Scan.seq_char_eq_some_iff.mp h
  obtain ⟨counts, cs₂, x₂, hcounts, rfl, rfl, h₂⟩ := counts_of_all h₁
  obtain ⟨time, cs₃, x₃, hoption, hdone, rfl⟩ := Scan.seq_eq_some h₂
  cases hdone
  rw [List.append_nil]
  obtain htime | ⟨-, rfl, rfl⟩ := Scan.optional_eq_some hoption
  · obtain ⟨counts', tail, hcounts', htail, rfl, rfl⟩ := timeOfDuration_sound htime
    exact ⟨counts, _, hcounts, .inr ⟨counts', tail, hcounts', htail, rfl⟩, rfl, by simp⟩
  · exact ⟨counts, [], hcounts, .inl rfl, rfl, by simp⟩

/-- A pattern that may be missing takes a whole text. -/
lemma all_optional {a : Scan} (h : x = [] ∧ a [] = none ∨ a x = some (x, [])) :
    Scan.all [Scan.optional a] x = some (x, []) := by
  have htaken : Scan.optional a x = some (x, []) := by
    obtain ⟨rfl, hnone⟩ | htaken := h
    · exact Scan.optional_of_none hnone
    · exact Scan.optional_of_some htaken
  have hdone := Scan.seq_append htaken (b := Scan.all []) rfl
  rwa [List.append_nil] at hdone

/-- The part of a duration from `T` on is taken as a whole. -/
lemma timeOfDuration_whole (h : Iso.IsTimePart isDecimalDigit x) :
    timeOfDuration x = some (x, []) := by
  obtain ⟨counts, tail, hcounts, htail, -, rfl⟩ := h
  have hrest : Scan.all [Scan.optional seconds] tail = some (tail, []) :=
    all_optional (htail.imp (fun h => ⟨h, rfl⟩) fun h => (seconds_append h).1)
  have hnext : ∀ u ∈ ['H', 'M'], unit? tail ≠ some u := by
    obtain rfl | htail := htail
    · simp [unit?]
    · obtain h | h := (seconds_append htail).2 <;> simp [h]
  have hunits : ∀ u ∈ ['H', 'M'], isDecimalDigit u = false := fun u hu => by
    fin_cases hu <;> decide
  exact seq_char 'T' (all_counts hcounts hunits (by decide) hnext hrest)

/-- A duration is taken whole. -/
lemma duration_whole (h : Iso.IsDuration isDecimalDigit x) : duration x = some (x, []) := by
  obtain ⟨counts, time, hcounts, htime, -, rfl⟩ := h
  have hrest : Scan.all [Scan.optional timeOfDuration] time = some (time, []) :=
    all_optional (htime.imp (fun h => ⟨h, rfl⟩) timeOfDuration_whole)
  have hnext : ∀ u ∈ ['Y', 'M', 'W', 'D'], unit? time ≠ some u := by
    obtain rfl | ⟨counts', tail, -, -, -, rfl⟩ := htime
    · simp [unit?]
    · have hmark : unit? ('T' :: (counts' ++ tail)) = some 'T' := rfl
      simp [hmark]
  have hunits : ∀ u ∈ ['Y', 'M', 'W', 'D'], isDecimalDigit u = false := fun u hu => by
    fin_cases hu <;> decide
  rw [duration_eq]
  exact seq_char 'P' (all_counts hcounts hunits (by decide) hnext hrest)

end Temporal

end Retarget
