import Mathlib
import Retarget.Proofs.Numeral

set_option autoImplicit false

/-!
# Texts of ISO 8601

Dates, times of day, zones and durations as the standard writes them, said by numbers and calendar
rules and not by patterns. Beside the zones and durations of the standard stand the shapes that are
read as such; what sets them apart is told by their digits.

## Main definitions

* `Retarget.Iso.IsDate`, `Retarget.Iso.IsClock`, `Retarget.Iso.IsOffset`, `Retarget.Iso.IsDuration` —
  the texts of the standard.
* `Retarget.Iso.IsOffsetShape`, `Retarget.Iso.IsDurationShape` — zones whose numbers are not looked
  at, and durations in the digits of any script.
* `Retarget.Iso.InRange`, `Retarget.Iso.AsciiDigits` — what is not looked at in them.
* `Retarget.Iso.IsTemporal` — the text is written for the literal.

## Main results

* `Retarget.Iso.dayExists_iff` — the calendar of the checks is the Gregorian calendar.
* `Retarget.Iso.isOffset_iff`, `Retarget.Iso.isDuration_iff` — which shapes the standard has.
-/

namespace Retarget

open Text (isDecimalDigit natOfDigits)

namespace Iso

/-! ## Dates and times of day -/

/-- A number below a hundred in two digits. -/
def two (n : Nat) : List Char := [Nat.digitChar (n / 10), Nat.digitChar (n % 10)]

/-- The year has a leap day: every fourth one, but of the hundredth ones only every fourth. -/
def IsLeap (year : Nat) : Prop := 400 ∣ year ∨ 4 ∣ year ∧ ¬100 ∣ year

/-- The days of the months of a common year. -/
def monthLengths : List Nat := [31, 28, 31, 30, 31, 30, 31, 31, 30, 31, 30, 31]

/-- The day exists in the Gregorian calendar, which is reckoned backwards too. -/
def DayExists (year month day : Nat) : Prop :=
  1 ≤ month ∧ 1 ≤ day ∧ ∃ length, monthLengths[month - 1]? = some length ∧
    (day ≤ length ∨ month = 2 ∧ day = 29 ∧ IsLeap year)

/-- The text `YYYY-MM-DD` of a day that exists. -/
def IsDate (text : List Char) : Prop :=
  ∃ year month day, year < 10000 ∧ DayExists year month day ∧
    text = two (year / 100) ++ two (year % 100) ++ '-' :: two month ++ '-' :: two day

/-- The text `hh:mm`, `hh:mm:ss` or `hh:mm:ss.f` of a time of day, the leap second included. -/
def IsClock (text : List Char) : Prop :=
  ∃ hour minute tail, hour ≤ 23 ∧ minute ≤ 59 ∧ text = two hour ++ ':' :: two minute ++ tail ∧
    (tail = [] ∨ ∃ second fraction, second ≤ 60 ∧ IsFraction fraction ∧
      tail = ':' :: two second ++ fraction)

/-- The text `Z`, or `+hh:mm` or `-hh:mm` of an offset of less than a day. -/
def IsOffset (text : List Char) : Prop :=
  text = ['Z'] ∨ ∃ sign ∈ ['+', '-'], ∃ hour minute, hour ≤ 23 ∧ minute ≤ 59 ∧
    text = sign :: two hour ++ ':' :: two minute

/-- The text `Z`, or a sign and twice two digits of any script, whatever numbers they are. -/
def IsOffsetShape (text : List Char) : Prop :=
  text = ['Z'] ∨ ∃ sign ∈ ['+', '-'], ∃ a b c d, isDecimalDigit a ∧ isDecimalDigit b ∧
    isDecimalDigit c ∧ isDecimalDigit d ∧ text = [sign, a, b, ':', c, d]

/-- The digits of the text are ASCII digits. -/
def AsciiDigits (text : List Char) : Prop := ∀ c ∈ text, isDecimalDigit c = true → c.isDigit = true

/-- The zone is in ASCII digits, and its numbers are those of less than a day. -/
def InRange (zone : List Char) : Prop :=
  AsciiDigits zone ∧ natOfDigits ((zone.drop 1).take 2) ≤ 23 ∧ natOfDigits (zone.drop 4) ≤ 59

/-- A date and a time of day, behind which a zone may stand. -/
def IsDateTime (IsZone : List Char → Prop) (text : List Char) : Prop :=
  ∃ day clock zone, IsDate day ∧ IsClock clock ∧ (zone = [] ∨ IsZone zone) ∧
    text = day ++ 'T' :: (clock ++ zone)

/-! ## Durations -/

section Durations

variable (digit : Char → Bool)

/-- A nonempty row of digits. -/
def Row (s : List Char) : Prop := s ≠ [] ∧ ∀ c ∈ s, digit c = true

/-- Counts of some of the units, in the order of the units. -/
inductive Counts : List Char → List Char → Prop
  | nil : Counts [] []
  | skip {unit : Char} {units s : List Char} : Counts units s → Counts (unit :: units) s
  | count {unit : Char} {units ds s : List Char} : Row digit ds → Counts units s →
      Counts (unit :: units) (ds ++ unit :: s)

/-- A count of seconds, which may have a fraction. -/
def IsSeconds (text : List Char) : Prop :=
  ∃ whole fraction, Row digit whole ∧ (fraction = [] ∨ ∃ ds, Row digit ds ∧ fraction = '.' :: ds) ∧
    text = whole ++ fraction ++ ['S']

/-- The part of a duration from `T` on. -/
def IsTimePart (text : List Char) : Prop :=
  ∃ counts seconds, Counts digit ['H', 'M'] counts ∧ (seconds = [] ∨ IsSeconds digit seconds) ∧
    counts ++ seconds ≠ [] ∧ text = 'T' :: (counts ++ seconds)

/-- The text `P[nY][nM][nW][nD][T[nH][nM][n[.f]S]]` of a duration. It has a component, and one behind
`T`. -/
def IsDuration (text : List Char) : Prop :=
  ∃ counts time, Counts digit ['Y', 'M', 'W', 'D'] counts ∧ (time = [] ∨ IsTimePart digit time) ∧
    counts ++ time ≠ [] ∧ text = 'P' :: (counts ++ time)

end Durations

/-- A duration in the digits of any script, the first one being an ASCII digit. -/
def IsDurationShape (text : List Char) : Prop :=
  IsDuration isDecimalDigit text ∧ ∃ c, text.find? isDecimalDigit = some c ∧ c.isDigit = true

/-- The text is written for the literal, where zones and durations are texts as given. -/
inductive IsTemporal (IsZone IsSpan : List Char → Prop) : List Char → Literal → Prop
  | date {iso : List Char} : IsDate iso → IsTemporal IsZone IsSpan ('D' :: iso) (.date (.ofList iso))
  | dateTime {iso : List Char} : IsDateTime IsZone iso →
      IsTemporal IsZone IsSpan ('D' :: iso) (.dateTime (.ofList iso))
  | duration {iso : List Char} : IsSpan iso → IsTemporal IsZone IsSpan iso (.duration (.ofList iso))

/-! ## Numbers in two digits -/

/-- An ASCII digit is the character of a number below ten. -/
lemma exists_digitChar {c : Char} (h : c.isDigit = true) : ∃ v < 10, c = Nat.digitChar v := by
  have hall : ∀ n < 58, 48 ≤ n → Char.ofNat n = Nat.digitChar (n - 48) := by decide
  simp only [Char.isDigit, Bool.and_eq_true, decide_eq_true_eq] at h
  have hlow : 48 ≤ c.toNat := h.1
  have hhigh : c.toNat ≤ 57 := h.2
  refine ⟨c.toNat - 48, by omega, ?_⟩
  rw [← hall c.toNat (by omega) hlow, Char.ofNat_toNat]

/-- The character of a number below ten is an ASCII digit. -/
lemma isDigit_digitChar {v : Nat} (h : v < 10) : (Nat.digitChar v).isDigit = true := by
  have hall : ∀ v < 10, (Nat.digitChar v).isDigit = true := by decide
  exact hall v h

/-- The code of the character of a number below ten. -/
lemma toNat_digitChar {v : Nat} (h : v < 10) : (Nat.digitChar v).toNat = 48 + v := by
  have hall : ∀ v < 10, (Nat.digitChar v).toNat = 48 + v := by decide
  exact hall v h

/-- An ASCII digit is a digit of some script. -/
lemma isDecimalDigit_of_isDigit {c : Char} (h : c.isDigit = true) : isDecimalDigit c = true := by
  rw [isDecimalDigit, h, Bool.true_or]

section Numbers

variable {n : Nat}

/-- Two digits of a number are ASCII digits. -/
lemma isDigit_of_mem_two (h : n < 100) : ∀ c ∈ two n, c.isDigit = true := by
  rw [two, List.forall_mem_cons, List.forall_mem_singleton]
  exact ⟨isDigit_digitChar (by omega), isDigit_digitChar (by omega)⟩

/-- A number below a hundred has two digits. -/
lemma exists_two (h : n < 100) :
    ∃ a b, two n = [a, b] ∧ isDecimalDigit a = true ∧ isDecimalDigit b = true :=
  ⟨_, _, rfl, isDecimalDigit_of_isDigit (isDigit_digitChar (by omega)),
    isDecimalDigit_of_isDigit (isDigit_digitChar (by omega))⟩

/-- Two digits behind others. -/
lemma natOfDigits_append_two (h : n < 100) (ds : List Char) :
    natOfDigits (ds ++ two n) = 100 * natOfDigits ds + n := by
  have hzero : '0'.toNat = 48 := rfl
  simp only [two, natOfDigits, List.foldl_append, List.foldl_cons, List.foldl_nil,
    toNat_digitChar (show n / 10 < 10 by omega), toNat_digitChar (show n % 10 < 10 by omega), hzero]
  omega

/-- Two digits of a number denote it. -/
lemma natOfDigits_two (h : n < 100) : natOfDigits (two n) = n := by
  simpa [natOfDigits] using natOfDigits_append_two h []

/-- Two digits of a number are read as it. -/
lemma number?_two (h : n < 100) : Temporal.number? (two n) = some n := by
  have hall : (two n).all Char.isDigit = true := List.all_eq_true.mpr (isDigit_of_mem_two h)
  rw [Temporal.number?, hall, natOfDigits_two h]
  rfl

/-- Four digits of a year are read as it. -/
lemma number?_year (h : n < 10000) :
    Temporal.number? (two (n / 100) ++ two (n % 100)) = some n := by
  have hall : (two (n / 100) ++ two (n % 100)).all Char.isDigit = true := by
    refine List.all_eq_true.mpr (List.forall_mem_append.mpr ⟨?_, ?_⟩)
    · exact isDigit_of_mem_two (by omega)
    · exact isDigit_of_mem_two (by omega)
  have hvalue : natOfDigits (two (n / 100) ++ two (n % 100)) = n := by
    rw [natOfDigits_append_two (by omega), natOfDigits_two (by omega)]
    omega
  rw [Temporal.number?, hall, hvalue]
  rfl

/-- Two characters that are read as a number are its digits. -/
lemma eq_two_of_number? {a b : Char} (h : Temporal.number? [a, b] = some n) :
    n < 100 ∧ [a, b] = two n := by
  have hdigits : a.isDigit = true ∧ b.isDigit = true := by
    by_contra hne
    simp [Temporal.number?, hne] at h
  obtain ⟨u, hu, rfl⟩ := exists_digitChar hdigits.1
  obtain ⟨v, hv, rfl⟩ := exists_digitChar hdigits.2
  have htwo : [Nat.digitChar u, Nat.digitChar v] = two (10 * u + v) := by
    rw [two, show (10 * u + v) / 10 = u by omega, show (10 * u + v) % 10 = v by omega]
  rw [htwo, number?_two (by omega)] at h
  obtain rfl := Option.some.inj h
  exact ⟨by omega, htwo⟩

/-- Four characters that are read as a number are its digits. -/
lemma eq_year_of_number? {a b c d : Char} (h : Temporal.number? [a, b, c, d] = some n) :
    n < 10000 ∧ [a, b, c, d] = two (n / 100) ++ two (n % 100) := by
  have hdigits : (a.isDigit = true ∧ b.isDigit = true) ∧ c.isDigit = true ∧ d.isDigit = true := by
    by_contra hne
    simp only [and_assoc] at hne
    simp [Temporal.number?, hne] at h
  have hpair {a b : Char} (ha : a.isDigit = true) (hb : b.isDigit = true) :
      ∃ m < 100, [a, b] = two m := by
    obtain ⟨m, hm⟩ : ∃ m, Temporal.number? [a, b] = some m := by simp [Temporal.number?, ha, hb]
    exact ⟨m, eq_two_of_number? hm⟩
  obtain ⟨u, hu, hab⟩ := hpair hdigits.1.1 hdigits.1.2
  obtain ⟨v, hv, hcd⟩ := hpair hdigits.2.1 hdigits.2.2
  have hyear : [a, b, c, d] = two ((100 * u + v) / 100) ++ two ((100 * u + v) % 100) := by
    rw [show (100 * u + v) / 100 = u by omega, show (100 * u + v) % 100 = v by omega, ← hab, ← hcd]
    rfl
  rw [hyear, number?_year (by omega)] at h
  obtain rfl := Option.some.inj h
  exact ⟨by omega, hyear⟩

end Numbers

/-! ## The ends of durations -/

section Ends

variable {digit : Char → Bool} {units s : List Char}

/-- Counts start with a digit and end with a unit. -/
lemma Counts.ends (h : Counts digit units s) (hne : s ≠ []) :
    (∃ c more, s = c :: more ∧ digit c = true ∧ more ≠ []) ∧ ∃ u ∈ units, s.getLast? = some u := by
  induction h with
  | nil => exact absurd rfl hne
  | skip _ ih =>
    obtain ⟨hstart, u, hu, hlast⟩ := ih hne
    exact ⟨hstart, u, List.mem_cons_of_mem _ hu, hlast⟩
  | @count unit units ds s hds hs ih =>
    obtain ⟨c, ds, rfl⟩ := List.exists_cons_of_ne_nil hds.1
    refine ⟨⟨c, ds ++ unit :: s, rfl, hds.2 c List.mem_cons_self, by simp⟩, ?_⟩
    by_cases hnil : s = []
    · exact ⟨unit, List.mem_cons_self, by simp [hnil, List.getLast?_cons]⟩
    · obtain ⟨-, u, hu, hlast⟩ := ih hnil
      exact ⟨u, List.mem_cons_of_mem _ hu, by simp [List.getLast?_cons, hlast]⟩

/-- A count of seconds starts with a digit and ends in its letter. -/
lemma IsSeconds.ends (h : IsSeconds digit s) :
    (∃ c more, s = c :: more ∧ digit c = true ∧ more ≠ []) ∧ s.getLast? = some 'S' := by
  obtain ⟨whole, fraction, hwhole, -, rfl⟩ := h
  obtain ⟨c, ds, rfl⟩ := List.exists_cons_of_ne_nil hwhole.1
  exact ⟨⟨c, ds ++ fraction ++ ['S'], by simp, hwhole.2 c List.mem_cons_self, by simp⟩,
    by simp [List.getLast?_cons]⟩

/-- What stands behind `T` starts with a digit, and does not end with `T`. -/
lemma IsTimePart.ends (h : IsTimePart digit s) :
    (∃ c more, s = 'T' :: c :: more ∧ digit c = true) ∧ s.getLast? ≠ some 'T' := by
  obtain ⟨counts, tail, hcounts, htail, hne, rfl⟩ := h
  obtain rfl | htail := htail
  · rw [List.append_nil] at hne ⊢
    obtain ⟨⟨c, more, rfl, hc, -⟩, u, hu, hlast⟩ := hcounts.ends hne
    refine ⟨⟨c, more, rfl, hc⟩, ?_⟩
    rw [List.getLast?_cons_cons, hlast]
    fin_cases hu <;> simp
  · obtain ⟨⟨c, more, htext, hc, -⟩, hlast⟩ := htail.ends
    refine ⟨?_, by simp [List.getLast?_cons, hlast]⟩
    by_cases hnil : counts = []
    · exact ⟨c, more, by simp [hnil, htext], hc⟩
    · obtain ⟨⟨c, more, rfl, hc, -⟩, -⟩ := hcounts.ends hnil
      exact ⟨c, more ++ tail, rfl, hc⟩

/-- A duration has its first digit behind `P` or `PT`, has a character more than that, and does not
end with `T`. -/
lemma IsDuration.ends (h : IsDuration digit s) :
    (∃ c more, digit c = true ∧
      (s = 'P' :: c :: more ∧ more ≠ [] ∨ s = 'P' :: 'T' :: c :: more)) ∧
    s.getLast? ≠ some 'T' := by
  obtain ⟨counts, time, hcounts, htime, hne, rfl⟩ := h
  obtain rfl | htime := htime
  · rw [List.append_nil] at hne ⊢
    obtain ⟨⟨c, more, rfl, hc, hmore⟩, u, hu, hlast⟩ := hcounts.ends hne
    refine ⟨⟨c, more, hc, .inl ⟨rfl, hmore⟩⟩, ?_⟩
    rw [List.getLast?_cons_cons, hlast]
    fin_cases hu <;> simp
  · obtain ⟨⟨c, more, rfl, hc⟩, hlast⟩ := htime.ends
    refine ⟨?_, by simpa [List.getLast?_cons] using hlast⟩
    by_cases hnil : counts = []
    · exact ⟨c, more, hc, .inr (by simp [hnil])⟩
    · obtain ⟨⟨d, before, rfl, hd, -⟩, -⟩ := hcounts.ends hnil
      exact ⟨d, before ++ 'T' :: c :: more, hd, .inl ⟨rfl, by simp⟩⟩

end Ends

/-! ## Digits of the standard -/

section Digits

variable {digit other : Char → Bool} {units s : List Char}

/-- A row of digits is one of digits of a wider kind. -/
lemma Row.imp (h : Row digit s) (himp : ∀ c ∈ s, digit c = true → other c = true) : Row other s :=
  ⟨h.1, fun c hc => himp c hc (h.2 c hc)⟩

/-- Counts in digits are counts in digits of a wider kind. -/
lemma Counts.imp (h : Counts digit units s) (himp : ∀ c ∈ s, digit c = true → other c = true) :
    Counts other units s := by
  induction h with
  | nil => exact .nil
  | skip _ ih => exact .skip (ih himp)
  | @count unit units ds s hds _ ih =>
    rw [List.forall_mem_append, List.forall_mem_cons] at himp
    exact .count (hds.imp himp.1) (ih himp.2.2)

/-- Seconds in digits are seconds in digits of a wider kind. -/
lemma IsSeconds.imp (h : IsSeconds digit s) (himp : ∀ c ∈ s, digit c = true → other c = true) :
    IsSeconds other s := by
  obtain ⟨whole, fraction, hwhole, hfraction, rfl⟩ := h
  rw [List.forall_mem_append, List.forall_mem_append] at himp
  refine ⟨whole, fraction, hwhole.imp himp.1.1, hfraction.imp_right ?_, rfl⟩
  rintro ⟨ds, hds, rfl⟩
  exact ⟨ds, hds.imp fun c hc => himp.1.2 c (List.mem_cons_of_mem _ hc), rfl⟩

/-- A duration is one in other digits too if its own are among them. -/
lemma IsDuration.imp (h : IsDuration digit s) (himp : ∀ c ∈ s, digit c = true → other c = true) :
    IsDuration other s := by
  obtain ⟨counts, time, hcounts, htime, hne, rfl⟩ := h
  rw [List.forall_mem_cons, List.forall_mem_append] at himp
  refine ⟨counts, time, hcounts.imp himp.2.1, htime.imp_right ?_, hne, rfl⟩
  rintro ⟨counts', tail, hcounts', htail, hne', rfl⟩
  have himp' := himp.2.2
  rw [List.forall_mem_cons, List.forall_mem_append] at himp'
  exact ⟨counts', tail, hcounts'.imp himp'.2.1, htail.imp_right (IsSeconds.imp · himp'.2.2), hne', rfl⟩

/-- The characters of counts are digits and units. -/
lemma Counts.mem (h : Counts digit units s) : ∀ c ∈ s, digit c = true ∨ c ∈ units := by
  induction h with
  | nil => exact List.forall_mem_nil _
  | skip _ ih => exact fun c hc => (ih c hc).imp_right (List.mem_cons_of_mem _)
  | count hds _ ih =>
    rw [List.forall_mem_append, List.forall_mem_cons]
    exact ⟨fun c hc => .inl (hds.2 c hc), .inr List.mem_cons_self,
      fun c hc => (ih c hc).imp_right (List.mem_cons_of_mem _)⟩

/-- A count of seconds has digits, a point and its letter. -/
lemma IsSeconds.mem (h : IsSeconds digit s) : ∀ c ∈ s, digit c = true ∨ c ∈ ['.', 'S'] := by
  obtain ⟨whole, fraction, hwhole, hfraction, rfl⟩ := h
  rw [List.forall_mem_append, List.forall_mem_append]
  refine ⟨⟨fun c hc => .inl (hwhole.2 c hc), ?_⟩, by simp⟩
  obtain rfl | ⟨ds, hds, rfl⟩ := hfraction
  · exact List.forall_mem_nil _
  · exact List.forall_mem_cons.mpr ⟨.inr (by simp), fun c hc => .inl (hds.2 c hc)⟩

/-- The characters of a duration are digits and the letters of its form. -/
lemma IsDuration.mem (h : IsDuration digit s) :
    ∀ c ∈ s, digit c = true ∨ c ∈ ['P', 'Y', 'M', 'W', 'D', 'T', 'H', '.', 'S'] := by
  have hletters {units : List Char} {c : Char}
      (hsub : units ⊆ ['P', 'Y', 'M', 'W', 'D', 'T', 'H', '.', 'S'])
      (hc : digit c = true ∨ c ∈ units) := hc.imp_right (@hsub c)
  obtain ⟨counts, time, hcounts, htime, -, rfl⟩ := h
  rw [List.forall_mem_cons, List.forall_mem_append]
  refine ⟨.inr (by simp), fun c hc => hletters (by decide) (hcounts.mem c hc), ?_⟩
  obtain rfl | ⟨counts', tail, hcounts', htail, -, rfl⟩ := htime
  · exact List.forall_mem_nil _
  · rw [List.forall_mem_cons, List.forall_mem_append]
    refine ⟨.inr (by simp), fun c hc => hletters (by decide) (hcounts'.mem c hc), ?_⟩
    obtain rfl | htail := htail
    · exact List.forall_mem_nil _
    · exact fun c hc => hletters (by decide) (htail.mem c hc)

/-- The durations of the standard are those that are read and have ASCII digits only. -/
lemma isDuration_iff : IsDuration Char.isDigit s ↔ IsDurationShape s ∧ AsciiDigits s := by
  constructor
  · intro h
    refine ⟨⟨h.imp fun c _ => isDecimalDigit_of_isDigit, ?_⟩, fun c hc hdecimal => ?_⟩
    · obtain ⟨c, more, hc, hshape⟩ := h.ends.1
      have hdecimal := isDecimalDigit_of_isDigit hc
      have hP : isDecimalDigit 'P' = false := by decide
      have hT : isDecimalDigit 'T' = false := by decide
      refine ⟨c, ?_, hc⟩
      obtain ⟨rfl, -⟩ | rfl := hshape <;> simp [hP, hT, hdecimal]
    · refine (h.mem c hc).resolve_right fun hletter => ?_
      have hfalse : isDecimalDigit c = false := by fin_cases hletter <;> decide
      simp [hfalse] at hdecimal
  · rintro ⟨⟨h, -⟩, hascii⟩
    exact h.imp hascii

/-- The zones of the standard are those that are read and whose numbers are in range.

**Proof sketch.** From left to right the two digits of a number below one hundred are listed
(`exists_two`), and every digit of them is an ASCII one. From right to left a pair of ASCII digits
is the text of the number it reads as. -/
lemma isOffset_iff : IsOffset s ↔ IsOffsetShape s ∧ InRange s := by
  constructor
  · rintro (rfl | ⟨sign, hsign, hour, minute, hhour, hminute, rfl⟩)
    · have hletter : isDecimalDigit 'Z' = false := by decide
      exact ⟨.inl rfl, by simp [AsciiDigits, hletter], by decide, by decide⟩
    · have hvalues : natOfDigits (two hour) ≤ 23 ∧ natOfDigits (two minute) ≤ 59 := by
        rw [natOfDigits_two (by omega), natOfDigits_two (by omega)]
        exact ⟨hhour, hminute⟩
      have hmarks : ∀ m ∈ ['+', '-', ':'], isDecimalDigit m = false := fun m hm => by
        fin_cases hm <;> decide
      have hascii : AsciiDigits (sign :: two hour ++ ':' :: two minute) := by
        rw [AsciiDigits, List.forall_mem_append, List.forall_mem_cons, List.forall_mem_cons,
          hmarks sign (List.mem_append_left [':'] hsign), hmarks ':' (by simp)]
        exact ⟨⟨by simp, fun c hc _ => isDigit_of_mem_two (by omega) c hc⟩, by simp,
          fun c hc _ => isDigit_of_mem_two (by omega) c hc⟩
      obtain ⟨a, b, hab, ha, hb⟩ := exists_two (show hour < 100 by omega)
      obtain ⟨c, d, hcd, hc, hd⟩ := exists_two (show minute < 100 by omega)
      rw [hab, hcd] at hvalues hascii ⊢
      exact ⟨.inr ⟨sign, hsign, a, b, c, d, ha, hb, hc, hd, rfl⟩, hascii, hvalues⟩
  · rintro ⟨rfl | ⟨sign, hsign, a, b, c, d, ha, hb, hc, hd, rfl⟩, hascii, hhour, hminute⟩
    · exact .inl rfl
    -- A decimal digit of another script would be written back as an ASCII one.
    · have hpair {a b : Char} (ha : a.isDigit = true) (hb : b.isDigit = true) :
          [a, b] = two (natOfDigits [a, b]) :=
        (eq_two_of_number? (by simp [Temporal.number?, ha, hb])).2
      have hab := hpair (hascii a (by simp) ha) (hascii b (by simp) hb)
      have hcd := hpair (hascii c (by simp) hc) (hascii d (by simp) hd)
      refine .inr ⟨sign, hsign, natOfDigits [a, b], natOfDigits [c, d], hhour, hminute, ?_⟩
      rw [← hab, ← hcd]
      rfl

end Digits

/-! ## Days of the calendar -/

/-- The calendar of the checks is the Gregorian calendar.

**Proof sketch.** Month by month the table of lengths and the function agree, with the two spellings
of a leap year; there is no day in a month that does not exist. -/
lemma dayExists_iff {year month day : Nat} :
    DayExists year month day ↔ 1 ≤ day ∧ day ≤ Temporal.daysInMonth year month := by
  have hleap : Temporal.isLeapYear year = true ↔ IsLeap year := by
    simp only [Temporal.isLeapYear, IsLeap, Bool.and_eq_true, Bool.or_eq_true, beq_iff_eq,
      bne_iff_ne, Nat.dvd_iff_mod_eq_zero]
    omega
  by_cases hmonth : month ∈ Finset.Icc 1 12
  · fin_cases hmonth <;> simp [DayExists, monthLengths, Temporal.daysInMonth]
    -- Only the length of February depends on the year.
    by_cases hyear : IsLeap year
    · rw [if_pos (hleap.mpr hyear)]
      simp only [hyear, and_true]
      omega
    · rw [if_neg (mt hleap.mp hyear)]
      simp [hyear]
  · rw [Finset.mem_Icc] at hmonth
    have hzero : Temporal.daysInMonth year month = 0 := by
      rw [Temporal.daysInMonth, if_neg (by omega), if_neg (by simp; omega), if_neg hmonth]
    have hnone : 1 ≤ month → monthLengths[month - 1]? = none := fun _ =>
      List.getElem?_eq_none (by simp [monthLengths]; omega)
    constructor
    · rintro ⟨hge, -, length, hlength, -⟩
      simp [hnone hge] at hlength
    · omega

end Iso

end Retarget
