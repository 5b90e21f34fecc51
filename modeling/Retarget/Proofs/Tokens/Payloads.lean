import Mathlib
import Retarget.Proofs.Tokens.Temporals

set_option autoImplicit false

/-!
# Temporal payloads read once more

Targets read the texts of temporal literals a second time, by patterns of their own: a datetime from
its end, where a zone may stand, and a duration for a count of days or weeks. On the texts that
tokens hold both find what was written. A date has hyphens with digits behind them as an offset has;
the `T` behind it keeps them apart from the end of the text.

## Main definitions

* `Retarget.Iso.IsLocal`, `Retarget.Iso.IsZoned` — datetimes without and with a zone.
* `Retarget.Iso.IsZoneSuffix` — the texts that are taken as a zone at the end of any text.
* `Retarget.Iso.IsNumber`, `Retarget.Iso.IsDayCount` — numbers in ASCII digits, counts of days.

## Main results

* `Retarget.Temporal.isZoned_iff` — reading backwards finds a zone exactly where a text ends in one.
* `Retarget.Temporal.inUtc_inUtc` — a text that has been given a zone keeps it.
* `Retarget.Temporal.wholeDays?_eq_some_iff` — which texts have a day count.
* `Retarget.temporalPayload_read` — what is read from the datetimes and durations among the tokens
  of a source.
-/

namespace Retarget

open Text (isDecimalDigit natOfDigits)

namespace Iso

/-! ## Datetimes without and with a zone -/

/-- A date and a time of day, and nothing behind them. -/
def IsLocal (text : List Char) : Prop :=
  ∃ day clock, IsDate day ∧ IsClock clock ∧ text = day ++ 'T' :: clock

/-- A date and a time of day with `Z` or an offset behind them. -/
def IsZoned (text : List Char) : Prop :=
  ∃ day clock zone, IsDate day ∧ IsClock clock ∧ IsOffsetShape zone ∧
    text = day ++ 'T' :: (clock ++ zone)

/-- The minutes of an offset, with or without a colon; they may be missing. -/
def IsMinutes (text : List Char) : Prop :=
  text = [] ∨ ∃ colon c d, (colon = [] ∨ colon = [':']) ∧ isDecimalDigit c = true ∧
    isDecimalDigit d = true ∧ text = colon ++ [c, d]

/-- The text `Z`, or `+hh`, `+hhmm` or `+hh:mm` with either sign, in the digits of any script. -/
def IsZoneSuffix (text : List Char) : Prop :=
  text = ['Z'] ∨ ∃ sign ∈ ['+', '-'], ∃ a b minutes, isDecimalDigit a = true ∧
    isDecimalDigit b = true ∧ IsMinutes minutes ∧ text = sign :: a :: b :: minutes

section Zones

variable {text : List Char}

/-- A datetime has no zone, or it has one. -/
lemma isDateTime_iff : IsDateTime IsOffsetShape text ↔ IsLocal text ∨ IsZoned text := by
  constructor
  · rintro ⟨day, clock, zone, hday, hclock, rfl | hzone, rfl⟩
    · exact .inl ⟨day, clock, hday, hclock, by rw [List.append_nil]⟩
    · exact .inr ⟨day, clock, zone, hday, hclock, hzone, rfl⟩
  · rintro (⟨day, clock, hday, hclock, rfl⟩ | ⟨day, clock, zone, hday, hclock, hzone, rfl⟩)
    · exact ⟨day, clock, [], hday, hclock, .inl rfl, by rw [List.append_nil]⟩
    · exact ⟨day, clock, zone, hday, hclock, .inr hzone, rfl⟩

/-- The zones of literals are among those that are looked for. -/
lemma IsOffsetShape.isZoneSuffix (h : IsOffsetShape text) : IsZoneSuffix text := by
  obtain rfl | ⟨sign, hsign, a, b, c, d, ha, hb, hc, hd, rfl⟩ := h
  · exact .inl rfl
  · have hminutes : IsMinutes [':', c, d] := .inr ⟨[':'], c, d, .inr rfl, hc, hd, rfl⟩
    exact .inr ⟨sign, hsign, a, b, [':', c, d], ha, hb, hminutes, rfl⟩

/-- A zone is a mark that no time of day has, and behind it characters of times of day. -/
lemma IsZoneSuffix.exists_mark (h : IsZoneSuffix text) :
    ∃ mark ∈ ['Z', '+', '-'], ∃ more, (∀ c ∈ more, Temporal.continuesClock c = true) ∧
      text = mark :: more := by
  have hdigit {c : Char} (hc : isDecimalDigit c = true) : Temporal.continuesClock c = true :=
    Temporal.continuesClock_of_isDecimalDigit hc
  have hcolon : Temporal.continuesClock ':' = true := by decide
  obtain rfl | ⟨sign, hsign, a, b, minutes, ha, hb, hminutes, rfl⟩ := h
  · exact ⟨'Z', by simp, [], List.forall_mem_nil _, rfl⟩
  · refine ⟨sign, List.mem_cons_of_mem _ hsign, _, ?_, rfl⟩
    obtain rfl | ⟨colon, c, d, rfl | rfl, hc, hd, rfl⟩ := hminutes
    · simp [hdigit ha, hdigit hb]
    · simp [hdigit ha, hdigit hb, hdigit hc, hdigit hd]
    · simp [hdigit ha, hdigit hb, hdigit hc, hdigit hd, hcolon]

/-- A datetime without a zone does not end in one. -/
lemma IsLocal.ne_append_zone (h : IsLocal text) {before zone : List Char}
    (hzone : IsZoneSuffix zone) : text ≠ before ++ zone := by
  rintro rfl
  obtain ⟨day, clock, -, hclock, htext⟩ := h
  obtain ⟨mark, hmark, more, hmore, rfl⟩ := hzone.exists_mark
  -- Read backwards, the first character that no time of day has is the mark, and it is the `T`.
  have hmarkFails : Temporal.continuesClock mark = false := by fin_cases hmark <;> decide
  have hTFails : Temporal.continuesClock 'T' = false := by decide
  have hfromMark := dropWhile_append_of_headFails
    (fun c hc => hmore c (List.mem_reverse.mp hc)) (headFails_cons (s := before.reverse) hmarkFails)
  have hfromT := dropWhile_append_of_headFails
    (fun c hc => hclock.continues c (List.mem_reverse.mp hc))
    (headFails_cons (s := day.reverse) hTFails)
  have hbackwards :
      more.reverse ++ mark :: before.reverse = clock.reverse ++ 'T' :: day.reverse := by
    simpa using congrArg List.reverse htext
  rw [hbackwards, hfromT] at hfromMark
  obtain rfl := (List.cons.inj hfromMark).1
  exact absurd hmark (by decide)

end Zones

/-! ## Numbers and counts of days -/

/-- A nonempty row of ASCII digits, and the number that it denotes to the base ten. -/
def IsNumber (digits : List Char) (n : Nat) : Prop :=
  ∃ values ≠ [], (∀ v ∈ values, v < 10) ∧ digits = values.map Nat.digitChar ∧
    n = Nat.ofDigits 10 values.reverse

/-- The text is a count of days, or of weeks of seven days, which is the number of days. -/
inductive IsDayCount : List Char → Nat → Prop
  | days {digits : List Char} {n : Nat} : IsNumber digits n →
      IsDayCount ('P' :: (digits ++ ['D'])) n
  | weeks {digits : List Char} {n : Nat} : IsNumber digits n →
      IsDayCount ('P' :: (digits ++ ['W'])) (7 * n)

section Numbers

variable {digits : List Char} {n : Nat}

/-- The characters of digits denote what the digits do to the base ten. -/
lemma natOfDigits_map_digitChar {values : List Nat} (h : ∀ v ∈ values, v < 10) :
    natOfDigits (values.map Nat.digitChar) = Nat.ofDigits 10 values.reverse := by
  induction values using List.reverseRecOn with
  | nil => rfl
  | append_singleton values v ih =>
    rw [List.forall_mem_append, List.forall_mem_singleton] at h
    have hlast : (Nat.digitChar v).toNat - '0'.toNat = v := by
      rw [toNat_digitChar h.2]
      exact Nat.add_sub_cancel_left 48 v
    have hstep : natOfDigits (values.map Nat.digitChar ++ [Nat.digitChar v]) =
        10 * natOfDigits (values.map Nat.digitChar) + v := by
      rw [natOfDigits, List.foldl_append, List.foldl_cons, List.foldl_nil, hlast]
      rfl
    rw [List.map_append, List.map_singleton, hstep, ih h.1, List.reverse_append,
      List.reverse_singleton, List.singleton_append, Nat.ofDigits_cons, Nat.add_comm]

/-- ASCII digits are the characters of numbers below ten. -/
lemma exists_digitChars (h : ∀ c ∈ digits, c.isDigit = true) :
    ∃ values : List Nat, (∀ v ∈ values, v < 10) ∧ digits = values.map Nat.digitChar := by
  induction digits with
  | nil => exact ⟨[], List.forall_mem_nil _, rfl⟩
  | cons c digits ih =>
    obtain ⟨hc, hdigits⟩ := List.forall_mem_cons.mp h
    obtain ⟨v, hv, rfl⟩ := exists_digitChar hc
    obtain ⟨values, hvalues, rfl⟩ := ih hdigits
    exact ⟨v :: values, List.forall_mem_cons.mpr ⟨hv, hvalues⟩, rfl⟩

/-- A number is written in ASCII digits. -/
lemma IsNumber.isDigit (h : IsNumber digits n) : ∀ c ∈ digits, c.isDigit = true := by
  obtain ⟨values, -, hvalues, rfl, -⟩ := h
  exact List.forall_mem_map.mpr fun v hv => isDigit_digitChar (hvalues v hv)

/-- Reading a number accepts nonempty rows of ASCII digits only, and all of them. -/
lemma number?_eq_some_iff : Temporal.number? digits = some n ↔ IsNumber digits n := by
  constructor
  · intro h
    unfold Temporal.number? at h
    split_ifs at h with hguard
    obtain ⟨hne, hdigits⟩ : digits ≠ [] ∧ ∀ c ∈ digits, c.isDigit = true := by simpa using hguard
    obtain ⟨values, hvalues, rfl⟩ := exists_digitChars hdigits
    rw [natOfDigits_map_digitChar hvalues, Option.some.injEq] at h
    exact ⟨values, by simpa using hne, hvalues, rfl, h.symm⟩
  · intro h
    have hall : digits.all Char.isDigit = true := List.all_eq_true.mpr h.isDigit
    obtain ⟨values, hne, hvalues, rfl, rfl⟩ := h
    simp [Temporal.number?, hne, hall, natOfDigits_map_digitChar hvalues]

/-- The digits of a number end where another character stands. -/
lemma IsNumber.split (h : IsNumber digits n) {unit : Char} (hunit : unit.isDigit = false) :
    (digits ++ [unit]).takeWhile Char.isDigit = digits ∧
      (digits ++ [unit]).dropWhile Char.isDigit = [unit] :=
  ⟨takeWhile_append_of_headFails h.isDigit (headFails_cons hunit),
    dropWhile_append_of_headFails h.isDigit (headFails_cons hunit)⟩

end Numbers

/-! ## Payloads -/

section Payloads

variable {IsZone IsSpan : List Char → Prop} {text iso : String}

/-- A datetime literal is `D` with the text of the datetime. -/
lemma IsTemporal.of_dateTime (h : IsTemporal IsZone IsSpan text.toList (.dateTime iso)) :
    text = "D" ++ iso ∧ IsDateTime IsZone iso.toList := by
  generalize htext : text.toList = chars at h
  cases h with
  | dateTime hiso =>
    exact ⟨String.toList_inj.mp (by simp [htext]), by rwa [String.toList_ofList]⟩

/-- A duration literal is the text of the duration. -/
lemma IsTemporal.of_duration (h : IsTemporal IsZone IsSpan text.toList (.duration iso)) :
    text = iso := by
  generalize htext : text.toList = chars at h
  cases h with
  | duration => rw [← htext, String.ofList_toList]

end Payloads

end Iso

namespace Temporal

open Iso (IsZoneSuffix IsMinutes IsDayCount IsNumber)

/-! ## Zones read backwards -/

section Backwards

variable {cs x r : List Char}

/-- Two digits are taken where the text starts with them. -/
lemma twoDigits_eq_some_iff : twoDigits cs = some (x, r) ↔
    ∃ u v, isDecimalDigit u = true ∧ isDecimalDigit v = true ∧ x = [u, v] ∧ cs = u :: v :: r := by
  constructor
  · intro h
    obtain ⟨u, rest, y, hu, rfl, rfl, hrest⟩ := Scan.seq_one_eq_some_iff.mp h
    obtain ⟨v, hv, rfl, rfl⟩ := Scan.one_eq_some_iff.mp hrest
    exact ⟨u, v, hu, hv, rfl, rfl⟩
  · rintro ⟨u, v, hu, hv, rfl, rfl⟩
    exact Scan.seq_one_eq_some_iff.mpr ⟨u, _, _, hu, rfl, rfl,
      Scan.one_eq_some_iff.mpr ⟨v, hv, rfl, rfl⟩⟩

/-- What is taken backwards as an offset is one. The two digits that come first are its minutes, or
its hours where the minutes are missing. -/
lemma offsetBackwards_sound (h : offsetBackwards cs = some (x, r)) :
    ∃ zone, IsZoneSuffix zone ∧ cs = zone.reverse ++ r := by
  obtain ⟨d, c, cs₁, x₁, hd, hc, rfl, rfl, h₁⟩ := seq_twoDigits_eq_some_iff.mp h
  obtain ⟨x₂, cs₂, x₃, hoption, h₂, rfl⟩ := Scan.seq_eq_some h₁
  obtain ⟨sign, cs₃, x₄, hsign, rfl, rfl, hdone⟩ := Scan.seq_one_eq_some_iff.mp h₂
  cases hdone
  have hsign : sign ∈ ['+', '-'] := by simpa [isSign] using hsign
  obtain hhours | ⟨-, rfl, rfl⟩ := Scan.optional_eq_some hoption
  · obtain ⟨colon, cs₄, x₅, hcolon, htwo, rfl⟩ := Scan.seq_eq_some hhours
    obtain ⟨b, a, hb, ha, rfl, rfl⟩ := twoDigits_eq_some_iff.mp htwo
    have hzone (colon : List Char) (hcolon : colon = [] ∨ colon = [':']) :
        IsZoneSuffix (sign :: a :: b :: (colon ++ [c, d])) :=
      .inr ⟨sign, hsign, a, b, _, ha, hb, .inr ⟨colon, c, d, hcolon, hc, hd, rfl⟩, rfl⟩
    obtain hcolon | ⟨-, rfl, rfl⟩ := Scan.optional_eq_some hcolon
    · obtain ⟨m, hm, rfl, rfl⟩ := Scan.one_eq_some_iff.mp hcolon
      obtain rfl : m = ':' := by simpa using hm
      exact ⟨_, hzone [':'] (.inr rfl), by simp⟩
    · exact ⟨_, hzone [] (.inl rfl), by simp⟩
  · exact ⟨_, .inr ⟨sign, hsign, c, d, [], hc, hd, .inl rfl, rfl⟩, by simp⟩

/-- An offset is taken backwards.

**Proof sketch.** Reversed, the minutes come first: two digits and a colon or none. Without minutes
the attempt to read them fails at the sign, and the hours are taken at once. -/
lemma offsetBackwards_append {sign a b : Char} {minutes : List Char} (hsign : sign ∈ ['+', '-'])
    (ha : isDecimalDigit a = true) (hb : isDecimalDigit b = true) (hminutes : IsMinutes minutes) :
    ∃ x, offsetBackwards ((sign :: a :: b :: minutes).reverse ++ r) = some (x, r) := by
  have hsign : sign = '+' ∨ sign = '-' := by simpa using hsign
  have hmark : isSign sign = true := by simpa [isSign] using hsign
  have hend : Scan.all [Scan.one isSign] (sign :: r) = some ([sign], r) :=
    Scan.seq_one_eq_some_iff.mpr ⟨sign, r, [], hmark, rfl, rfl, rfl⟩
  obtain rfl | ⟨colon, c, d, hcolon, hc, hd, rfl⟩ := hminutes
  · have hnone : Scan.seq (Scan.optional (Scan.char ':')) twoDigits (sign :: r) = none := by
      obtain rfl | rfl := hsign <;> rfl
    exact ⟨_, seq_twoDigits_eq_some_iff.mpr ⟨b, a, _, _, hb, ha, rfl, rfl,
      Scan.seq_append (Scan.optional_of_none hnone) hend⟩⟩
  · have hcolon : Scan.optional (Scan.char ':') (colon.reverse ++ b :: a :: sign :: r) =
        some (colon.reverse, b :: a :: sign :: r) := by
      obtain rfl | rfl := hcolon
      · have hne : b ≠ ':' := by
          rintro rfl
          exact absurd hb (by decide)
        exact Scan.optional_of_none (by simp [Scan.char, Scan.one, hne])
      · rfl
    have hhours := Scan.seq_append hcolon (twoDigits_eq_some_iff.mpr ⟨b, a, hb, ha, rfl, rfl⟩)
    have htaken := seq_twoDigits_eq_some_iff.mpr ⟨d, c, _, _, hd, hc, rfl, rfl,
      Scan.seq_append (Scan.optional_of_some hhours) hend⟩
    exact ⟨_, by simpa [offsetBackwards, Scan.all] using htaken⟩

end Backwards

section Zoned

variable {iso : String}

/-- Reading backwards finds a zone exactly where the text ends in one. -/
lemma isZoned_iff :
    isZoned iso = true ↔ ∃ before zone, IsZoneSuffix zone ∧ iso.toList = before ++ zone := by
  constructor
  · intro h
    obtain h | h := (Bool.or_eq_true _ _).mp h
    · obtain ⟨before, hbefore⟩ := List.head?_eq_some_iff.mp (beq_iff_eq.mp h)
      exact ⟨before.reverse, ['Z'], .inl rfl, by simpa using congrArg List.reverse hbefore⟩
    · obtain ⟨⟨x, r⟩, hfound⟩ := Option.isSome_iff_exists.mp h
      obtain ⟨zone, hzone, hbackwards⟩ := offsetBackwards_sound hfound
      exact ⟨r.reverse, zone, hzone, by simpa using congrArg List.reverse hbackwards⟩
  · rintro ⟨before, zone, hzone, htext⟩
    refine (Bool.or_eq_true _ _).mpr ?_
    rw [htext, List.reverse_append]
    obtain rfl | ⟨sign, hsign, a, b, minutes, ha, hb, hminutes, rfl⟩ := hzone
    · exact .inl rfl
    · obtain ⟨x, hfound⟩ := offsetBackwards_append (r := before.reverse) hsign ha hb hminutes
      exact .inr (Option.isSome_iff_exists.mpr ⟨_, hfound⟩)

/-- A date alone ends in what could be an offset of fifteen hours. -/
example : isZoned "2024-01-15" = true ∧ isZoned "2024-01-15T10:30" = false := by decide +kernel

/-- What is written for a text has a zone. -/
lemma isZoned_inUtc (iso : String) : isZoned (inUtc iso) = true := by
  unfold inUtc
  split_ifs with h
  · exact h
  · exact isZoned_iff.mpr ⟨iso.toList, ['Z'], .inl rfl, String.toList_append⟩

/-- A text that has been given a zone keeps it. -/
lemma inUtc_inUtc (iso : String) : inUtc (inUtc iso) = inUtc iso := by
  rw [inUtc, if_pos (isZoned_inUtc iso)]

/-- A text with `Z` behind it is another text. -/
lemma append_zone_ne (iso : String) : iso ++ "Z" ≠ iso := by
  intro h
  have hlength := congrArg String.length h
  rw [String.length_append] at hlength
  exact absurd hlength (by simp)

/-- A datetime without a zone is taken to be in UTC. -/
lemma inUtc_of_isLocal (h : Iso.IsLocal iso.toList) : inUtc iso = iso ++ "Z" := by
  refine if_neg fun hzoned => ?_
  obtain ⟨before, zone, hzone, htext⟩ := isZoned_iff.mp hzoned
  exact h.ne_append_zone hzone htext

/-- A datetime with a zone stays as it is. -/
lemma inUtc_of_isZoned (h : Iso.IsZoned iso.toList) : inUtc iso = iso := by
  obtain ⟨day, clock, zone, -, -, hzone, htext⟩ := h
  exact if_pos (isZoned_iff.mpr ⟨day ++ 'T' :: clock, zone, hzone.isZoneSuffix, by simp [htext]⟩)

/-- A datetime as written gets the zone that it lacks, and keeps the one that it has. -/
lemma inUtc_dateTime (h : Iso.IsDateTime Iso.IsOffsetShape iso.toList) :
    (inUtc iso = iso ++ "Z" ↔ Iso.IsLocal iso.toList) ∧
      (inUtc iso = iso ↔ Iso.IsZoned iso.toList) := by
  have hwritten := Iso.isDateTime_iff.mp h
  refine ⟨⟨fun happended => ?_, inUtc_of_isLocal⟩, fun hkept => ?_, inUtc_of_isZoned⟩
  · refine hwritten.resolve_right fun hzoned => append_zone_ne iso ?_
    rw [← happended, inUtc_of_isZoned hzoned]
  · refine hwritten.resolve_left fun hlocal => append_zone_ne iso ?_
    rw [← inUtc_of_isLocal hlocal, hkept]

end Zoned

/-! ## Counts of days -/

/-- A number is given where it does not exceed the greatest integer. -/
lemma bounded?_eq_some_iff {n d : Nat} : bounded? n = some d ↔ n = d ∧ d ≤ greatestInt := by
  unfold bounded?
  split_ifs with h
  · rw [Option.some.injEq]
    exact ⟨fun heq => ⟨heq, heq ▸ h⟩, And.left⟩
  · exact iff_of_false nofun fun hboth => h (hboth.1 ▸ hboth.2)

/-- A count of days or weeks is read as the number of days, where that is an integer. -/
lemma wholeDays?_of_isDayCount {iso : String} {n : Nat} (h : IsDayCount iso.toList n) :
    wholeDays? iso = bounded? n := by
  generalize htext : iso.toList = text at h
  cases h with
  | days hnumber =>
    obtain ⟨htake, hdrop⟩ := hnumber.split (show 'D'.isDigit = false by decide)
    simp only [wholeDays?, htext, htake, hdrop, Iso.number?_eq_some_iff.mpr hnumber]
  | weeks hnumber =>
    obtain ⟨htake, hdrop⟩ := hnumber.split (show 'W'.isDigit = false by decide)
    simp only [wholeDays?, htext, htake, hdrop, Iso.number?_eq_some_iff.mpr hnumber]

/-- Only counts of days and weeks have a day count. -/
lemma exists_isDayCount {iso : String} {d : Nat} (h : wholeDays? iso = some d) :
    ∃ n, IsDayCount iso.toList n ∧ bounded? n = some d := by
  unfold wholeDays? at h
  split at h
  · rename_i cs htext
    have hsplit := List.takeWhile_append_dropWhile (p := Char.isDigit) (l := cs)
    split at h
    · rename_i n hnumber hunit
      rw [htext, ← hsplit, hunit]
      exact ⟨n, .days (Iso.number?_eq_some_iff.mp hnumber), h⟩
    · rename_i n hnumber hunit
      rw [htext, ← hsplit, hunit]
      exact ⟨7 * n, .weeks (Iso.number?_eq_some_iff.mp hnumber), h⟩
    · cases h
  · cases h

/-- The texts with a day count are the counts of days and weeks that make up an integer. -/
lemma wholeDays?_eq_some_iff {iso : String} {d : Nat} :
    wholeDays? iso = some d ↔ IsDayCount iso.toList d ∧ d ≤ greatestInt := by
  constructor
  · intro h
    obtain ⟨n, hcount, hbound⟩ := exists_isDayCount h
    obtain ⟨rfl, hle⟩ := bounded?_eq_some_iff.mp hbound
    exact ⟨hcount, hle⟩
  · rintro ⟨hcount, hle⟩
    rw [wholeDays?_of_isDayCount hcount]
    exact bounded?_eq_some_iff.mpr ⟨rfl, hle⟩

/-- The texts without a day count are no such counts, or make up more days than the greatest integer. -/
lemma wholeDays?_eq_none_iff {iso : String} :
    wholeDays? iso = none ↔ ∀ d, IsDayCount iso.toList d → greatestInt < d := by
  rw [Option.eq_none_iff_forall_ne_some]
  refine forall_congr' fun d => ?_
  rw [ne_eq, wholeDays?_eq_some_iff, not_and, not_le]

end Temporal

/-! ## What is read from tokens -/

open Iso Temporal in
/-- Temporal payloads are read as they were written. For each datetime among the tokens of a source,
`Z` is appended exactly where neither `Z` nor an offset was written, and nothing changes where one
was; doing so twice is doing so once. A duration among them has a day count exactly where it is a
count of days, or of weeks, in ASCII digits that makes up at most `2 ^ 63 - 1` days.

**Proof sketch.** A token is written as the standard says of its literal (`isTemporal_of_lexeme`),
so its text is a date and a time of day with or without a zone, or a row of counts. What `inUtc`
makes of the first is `inUtc_dateTime`, and what `literalDays?` makes of the second is
`wholeDays?_eq_some_iff`. -/
theorem temporalPayload_read {source : String} {ts : List Token} (hts : tokenize source = .ok ts)
    {t : Token} (ht : t ∈ ts) :
    (∀ iso, t.kind = .literal (.dateTime iso) → t.text = "D" ++ iso ∧
      (inUtc iso = iso ++ "Z" ↔ IsLocal iso.toList) ∧ (inUtc iso = iso ↔ IsZoned iso.toList) ∧
      inUtc (inUtc iso) = inUtc iso) ∧
    ∀ iso, t.kind = .literal (.duration iso) → t.text = iso ∧
      (∀ d, literalDays? (.duration iso) = some d ↔ IsDayCount iso.toList d ∧ d ≤ 2 ^ 63 - 1) ∧
      (literalDays? (.duration iso) = none ↔ ∀ d, IsDayCount iso.toList d → 2 ^ 63 - 1 < d) := by
  have hwritten {value : Literal} (hvalue : value.isTemporal = true)
      (hkind : t.kind = .literal value) :
      IsTemporal IsOffsetShape IsDurationShape t.text.toList value :=
    isTemporal_of_lexeme hvalue (lexeme_of_tokenize hts ht hkind)
  constructor
  · intro iso hkind
    obtain ⟨htext, hiso⟩ := (hwritten rfl hkind).of_dateTime
    obtain ⟨hlocal, hzoned⟩ := inUtc_dateTime hiso
    exact ⟨htext, hlocal, hzoned, inUtc_inUtc iso⟩
  · intro iso hkind
    have hgreatest : greatestInt = 2 ^ 63 - 1 := by decide
    rw [← hgreatest]
    exact ⟨(hwritten rfl hkind).of_duration, fun d => wholeDays?_eq_some_iff,
      wholeDays?_eq_none_iff⟩

open Iso Temporal in
/-- A datetime without an offset and one with, the greatest number of weeks that makes up an
integer, and one week more. -/
theorem temporalPayload_read_greatestWeeks :
    tokenize "D2024-01-15T10:30 D2024-01-15T10:30-05:00 P1317624576693539401W P1317624576693539402W" =
      .ok [⟨.literal (.dateTime "2024-01-15T10:30"), "D2024-01-15T10:30", 0⟩,
        ⟨.literal (.dateTime "2024-01-15T10:30-05:00"), "D2024-01-15T10:30-05:00", 18⟩,
        ⟨.literal (.duration "P1317624576693539401W"), "P1317624576693539401W", 42⟩,
        ⟨.literal (.duration "P1317624576693539402W"), "P1317624576693539402W", 64⟩,
        Token.atEnd 85] ∧
    (inUtc "2024-01-15T10:30" = "2024-01-15T10:30" ++ "Z" ∧ IsLocal "2024-01-15T10:30".toList) ∧
    (inUtc "2024-01-15T10:30-05:00" = "2024-01-15T10:30-05:00" ∧
      IsZoned "2024-01-15T10:30-05:00".toList) ∧
    (literalDays? (.duration "P1317624576693539401W") = some (2 ^ 63 - 1) ∧
      IsDayCount "P1317624576693539401W".toList (2 ^ 63 - 1)) ∧
    literalDays? (.duration "P1317624576693539402W") = none ∧
      ∀ d, IsDayCount "P1317624576693539402W".toList d → 2 ^ 63 - 1 < d := by
  have hts : tokenize
      "D2024-01-15T10:30 D2024-01-15T10:30-05:00 P1317624576693539401W P1317624576693539402W" =
      .ok [⟨.literal (.dateTime "2024-01-15T10:30"), "D2024-01-15T10:30", 0⟩,
        ⟨.literal (.dateTime "2024-01-15T10:30-05:00"), "D2024-01-15T10:30-05:00", 18⟩,
        ⟨.literal (.duration "P1317624576693539401W"), "P1317624576693539401W", 42⟩,
        ⟨.literal (.duration "P1317624576693539402W"), "P1317624576693539402W", 64⟩,
        Token.atEnd 85] := by cbv
  have hlocal : inUtc "2024-01-15T10:30" = "2024-01-15T10:30" ++ "Z" := by decide +kernel
  have hzoned : inUtc "2024-01-15T10:30-05:00" = "2024-01-15T10:30-05:00" := by
    decide +kernel
  have hgreatest : literalDays? (.duration "P1317624576693539401W") = some (2 ^ 63 - 1) := by
    decide +kernel
  have hmore : literalDays? (.duration "P1317624576693539402W") = none := by decide +kernel
  obtain ⟨-, hlocalIff, -⟩ := (temporalPayload_read hts (.head _)).1 _ rfl
  obtain ⟨-, -, hzonedIff, -⟩ := (temporalPayload_read hts (.tail _ (.head _))).1 _ rfl
  obtain ⟨-, hsome, -⟩ := (temporalPayload_read hts (.tail _ (.tail _ (.head _)))).2 _ rfl
  obtain ⟨-, -, hnone⟩ := (temporalPayload_read hts (.tail _ (.tail _ (.tail _ (.head _))))).2 _ rfl
  exact ⟨hts, ⟨hlocal, hlocalIff.mp hlocal⟩, ⟨hzoned, hzonedIff.mp hzoned⟩,
    ⟨hgreatest, ((hsome _).mp hgreatest).1⟩, hmore, hnone.mp hmore⟩

end Retarget
