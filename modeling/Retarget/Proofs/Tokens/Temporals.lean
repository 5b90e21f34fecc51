import Mathlib
import Retarget.Proofs.Tokens.Patterns
import Retarget.Proofs.Tokens.Strings

set_option autoImplicit false

/-!
# Dates, datetimes and durations as tokens

Temporal tokens are the texts of the standard, and a few more: an offset from UTC is not checked, and
the counts of a duration may be in the digits of any script behind the first digit.

## Main definitions

* `Retarget.Literal.Checked` — what reading leaves unchecked.

## Main results

* `Retarget.Lexer.of_temporal`, `Retarget.Lexer.of_duration` — what is read behind `D` and from `P`
  on.
* `Retarget.Iso.isTemporal_iff` — which of the texts that are read the standard has.
* `Retarget.temporalLiteral_tokens` — which texts are temporal tokens, and which of those the
  standard has.
-/

namespace Retarget

open Text (isDecimalDigit natOfDigits)

namespace Lexer

open Temporal

/-! ## Dates and datetimes as tokens -/

/-- A zone, or nothing, ends a time of day. -/
lemma headFails_zone {zone : List Char} (h : zone = [] ∨ Iso.IsOffsetShape zone) :
    HeadFails continuesClock zone := by
  obtain rfl | rfl | ⟨sign, hsign, a, b, c, d, -, -, -, -, rfl⟩ := h
  · rintro c ⟨⟩
  · exact headFails_cons (by decide)
  · have hsign : sign = '+' ∨ sign = '-' := by simpa using hsign
    obtain rfl | rfl := hsign <;> exact headFails_cons (by decide)

/-- What is taken behind a date: a time of day, and a zone that does not reach into it. -/
lemma timePart_sound {cs x r : List Char} (h : timePart cs = some (x, r)) :
    ∃ clock zone, IsClockShape clock ∧ (zone = [] ∨ Iso.IsOffsetShape zone) ∧
      x = 'T' :: (clock ++ zone) ∧ cs = x ++ r := by
  obtain ⟨cs₁, x₁, rfl, rfl, h₁⟩ := Scan.seq_char_eq_some_iff.mp h
  obtain ⟨clock, cs₂, x₂, hclock, h₂, rfl⟩ := Scan.seq_eq_some h₁
  obtain ⟨zone, cs₃, x₃, hzone, hdone, rfl⟩ := Scan.seq_eq_some h₂
  cases hdone
  obtain ⟨hshape, rfl⟩ := clock_sound hclock
  rw [List.append_nil]
  obtain hzone | ⟨-, rfl, rfl⟩ := Scan.optional_eq_some hzone
  · obtain ⟨hoffset, rfl⟩ := zone_sound hzone
    exact ⟨clock, zone, hshape, .inr hoffset, rfl, by simp⟩
  · exact ⟨clock, [], hshape, .inl rfl, rfl, by simp⟩

/-- The time of a datetime is taken with its zone. -/
lemma timePart_append {clock zone : List Char} (hclock : IsClockShape clock)
    (hzone : zone = [] ∨ Iso.IsOffsetShape zone) :
    timePart ('T' :: (clock ++ zone)) = some ('T' :: (clock ++ zone), []) := by
  have hoption : Scan.optional Temporal.zone zone = some (zone, []) := by
    obtain rfl | hzone := hzone
    · rfl
    · have htaken := zone_append hzone []
      rw [List.append_nil] at htaken
      exact Scan.optional_of_some htaken
  have hdone := Scan.seq_append hoption (b := Scan.all []) rfl
  rw [List.append_nil] at hdone
  exact seq_char 'T' (Scan.seq_append (clock_append hclock (headFails_zone hzone)) hdone)

/-- A date is read as a date. -/
lemma temporal_date {day : List Char} (h : Iso.IsDate day) :
    temporal day = .ok (.literal (.date (String.ofList day)), day.length + 1) := by
  obtain ⟨htaken, hcheck⟩ := date_append h []
  rw [List.append_nil] at htaken
  have htime : timePart [] = none := rfl
  simp [temporal, htaken, htime, hcheck, runsOn]

/-- A date, a time of day and a zone of the right shape are read as a datetime. -/
lemma temporal_dateTime {text : List Char} (h : Iso.IsDateTime Iso.IsOffsetShape text) :
    temporal text = .ok (.literal (.dateTime (String.ofList text)), text.length + 1) := by
  obtain ⟨day, clock, zone, hday, hclock, hzone, rfl⟩ := h
  obtain ⟨hshape, htime⟩ := isClock_iff.mp hclock
  obtain ⟨htaken, hcheck⟩ := date_append hday ('T' :: (clock ++ zone))
  have hagain := clock_append hshape (headFails_zone hzone)
  simp [temporal, htaken, timePart_append hshape hzone, hcheck, hagain, htime, runsOn]

/-- What is read behind `D`, up to the end of the text, is a date or a datetime.

**Proof sketch.** Without a time of day the text is what the date takes, and the check on it is the
calendar. With one it is the date, the letter `T`, the clock and the zone, and the checks on the
date and on the clock say the rest. That the text ends there is the count that `h` gives. -/
lemma of_temporal {cs : List Char} {value : Literal}
    (h : temporal cs = .ok (.literal value, cs.length + 1)) :
    value = .date (String.ofList cs) ∧ Iso.IsDate cs ∨
      value = .dateTime (String.ofList cs) ∧ Iso.IsDateTime Iso.IsOffsetShape cs := by
  unfold temporal at h
  split at h
  · cases h
  · rename_i day rest hdate
    cases htime : timePart rest with
    | none =>
      simp only [htime, Option.getD_none, List.isEmpty_nil, if_true] at h
      split_ifs at h with hruns hcheck
      · cases h
      · simp only [Except.ok.injEq, Prod.mk.injEq, Token.Kind.literal.injEq] at h
        obtain ⟨rfl, hlength⟩ := h
        obtain ⟨hday, rfl⟩ := isDate_of_date hdate (by simpa using hcheck)
        obtain rfl : rest = [] := by simpa using hlength
        rw [List.append_nil]
        exact .inl ⟨rfl, hday⟩
    | some found =>
      obtain ⟨time, after⟩ := found
      obtain ⟨clock, zone, hshape, hzone, rfl, rfl⟩ := timePart_sound htime
      simp only [htime, Option.getD_some, List.drop_succ_cons, List.drop_zero, List.isEmpty_cons,
        Bool.false_eq_true, if_false, clock_append hshape (headFails_zone hzone), Option.map_some]
        at h
      split_ifs at h with hruns hcheck hclock
      · cases h
      · cases h
      · simp only [Except.ok.injEq, Prod.mk.injEq, Token.Kind.literal.injEq] at h
        obtain ⟨rfl, hlength⟩ := h
        obtain ⟨hday, rfl⟩ := isDate_of_date hdate (by simpa using hcheck)
        obtain rfl : after = [] := by simpa using hlength
        rw [List.append_nil]
        exact .inr ⟨rfl, day, clock, zone, hday, isClock_iff.mpr ⟨hshape, by simpa using hclock⟩,
          hzone, rfl⟩

/-! ## Durations as tokens -/

/-- A text has no more characters than bytes. -/
lemma length_le_byteLength (cs : List Char) : cs.length ≤ byteLength cs := by
  induction cs with
  | nil => exact Nat.le_refl 0
  | cons c cs ih =>
    have hsize := c.utf8Size_pos
    rw [List.length_cons, byteLength]
    omega

/-- A duration starts like one where its first digit is an ASCII digit. -/
lemma startsDuration_iff {cs : List Char} (h : Iso.IsDuration isDecimalDigit ('P' :: cs)) :
    startsDuration cs = true ↔
      ∃ c, ('P' :: cs).find? isDecimalDigit = some c ∧ c.isDigit = true := by
  have hP : isDecimalDigit 'P' = false := by decide
  have hT : isDecimalDigit 'T' = false := by decide
  have hmark : 'T'.isDigit = false := by decide
  obtain ⟨c, more, hc, ⟨htext, -⟩ | htext⟩ := h.ends.1
  · obtain rfl := (List.cons.inj htext).2
    have hne : c ≠ 'T' := by
      rintro rfl
      simp [hT] at hc
    simp [startsDuration, hP, hc, hne]
  · obtain rfl := (List.cons.inj htext).2
    simp [startsDuration, hP, hT, hc, hmark]

/-- A duration is read as a duration. -/
lemma duration_whole {text : List Char} (h : Iso.IsDuration isDecimalDigit text) :
    duration text = .ok (.literal (.duration (String.ofList text)), text.length) := by
  obtain ⟨⟨c, more, -, hshape⟩, hlast⟩ := h.ends
  have hlength : 3 ≤ text.length := by
    obtain ⟨rfl, hmore⟩ | rfl := hshape
    · have := List.length_pos_iff.mpr hmore
      simp
      omega
    · simp
  have hbytes : ¬byteLength text < 3 := by
    have := length_le_byteLength text
    omega
  simp [duration, Temporal.duration_whole h, hbytes, hlast, runsOn, literal]

/-- What is read from `P` on, up to the end of the text, is a duration.

**Proof sketch.** What the pattern takes is a `P`, counts of dates and, behind a `T`, counts of
times (`Temporal.duration_sound`). The check on the last character rules out a `T` with nothing
behind it, and the one on the length a `P` alone. -/
lemma of_duration {text : List Char} {value : Literal}
    (h : duration text = .ok (.literal value, text.length)) :
    value = .duration (String.ofList text) ∧ Iso.IsDuration isDecimalDigit text := by
  unfold duration at h
  split at h
  · cases h
  · rename_i taken rest htaken
    split_ifs at h with hcheck
    · cases h
    · simp only [literal, Except.ok.injEq, Prod.mk.injEq, Token.Kind.literal.injEq] at h
      obtain ⟨rfl, hlength⟩ := h
      simp only [Bool.or_eq_true, not_or, decide_eq_true_eq, beq_iff_eq] at hcheck
      obtain ⟨⟨⟨hbytes, hlast⟩, -⟩, -⟩ := hcheck
      obtain ⟨counts, time, hcounts, htime, rfl, rfl⟩ := Temporal.duration_sound htaken
      obtain rfl : rest = [] := by simpa using hlength
      rw [List.append_nil]
      refine ⟨rfl, counts, time, hcounts, htime.imp_right ?_, ?_, rfl⟩
      · rintro ⟨counts', tail, hcounts', htail, rfl⟩
        refine ⟨counts', tail, hcounts', htail, fun hnil => hlast ?_, rfl⟩
        simp [hnil, List.getLast?_cons]
      · intro hnil
        rw [hnil] at hbytes
        exact hbytes (by decide)

end Lexer

/-! ## Temporal tokens -/

/-- The literal is a date, a datetime or a duration. -/
def Literal.isTemporal : Literal → Bool
  | .date _ | .dateTime _ | .duration _ => true
  | _ => false

namespace Iso

/-- A date starts with a digit. -/
lemma IsDate.head {day : List Char} (h : IsDate day) (r : List Char) :
    (day ++ r).head?.any Char.isDigit = true := by
  obtain ⟨year, month, day, hyear, -, rfl⟩ := h
  exact isDigit_of_mem_two (show year / 100 < 100 by omega) _ List.mem_cons_self

/-- What is written for a temporal literal is one token.

**Proof sketch.** The guards of `lexeme` are decided by the first characters, a letter `D` with a
digit or a letter `P` with what starts a duration; the reader of the kind takes the rest. -/
lemma IsTemporal.lexeme {text : List Char} {value : Literal}
    (h : IsTemporal IsOffsetShape IsDurationShape text value) :
    ∃ c cs, text = c :: cs ∧ Lexer.lexeme c cs = .ok (.literal value, (c :: cs).length) := by
  have hdate {iso : List Char} (h : iso.head?.any Char.isDigit = true) :
      Lexer.lexeme 'D' iso = Lexer.temporal iso := by
    rw [Lexer.lexeme, if_neg (by decide), if_neg (by decide), if_pos ⟨rfl, h⟩]
  cases h with
  | @date iso hiso =>
    have hhead := hiso.head []
    rw [List.append_nil] at hhead
    exact ⟨'D', iso, rfl, by rw [hdate hhead, Lexer.temporal_date hiso, List.length_cons]⟩
  | @dateTime iso hiso =>
    have hhead : iso.head?.any Char.isDigit = true := by
      obtain ⟨day, clock, zone, hday, -, -, rfl⟩ := hiso
      exact hday.head _
    exact ⟨'D', iso, rfl, by rw [hdate hhead, Lexer.temporal_dateTime hiso, List.length_cons]⟩
  | duration hiso =>
    obtain ⟨hspan, hfirst⟩ := hiso
    obtain ⟨counts, time, -, -, -, rfl⟩ := id hspan
    refine ⟨'P', counts ++ time, rfl, ?_⟩
    rw [Lexer.lexeme, if_neg (by decide), if_neg (by decide), if_neg (by simp),
      if_pos ⟨rfl, (Lexer.startsDuration_iff hspan).mpr hfirst⟩, Lexer.duration_whole hspan]

/-- A temporal token is written for its literal.

**Proof sketch.** The literal is read by its own reader (`isRead_of_lexeme`), up to the end of the
text, and what that reader accepts is `of_temporal` or `of_duration`. -/
lemma isTemporal_of_lexeme {text : String} {value : Literal} (hvalue : value.isTemporal = true)
    (h : (Token.Kind.literal value).Lexeme text) :
    IsTemporal IsOffsetShape IsDurationShape text.toList value := by
  obtain ⟨c, cs, htext, hlexeme⟩ := h
  have hread := Lexer.isRead_of_lexeme hlexeme
  rw [htext]
  have hdate (hD : c = 'D') (htemporal : Lexer.temporal cs = .ok (.literal value, cs.length + 1)) :
      IsTemporal IsOffsetShape IsDurationShape (c :: cs) value := by
    rw [hD]
    obtain ⟨heq, hiso⟩ | ⟨heq, hiso⟩ := Lexer.of_temporal htemporal
    · rw [heq]
      exact .date hiso
    · rw [heq]
      exact .dateTime hiso
  cases value with
  | date iso => exact hdate hread.1 hread.2
  | dateTime iso => exact hdate hread.1 hread.2
  | duration iso =>
    obtain ⟨rfl, hstarts, hread⟩ := hread
    obtain ⟨hvalue, hspan⟩ := Lexer.of_duration hread
    rw [hvalue]
    exact .duration ⟨hspan, (Lexer.startsDuration_iff hspan).mp hstarts⟩
  | _ => cases hvalue

/-- The zone of a datetime, which stands behind its time of day. -/
def zoneOf (text : List Char) : List Char := (text.drop 11).dropWhile Temporal.continuesClock

/-- A date has ten characters. -/
lemma IsDate.length {day : List Char} (h : IsDate day) : day.length = 10 := by
  obtain ⟨year, month, day, -, -, rfl⟩ := h
  rfl

/-- A time of day goes on to its end. -/
lemma IsClock.continues {clock : List Char} (h : IsClock clock) :
    ∀ c ∈ clock, Temporal.continuesClock c = true := by
  have hdigit {c : Char} (hc : isDecimalDigit c = true) : Temporal.continuesClock c = true :=
    Temporal.continuesClock_of_isDecimalDigit hc
  have hcolon : Temporal.continuesClock ':' = true := by decide
  have hpoint : Temporal.continuesClock '.' = true := by decide
  obtain ⟨a, b, c, d, tail, ha, hb, hc, hd, rfl, htail⟩ := (Temporal.isClock_iff.mp h).1
  have htail : ∀ c ∈ tail, Temporal.continuesClock c = true := by
    obtain rfl | ⟨e, f, fraction, he, hf, rfl | ⟨ds, hds, rfl⟩, rfl⟩ := htail
    · exact List.forall_mem_nil _
    · simp [hcolon, hdigit he, hdigit hf]
    · simpa [hcolon, hpoint, hdigit he, hdigit hf] using fun c hc => hdigit (hds.2 c hc)
  simpa [hcolon, hdigit ha, hdigit hb, hdigit hc, hdigit hd] using htail

/-- The zone of a datetime is found. -/
lemma zoneOf_dateTime {day clock zone : List Char} (hday : IsDate day) (hclock : IsClock clock)
    (hzone : zone = [] ∨ IsOffsetShape zone) : zoneOf (day ++ 'T' :: (clock ++ zone)) = zone := by
  have hdrop : (day ++ 'T' :: (clock ++ zone)).drop 11 = clock ++ zone := by
    rw [List.drop_append, hday.length, List.drop_of_length_le (by rw [hday.length]; decide)]
    rfl
  rw [zoneOf, hdrop, dropWhile_append_of_headFails hclock.continues (Lexer.headFails_zone hzone)]

end Iso

/-- The zone of a datetime is in range, and the digits of a duration are ASCII digits. Reading looks at
neither. -/
def Literal.Checked : Literal → Prop
  | .dateTime iso => Iso.InRange (Iso.zoneOf iso.toList)
  | .duration iso => Iso.AsciiDigits iso.toList
  | _ => True

namespace Iso

/-- The texts of the standard are those that are read and pass the checks that are not made.

**Proof sketch.** By cases on the literal, part by part: a date is the same on both sides, the zone
of a datetime is compared by `isOffset_iff`, and a duration by `isDuration_iff`. -/
lemma isTemporal_iff {text : List Char} {value : Literal} :
    IsTemporal IsOffset (IsDuration Char.isDigit) text value ↔
      IsTemporal IsOffsetShape IsDurationShape text value ∧ value.Checked := by
  constructor
  · rintro (⟨hiso⟩ | ⟨day, clock, zone, hday, hclock, hzone, rfl⟩ | ⟨hiso⟩)
    · exact ⟨.date hiso, trivial⟩
    · have hshape : zone = [] ∨ IsOffsetShape zone := hzone.imp_right fun h => (isOffset_iff.mp h).1
      refine ⟨.dateTime ⟨day, clock, zone, hday, hclock, hshape, rfl⟩, ?_⟩
      rw [Literal.Checked, String.toList_ofList, zoneOf_dateTime hday hclock hshape]
      obtain rfl | hzone := hzone
      · exact ⟨List.forall_mem_nil _, by decide, by decide⟩
      · exact (isOffset_iff.mp hzone).2
    · obtain ⟨hshape, hascii⟩ := isDuration_iff.mp hiso
      exact ⟨.duration hshape, by rwa [Literal.Checked, String.toList_ofList]⟩
  · rintro ⟨⟨hiso⟩ | ⟨day, clock, zone, hday, hclock, hshape, rfl⟩ | ⟨hiso⟩, hchecked⟩
    · exact .date hiso
    · rw [Literal.Checked, String.toList_ofList, zoneOf_dateTime hday hclock hshape] at hchecked
      exact .dateTime ⟨day, clock, zone, hday, hclock,
        hshape.imp_right fun h => isOffset_iff.mpr ⟨h, hchecked⟩, rfl⟩
    · rw [Literal.Checked, String.toList_ofList] at hchecked
      exact .duration (isDuration_iff.mpr ⟨hiso, hchecked⟩)

/-- What is written for a temporal literal is read as that one token, where a separator or the end
follows. -/
lemma IsTemporal.tokens {text : List Char} {value : Literal}
    (h : IsTemporal IsOffsetShape IsDurationShape text value) (offset : Nat) {rest : List Char}
    (hrest : rest = [] ∨ ∃ d ∈ Lexer.separators, ∃ more, rest = d :: more) :
    Lexer.tokens offset 0 (text ++ rest) =
      (Lexer.tokens (offset + byteLength text) 0 rest).map
        (⟨.literal value, String.ofList text, offset⟩ :: ·) := by
  obtain ⟨c, cs, rfl, hlexeme⟩ := h.lexeme
  obtain rfl | ⟨d, hd, more, rfl⟩ := hrest
  · exact Lexer.tokens_lexeme_append (by rwa [List.append_nil]) offset
  · exact Lexer.tokens_lexeme_append (Lexer.lexeme_separator hd hlexeme) offset

end Iso

open Iso in
/-- Which texts are temporal tokens. The texts of the dates, datetimes and durations among the tokens
of sources are those of the standard, but that the offset of a datetime is not checked and that the
digits of a duration behind the first may be of any script. Each is read as that one token where a
blank, a comment or the end follows. A text that is read is one of the standard exactly where its zone
is in ASCII digits and of less than a day, or the digits of the duration are ASCII digits.

**Proof sketch.** A temporal token is written for its literal (`isTemporal_of_lexeme`), and what is
written for one is a token by itself (`IsTemporal.tokens`), also where it is the whole source. The
standard is compared by `isTemporal_iff`. -/
theorem temporalLiteral_tokens (text : List Char) (value : Literal)
    (hvalue : value.isTemporal = true) :
    ((∃ source ts, tokenize source = .ok ts ∧
        ∃ t ∈ ts, t.kind = .literal value ∧ t.text.toList = text) ↔
      IsTemporal IsOffsetShape IsDurationShape text value) ∧
    (IsTemporal IsOffsetShape IsDurationShape text value → ∀ offset rest,
      (rest = [] ∨ ∃ d ∈ Lexer.separators, ∃ more, rest = d :: more) →
      Lexer.tokens offset 0 (text ++ rest) =
        (Lexer.tokens (offset + byteLength text) 0 rest).map
          (⟨.literal value, String.ofList text, offset⟩ :: ·)) ∧
    (IsTemporal IsOffset (IsDuration Char.isDigit) text value ↔
      IsTemporal IsOffsetShape IsDurationShape text value ∧ value.Checked) := by
  refine ⟨⟨?_, fun htext => ?_⟩, fun htext offset rest hrest => htext.tokens offset hrest,
    isTemporal_iff⟩
  · rintro ⟨source, ts, hts, t, ht, hkind, rfl⟩
    exact isTemporal_of_lexeme hvalue (lexeme_of_tokenize hts ht hkind)
  · have hread := htext.tokens 0 (.inl rfl)
    rw [List.append_nil] at hread
    have hts : tokenize (String.ofList text) = .ok
        [⟨.literal value, String.ofList text, 0⟩, Token.atEnd (0 + byteLength text)] := by
      rw [tokenize, String.toList_ofList, hread]
      rfl
    exact ⟨_, _, hts, _, List.mem_cons_self, rfl, String.toList_ofList⟩

/-- An offset of ninety-nine hours is read, and so is a count whose second digit is not an ASCII
digit; the standard has neither. -/
theorem temporalLiteral_tokens_unchecked :
    (tokenize "D2024-02-29T10:30+99:99" = .ok
        [⟨.literal (.dateTime "2024-02-29T10:30+99:99"), "D2024-02-29T10:30+99:99", 0⟩,
          Token.atEnd 23] ∧
      Iso.IsTemporal Iso.IsOffsetShape Iso.IsDurationShape "D2024-02-29T10:30+99:99".toList
        (.dateTime "2024-02-29T10:30+99:99") ∧
      ¬Iso.IsTemporal Iso.IsOffset (Iso.IsDuration Char.isDigit) "D2024-02-29T10:30+99:99".toList
        (.dateTime "2024-02-29T10:30+99:99")) ∧
    tokenize "P1٣D" = .ok [⟨.literal (.duration "P1٣D"), "P1٣D", 0⟩, Token.atEnd 5] ∧
      Iso.IsTemporal Iso.IsOffsetShape Iso.IsDurationShape "P1٣D".toList (.duration "P1٣D") ∧
      ¬Iso.IsTemporal Iso.IsOffset (Iso.IsDuration Char.isDigit) "P1٣D".toList
        (.duration "P1٣D") := by
  have hdate : tokenize "D2024-02-29T10:30+99:99" = .ok
      [⟨.literal (.dateTime "2024-02-29T10:30+99:99"), "D2024-02-29T10:30+99:99", 0⟩,
        Token.atEnd 23] := by cbv
  have hspan : tokenize "P1٣D" = .ok [⟨.literal (.duration "P1٣D"), "P1٣D", 0⟩, Token.atEnd 5] := by
    cbv
  obtain ⟨hdateRead, -, hdateIff⟩ := temporalLiteral_tokens "D2024-02-29T10:30+99:99".toList
    (.dateTime "2024-02-29T10:30+99:99") rfl
  obtain ⟨hspanRead, -, hspanIff⟩ := temporalLiteral_tokens "P1٣D".toList (.duration "P1٣D") rfl
  refine ⟨⟨hdate, hdateRead.mp ⟨_, _, hdate, _, List.mem_cons_self, rfl, rfl⟩, fun h => ?_⟩, hspan,
    hspanRead.mp ⟨_, _, hspan, _, List.mem_cons_self, rfl, rfl⟩, fun h => ?_⟩
  · have hhour := (hdateIff.mp h).2.2.1
    exact absurd hhour (by decide)
  · have hdigit := (hspanIff.mp h).2 '٣' (by decide) (by decide)
    exact absurd hdigit (by decide)

end Retarget
