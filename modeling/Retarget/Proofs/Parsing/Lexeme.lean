import Mathlib.Data.List.Basic
import Retarget.Proofs.Numeral

set_option autoImplicit false

/-!
# Lexemes and separators

A text that is one token stays that token when a blank or a comment follows it. So a row of such texts
with blanks between them is the row of their tokens.

## Main definitions

* `Retarget.Token.Kind.Lexeme` — the text is one token of the kind.
* `Retarget.Lexer.separators` — the characters that separate tokens.
* `Retarget.Scan.Halts` — a pattern takes the same whether or not a separator follows.

## Main results

* `Retarget.Lexer.lexeme_separator` — a separator behind a token leaves it as it is.
* `Retarget.tokenize_spaced` — the tokens of lexemes with blanks between them.
-/

namespace Retarget

/-- The text is one token, and it is of the kind. -/
def Token.Kind.Lexeme (kind : Token.Kind) (text : String) : Prop :=
  ∃ c cs, text.toList = c :: cs ∧ Lexer.lexeme c cs = .ok (kind, (c :: cs).length)

/-- The characters that separate tokens: the blanks and the mark of a comment. -/
def Lexer.separators : List Char := [' ', '\t', '\n', '\x0c', '\r', '#']

/-- What can be checked for one separator after another holds of all. -/
lemma Lexer.of_separators {P : Char → Prop} (h : separators.Forall P) {d : Char}
    (hd : d ∈ separators) : P d :=
  List.forall_iff_forall_mem.mp h d hd

open Lexer (separators of_separators)

/-! ## Patterns -/

section Rows

variable {p : Char → Bool} {d : Char} (hd : p d = false) (cs more : List Char)
include hd

/-- What is taken from a text ends before a separator. -/
lemma takeWhile_separator : (cs ++ d :: more).takeWhile p = cs.takeWhile p := by
  induction cs with
  | nil => simp [hd]
  | cons c cs ih => simp only [List.cons_append, List.takeWhile_cons, ih]

/-- What is dropped from a text ends before a separator. -/
lemma dropWhile_separator : (cs ++ d :: more).dropWhile p = cs.dropWhile p ++ d :: more := by
  induction cs with
  | nil => simp [hd]
  | cons c cs ih =>
    simp only [List.cons_append, List.dropWhile_cons, ih]
    split <;> rfl

/-- A separator is no character that the predicate asks for. -/
lemma any_head?_separator : (cs ++ d :: more).head?.any p = cs.head?.any p := by
  cases cs with
  | nil => exact hd
  | cons c cs => rfl

end Rows

namespace Scan

/-- The pattern takes the same whether or not a separator follows the text. -/
def Halts (a : Scan) : Prop :=
  ∀ d ∈ separators, ∀ cs more,
    a (cs ++ d :: more) = (a cs).map fun found => (found.1, found.2 ++ d :: more)

variable {a b : Scan} {p : Char → Bool}

/-- A character ends before a separator. -/
lemma halts_one (hp : separators.Forall (p · = false)) : Halts (one p) := by
  intro d hd cs more
  cases cs with
  | nil => simp [one, of_separators hp hd]
  | cons c cs =>
    simp only [List.cons_append, one]
    split <;> rfl

/-- A run of characters ends before a separator. -/
lemma halts_some1 (hp : separators.Forall (p · = false)) : Halts (some1 p) := by
  intro d hd cs more
  have hp := of_separators hp hd
  simp only [some1, takeWhile_separator hp, dropWhile_separator hp]
  cases cs.takeWhile p <;> rfl

/-- Two patterns in turn. -/
lemma Halts.seq (ha : Halts a) (hb : Halts b) : Halts (seq a b) := by
  intro d hd cs more
  simp only [Scan.seq, ha d hd cs more]
  cases a cs with
  | none => rfl
  | some found =>
    simp only [Option.map_some, hb d hd found.2 more]
    cases b found.2 <;> rfl

/-- A row of patterns in turn. -/
lemma halts_all {as : List Scan} (h : ∀ a ∈ as, Halts a) : Halts (all as) := by
  induction as with
  | nil => exact fun _ _ _ _ => rfl
  | cons a as ih =>
    obtain ⟨ha, has⟩ := List.forall_mem_cons.mp h
    exact ha.seq (ih has)

/-- A pattern that may be missing. -/
lemma Halts.optional (ha : Halts a) : Halts (optional a) := by
  intro d hd cs more
  simp only [Scan.optional, ha d hd cs more]
  cases a cs <;> rfl

/-- One of two patterns. -/
lemma Halts.either (ha : Halts a) (hb : Halts b) : Halts (either a b) := by
  intro d hd cs more
  simp only [Scan.either, ha d hd cs more, hb d hd cs more]
  cases a cs <;> rfl

end Scan

namespace Temporal

open Scan

/-- A letter ends before a separator. -/
lemma halts_char {letter : Char} (h : separators.Forall ((· == letter) · = false)) :
    Halts (Scan.char letter) :=
  halts_one h

/-- Digits end before a separator. -/
lemma halts_digits : Halts (some1 Text.isDecimalDigit) := halts_some1 (by decide)

/-- Two digits end before a separator. -/
lemma halts_twoDigits : Halts twoDigits := by
  have hdigit : Halts digit := halts_one (by decide)
  exact hdigit.seq hdigit

/-- A date ends before a separator. -/
lemma halts_date : Halts date := by
  have hmark : Halts (Scan.char '-') := halts_char (by decide)
  exact halts_all (by simp [halts_twoDigits, hmark])

/-- The fraction of a number ends before a separator. -/
lemma halts_fraction : Halts fraction := (halts_char (by decide)).seq halts_digits

/-- A time of day ends before a separator. -/
lemma halts_clock : Halts clock := by
  have hmark : Halts (Scan.char ':') := halts_char (by decide)
  have hseconds : Halts (all [Scan.char ':', twoDigits, Scan.optional fraction]) :=
    halts_all (by simp [halts_twoDigits, hmark, halts_fraction.optional])
  exact halts_all (by simp [halts_twoDigits, hmark, hseconds.optional])

/-- A zone ends before a separator. -/
lemma halts_zone : Halts zone := by
  have hsign : Halts (one isSign) := halts_one (by decide)
  have hmark : Halts (Scan.char ':') := halts_char (by decide)
  exact (halts_char (by decide)).either (halts_all (by simp [halts_twoDigits, hmark, hsign]))

/-- A part of a duration ends before a separator. -/
lemma halts_component {letter : Char} (h : separators.Forall ((· == letter) · = false)) :
    Halts (component letter) :=
  halts_digits.seq (halts_char h)

/-- A duration ends before a separator. -/
lemma halts_duration : Halts duration := by
  have hletters : ∀ letter ∈ ['P', 'Y', 'M', 'W', 'D', 'T', 'H', 'S'],
      separators.Forall ((· == letter) · = false) := List.forall_iff_forall_mem.mp (by decide)
  have hchar : ∀ letter ∈ ['P', 'Y', 'M', 'W', 'D', 'T', 'H', 'S'], Halts (Scan.char letter) :=
    fun letter h => halts_char (hletters letter h)
  have hcomponent : ∀ letter ∈ ['P', 'Y', 'M', 'W', 'D', 'T', 'H', 'S'],
      Halts (Scan.optional (component letter)) :=
    fun letter h => (halts_component (hletters letter h)).optional
  have hseconds : Halts seconds :=
    halts_all (by simp [halts_digits, halts_fraction.optional, hchar])
  have htime : Halts (all [Scan.char 'T', Scan.optional (component 'H'),
      Scan.optional (component 'M'), Scan.optional seconds]) :=
    halts_all (by simp [hchar, hcomponent, hseconds.optional])
  exact halts_all (by simp [hchar, hcomponent, htime.optional])

end Temporal

/-! ## Tokens -/

namespace Lexer

open Scan

variable {c : Char} {cs more : List Char}

/-- A number ends before a separator. -/
lemma halts_numeral : Halts numeral := by
  have hdigits : Halts (some1 Char.isDigit) := halts_some1 (by decide)
  have hfraction : Halts (Scan.seq (Scan.char '.') (some1 Char.isDigit)) :=
    (Temporal.halts_char (by decide)).seq hdigits
  have hmark : Halts (one isExponentMark) := halts_one (by decide)
  have hsign : Halts (one Temporal.isSign) := halts_one (by decide)
  have hexponent : Halts (all [one isExponentMark, Scan.optional (one Temporal.isSign),
      some1 Char.isDigit]) := halts_all (by simp [hdigits, hmark, hsign.optional])
  exact halts_all (by simp [hdigits, hfraction.optional, hexponent.optional])

/-- The time of a datetime ends before a separator. -/
lemma halts_timePart : Halts timePart := by
  have hmark : Halts (Scan.char 'T') := Temporal.halts_char (by decide)
  exact halts_all (by simp [hmark, Temporal.halts_clock, Temporal.halts_zone.optional])

/-- A text without the separator is no more at the start if the separator follows. -/
lemma isPrefixOf_separator {d : Char} {text : List Char} (h : d ∉ text) :
    text.isPrefixOf (cs ++ d :: more) = text.isPrefixOf cs := by
  induction text generalizing cs with
  | nil => simp
  | cons e es ih =>
    obtain ⟨he, hes⟩ : d ≠ e ∧ d ∉ es := by simpa using h
    cases cs with
    | nil => simp [List.isPrefixOf, Ne.symm he]
    | cons c cs => simp [List.isPrefixOf, ih hes]

section Behind

variable {d : Char} (hd : d ∈ separators)
include hd

/-- A separator is no part of a name. -/
lemma isIdentPart_separator : isIdentPart d = false :=
  of_separators (P := (isIdentPart · = false)) (by decide) hd

/-- A separator is no digit. -/
lemma isDigit_separator : d.isDigit = false :=
  of_separators (P := (Char.isDigit · = false)) (by decide) hd

/-- A separator is no part of the word before it. -/
lemma runsOn_separator : runsOn (cs ++ d :: more) = runsOn cs :=
  any_head?_separator (isIdentPart_separator hd) cs more

/-- A number is read the same before a separator. -/
lemma number_separator : number (cs ++ d :: more) = number cs := by
  unfold number
  rw [halts_numeral d hd cs more]
  cases numeral cs with
  | none => rfl
  | some found =>
    simp only [Option.map_some]
    rw [runsOn_separator hd]

/-- A date or a datetime is read the same before a separator. -/
lemma temporal_separator : temporal (cs ++ d :: more) = temporal cs := by
  unfold temporal
  rw [Temporal.halts_date d hd cs more]
  cases Temporal.date cs with
  | none => rfl
  | some found =>
    simp only [Option.map_some]
    rw [halts_timePart d hd found.2 more]
    cases timePart found.2 with
    | none => simp only [Option.map_none, Option.getD_none, runsOn_separator hd]
    | some time => simp only [Option.map_some, Option.getD_some, runsOn_separator hd]

/-- A duration is read the same before a separator. -/
lemma duration_separator : duration (cs ++ d :: more) = duration cs := by
  have hne : (some d == some '.') = false :=
    of_separators (P := fun d => (some d == some '.') = false) (by decide) hd
  have hpoint (rest : List Char) :
      ((rest ++ d :: more).head? == some '.') = (rest.head? == some '.') := by
    cases rest with
    | nil => exact hne
    | cons c cs => rfl
  unfold duration
  rw [Temporal.halts_duration d hd cs more]
  cases Temporal.duration cs with
  | none => rfl
  | some found => simp only [Option.map_some, runsOn_separator hd, hpoint]

/-- A word is read the same before a separator. -/
lemma word_separator : word (cs ++ d :: more) = word cs := by
  simp only [word, takeWhile_separator (isIdentPart_separator hd)]

/-- A duration starts the same before a separator. -/
lemma startsDuration_separator : startsDuration (cs ++ d :: more) = startsDuration cs := by
  have hne : (d == 'T') = false := of_separators (P := ((· == 'T') · = false)) (by decide) hd
  cases cs with
  | nil => simp [startsDuration, isDigit_separator hd, hne]
  | cons c cs =>
    simp only [List.cons_append, startsDuration, any_head?_separator (isDigit_separator hd)]

/-- A mark is found the same before a separator. -/
lemma atStart?_separator : Punct.atStart? (cs ++ d :: more) = Punct.atStart? cs := by
  have htext (p : Punct) : separators.Forall (· ∉ p.text.toList) := by cases p <;> decide
  refine congrArg Punct.every.find? (funext fun p => ?_)
  exact isPrefixOf_separator (of_separators (htext p) hd)

/-- A code point in braces is read the same before a separator. -/
lemma bracedScalar?_separator : bracedScalar? (cs ++ d :: more) = bracedScalar? cs := by
  have hhex : isHexDigit d = false :=
    of_separators (P := (isHexDigit · = false)) (by decide) hd
  have hbraces : d ≠ '\x7b' ∧ d ≠ '\x7d' :=
    of_separators (P := fun d => d ≠ '\x7b' ∧ d ≠ '\x7d') (by decide) hd
  have hclose (rest : List Char) :
      (rest ++ d :: more).head? = some '\x7d' ↔ rest.head? = some '\x7d' := by
    cases rest <;> simp [hbraces]
  cases cs with
  | nil => simp [bracedScalar?, hbraces]
  | cons c cs =>
    simp only [bracedScalar?, List.cons_append, List.drop_succ_cons, List.drop_zero, List.head?_cons,
      takeWhile_separator hhex, dropWhile_separator hhex, hclose]

/-- An escape is read the same before a separator. -/
lemma escape_separator : escape c (cs ++ d :: more) = escape c cs := by
  simp only [escape, bracedScalar?_separator hd]

end Behind

/-- A step of a string reads the rest, and fails where that fails. -/
lemma behind_eq_ok {rest longer : Except Failure (List Char × Nat)} {give : List Char → List Char}
    {found : List Char × Nat} (hrest : ∀ body, rest = .ok body → longer = .ok body)
    (h : (match rest with
      | .error failure => .error failure
      | .ok (ds, count) => .ok (give ds, count + 1)) = Except.ok found) :
    (match longer with
      | .error failure => Except.error failure
      | .ok (ds, count) => .ok (give ds, count + 1)) = .ok found := by
  cases rest with
  | error failure => cases h
  | ok body => rwa [hrest body rfl]

/-- What a string denotes does not depend on what follows its closing quote.

**Proof sketch.** By induction on the text, along the cases of the reader; an escape does not depend
on the separator either (`escape_separator`). -/
lemma stringBody_separator {d : Char} (hd : d ∈ separators) {quote : Char} {offset skip : Nat}
    {found : List Char × Nat} (h : stringBody quote offset skip cs = .ok found) :
    stringBody quote offset skip (cs ++ d :: more) = .ok found := by
  induction cs generalizing offset skip found with
  | nil => simp [stringBody] at h
  | cons c cs ih =>
    rw [List.cons_append]
    unfold stringBody at h ⊢
    cases skip with
    | succ skip => exact behind_eq_ok (fun _ => ih) h
    | zero =>
      simp only at h ⊢
      split_ifs at h ⊢ with hquote hslash
      · exact h
      · cases cs with
        | nil => simp at h
        | cons e rest =>
          simp only [List.cons_append, escape_separator hd] at h ⊢
          cases hescape : escape e rest with
          | error fault => simp [hescape] at h
          | ok unit =>
            simp only [hescape] at h ⊢
            exact behind_eq_ok (fun _ => ih) h
      · exact behind_eq_ok (fun _ => ih) h

/-- A separator behind a token leaves it as it is. -/
theorem lexeme_separator {d : Char} (hd : d ∈ separators) {found : Token.Kind × Nat}
    (h : lexeme c cs = .ok found) : lexeme c (cs ++ d :: more) = .ok found := by
  unfold lexeme at h ⊢
  rw [any_head?_separator (isDigit_separator hd), startsDuration_separator hd, temporal_separator hd,
    ← List.cons_append, number_separator hd, duration_separator hd, word_separator hd,
    atStart?_separator hd]
  split_ifs at h ⊢ with hdigit hquote
  · exact h
  · unfold string at h ⊢
    cases hbody : stringBody c 1 0 cs with
    | error failure => simp [hbody] at h
    | ok body => simpa [hbody, stringBody_separator hd hbody] using h
  all_goals exact h

/-! ## Rows of tokens -/

/-- The characters of a token that has been read are passed over. -/
lemma tokens_skip (offset : Nat) (taken rest : List Char) :
    tokens offset taken.length (taken ++ rest) = tokens (offset + byteLength taken) 0 rest := by
  induction taken generalizing offset with
  | nil => rfl
  | cons c cs ih =>
    rw [List.length_cons, List.cons_append, tokens, ih, byteLength, Nat.add_assoc]

/-- No mark is found at a character that no mark starts with. -/
lemma atStart?_eq_none (h : ∀ p ∈ Punct.every, p.text.toList.head? ≠ some c) :
    Punct.atStart? (c :: cs) = none := by
  refine List.find?_eq_none.mpr fun p hp hstart => ?_
  obtain ⟨rest, hrest⟩ := List.isPrefixOf_iff_prefix.mp hstart
  have hne : p.text.toList ≠ [] := by cases p <;> decide
  obtain ⟨d, ds, hd⟩ := List.exists_cons_of_ne_nil hne
  rw [hd] at hrest
  refine h p hp ?_
  rw [hd, List.head?_cons, (List.cons.inj hrest).1]

/-- Neither a blank nor a comment starts a token. -/
lemma starts_of_lexeme {found : Token.Kind × Nat} (h : lexeme c cs = .ok found) :
    isBlank c = false ∧ c ≠ '#' := by
  have hstarts : separators.Forall fun d => d.isDigit = false ∧
      ¬(d = apostrophe ∨ d = doubleQuote) ∧ d ≠ 'D' ∧ d ≠ 'P' ∧ isIdentStart d = false := by decide
  have hpuncts : separators.Forall fun d => ∀ p ∈ Punct.every, p.text.toList.head? ≠ some d := by
    decide
  have hmem : c ∉ separators := by
    intro hc
    obtain ⟨hdigit, hquote, hdate, hduration, hname⟩ := of_separators hstarts hc
    simp [lexeme, hdigit, hquote, hdate, hduration, hname,
      atStart?_eq_none (of_separators hpuncts hc), refuse] at h
  refine ⟨?_, fun hc => hmem (by simp [separators, hc])⟩
  simp only [separators, List.mem_cons, not_or] at hmem
  simp [isBlank, hmem]

/-- A token and the tokens behind it. -/
lemma tokens_lexeme {kind : Token.Kind} {offset : Nat} {rest : List Char} {ts : List Token}
    (h : lexeme c (cs ++ rest) = .ok (kind, (c :: cs).length))
    (hrest : tokens (offset + byteLength (c :: cs)) 0 rest = .ok ts) :
    tokens offset 0 (c :: cs ++ rest) = .ok (⟨kind, String.ofList (c :: cs), offset⟩ :: ts) := by
  obtain ⟨hblank, hcomment⟩ := starts_of_lexeme h
  have hskip : tokens (offset + c.utf8Size) cs.length (cs ++ rest) = .ok ts := by
    rw [tokens_skip, Nat.add_assoc]
    exact hrest
  rw [List.cons_append, tokens]
  simp [hblank, hcomment, h, hskip]

/-- The tokens of lexemes with blanks between them. -/
lemma tokens_spaced {kinds : List Token.Kind} {texts : List String}
    (h : List.Forall₂ Token.Kind.Lexeme kinds texts) (offset : Nat) :
    ∃ ts, tokens offset 0 ([' '].intercalate (texts.map String.toList)) = .ok ts ∧
      ts.map Token.kind = kinds ++ [Token.Kind.eof] := by
  induction h generalizing offset with
  | nil => exact ⟨_, rfl, rfl⟩
  | @cons kind text kinds texts hlexeme hrest ih =>
    obtain ⟨c, cs, htext, hfound⟩ := hlexeme
    cases hrest with
    | nil =>
      have hone : tokens offset 0 (c :: cs ++ []) = .ok [⟨kind, String.ofList (c :: cs), offset⟩,
          Token.atEnd (offset + byteLength (c :: cs))] :=
        tokens_lexeme (by rw [List.append_nil]; exact hfound) rfl
      refine ⟨_, Eq.trans ?_ hone, rfl⟩
      rw [List.map_cons, List.map_nil, List.intercalate_singleton, htext, List.append_nil]
    | @cons kind' text' kinds texts hlexeme' hrest =>
      obtain ⟨ts, hts, hkinds⟩ := ih (offset + byteLength (c :: cs) + ' '.utf8Size)
      refine ⟨⟨kind, String.ofList (c :: cs), offset⟩ :: ts, ?_, by simp [hkinds]⟩
      rw [List.map_cons, List.map_cons, List.intercalate_cons_cons, htext, List.append_assoc]
      exact tokens_lexeme (lexeme_separator (by decide) hfound) hts

end Lexer

/-- The tokens of lexemes with blanks between them are those of the lexemes. -/
theorem tokenize_spaced {kinds : List Token.Kind} {texts : List String}
    (h : List.Forall₂ Token.Kind.Lexeme kinds texts) :
    ∃ ts, tokenize (" ".intercalate texts) = .ok ts ∧
      ts.map Token.kind = kinds ++ [Token.Kind.eof] := by
  obtain ⟨ts, hts, hkinds⟩ := Lexer.tokens_spaced h 0
  refine ⟨ts, ?_, hkinds⟩
  have hspace : " ".toList = [' '] := rfl
  rw [tokenize, String.toList_intercalate, hspace, hts]

end Retarget
