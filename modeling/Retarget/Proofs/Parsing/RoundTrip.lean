import Mathlib
import Retarget.Proofs.Parsing.Constructs
import Retarget.Proofs.Parsing.Lexeme

set_option autoImplicit false

/-!
# Printing and parsing

Every constant without a sign has a lexeme, so every well-formed expression can be printed: its
tokens are written with blanks between them. However the lexemes are chosen, parsing the text gives
the expression back.

## Main definitions

* `Retarget.Token.Kind.Writable` — what a token of the kind needs to have a lexeme.
* `Retarget.Expr.Prints` — the text is a printed form of the expression.

## Main results

* `Retarget.Binary64.ofDecimal_exactDigits` — a finite number is read back from its exact decimal.
* `Retarget.exists_lexeme` — writable tokens have lexemes.
* `Retarget.parse_printed` — well-formed expressions have printed forms, and all of them are parsed
  back.
-/

namespace Retarget

/-! ## Numbers -/

namespace Binary64

/-- A quotient that needs no rounding has the bit pattern of its significand and scale.

**Proof sketch.** The scale is found from the length of the numerator, which is that of the
significand moved by the scale. Divided by it the numerator leaves no rest, so that nothing is
rounded. -/
lemma ofRatio_exact {num den m s : Nat} (hden : 0 < den)
    (hunits : num * Nat.pow 2 1074 = m * Nat.pow 2 s * den) (hm : m < 2 ^ 53)
    (hs : s = 0 ∨ 2 ^ 52 ≤ m) (hfinite : s * Nat.pow 2 52 + m < 2047 * Nat.pow 2 52) :
    ofRatio num den = ⟨UInt64.ofNat (s * Nat.pow 2 52 + m)⟩ := by
  have hpos : 0 < Nat.pow 2 s := Nat.two_pow_pos s
  have hscale : Nat.log2 (m * Nat.pow 2 s) - 52 = s := by
    rcases hs with rfl | hm'
    -- A number below the least normal one has scale zero.
    · by_cases hzero : m = 0
      · subst hzero
        rfl
      · have hlog : Nat.log2 m < 53 := (Nat.log2_lt hzero).mpr hm
        change Nat.log2 (m * 1) - 52 = 0
        rw [Nat.mul_one]
        omega
    · have hlog : Nat.log2 (m * Nat.pow 2 s) = 52 + s := by
        refine (Nat.log2_eq_iff (Nat.mul_ne_zero (by omega) (Nat.ne_of_gt hpos))).mpr ⟨?_, ?_⟩
        · rw [Nat.pow_add]
          exact Nat.mul_le_mul_right _ hm'
        · rw [Nat.add_right_comm, Nat.pow_add]
          exact Nat.mul_lt_mul_of_pos_right hm hpos
      omega
  have hround : roundToEven (m * Nat.pow 2 s * den) (den * Nat.pow 2 s) = m := by
    have hprod : 0 < den * Nat.pow 2 s := Nat.mul_pos hden hpos
    have hnum : m * Nat.pow 2 s * den = m * (den * Nat.pow 2 s) := by
      rw [Nat.mul_assoc, Nat.mul_comm (Nat.pow 2 s)]
    rw [hnum]
    simp only [roundToEven, Nat.mul_mod_left, Nat.mul_div_cancel m hprod, Nat.mul_zero]
    rw [if_neg (by omega), if_neg (by omega)]
  simp only [ofRatio, hunits, Nat.mul_div_cancel _ hden, hscale, hround]
  rw [if_pos hfinite]

/-- The parts of a number without a sign make up its bit pattern. -/
lemma toNat_bits {x : Binary64} (hsign : x.isNegative = false) :
    x.bits.toNat = x.exponentField * Nat.pow 2 52 + x.fraction := by
  have hbits : x.bits.toNat < Nat.pow 2 63 := by simpa [isNegative] using hsign
  have hfield : x.exponentField = x.bits.toNat / Nat.pow 2 52 :=
    Nat.mod_eq_of_lt ((Nat.div_lt_iff_lt_mul (by decide)).mpr hbits)
  rw [hfield, fraction, Nat.mul_comm]
  exact (Nat.div_add_mod _ _).symm

/-- The digits of the exact decimal of a finite number, which has 1074 places. -/
def exactDigits (x : Binary64) : Nat := x.magnitude * Nat.pow 5 1074

section Exact

variable {x : Binary64} (hfinite : x.isFinite = true) (hsign : x.isNegative = false)

/-- The significand is below `2 ^ 53`, and at least `2 ^ 52` where there is a scale. -/
lemma significand_bounds : x.significand < 2 ^ 53 ∧ (x.scale = 0 ∨ 2 ^ 52 ≤ x.significand) := by
  have hfraction : x.fraction < Nat.pow 2 52 := Nat.mod_lt _ (by decide)
  have hpow : Nat.pow 2 52 = 4503599627370496 := by decide
  rw [hpow] at hfraction
  rw [scale, significand, hpow]
  split_ifs <;> omega

include hsign in
/-- The scale and the significand of a number make up its pattern of bits. -/
lemma pattern_eq : x.scale * Nat.pow 2 52 + x.significand = x.bits.toNat := by
  have hpow : Nat.pow 2 52 = 4503599627370496 := by decide
  rw [toNat_bits hsign, scale, significand, hpow]
  split_ifs <;> omega

include hfinite hsign in
/-- The pattern of a finite number is below that of infinity. -/
lemma pattern_lt : x.scale * Nat.pow 2 52 + x.significand < 2047 * Nat.pow 2 52 := by
  have hpow : Nat.pow 2 52 = 4503599627370496 := by decide
  have hfraction : x.fraction < Nat.pow 2 52 := Nat.mod_lt _ (by decide)
  have hfield : x.exponentField < Nat.pow 2 11 := Nat.mod_lt _ (by decide)
  have hne : x.exponentField ≠ 2047 := by simpa [isFinite] using hfinite
  have hbound : Nat.pow 2 11 = 2048 := by decide
  rw [pattern_eq hsign, toNat_bits hsign]
  rw [hpow] at hfraction ⊢
  omega

/-- No finite number but zero is so small that its exact decimal counts as zero. -/
lemma digitCount_exactDigits (h : 0 < x.magnitude) : 674 ≤ digitCount x.exactDigits := by
  by_contra hshort
  have hlength : (Nat.toDigits 10 x.exactDigits).length ≤ 673 := by
    rw [digitCount] at hshort
    omega
  have hlt := (Nat.length_toDigits_le_iff (b := 10) (k := 673) (by decide) (by decide)).mp hlength
  have hlarge : 10 ^ 673 ≤ Nat.pow 5 1074 := by decide +kernel
  have hle : Nat.pow 5 1074 ≤ x.exactDigits := Nat.le_mul_of_pos_left _ h
  exact absurd hlt (Nat.not_lt.mpr (Nat.le_trans hlarge hle))

/-- The digits of the exact decimal, scaled by its places, are the number. -/
lemma exactDigits_mul :
    x.exactDigits * Nat.pow 2 1074 = x.significand * Nat.pow 2 x.scale * Nat.pow 10 1074 := by
  unfold exactDigits magnitude
  generalize 1074 = n
  rw [Nat.mul_assoc _ (Nat.pow 5 n)]
  exact congrArg _ (Nat.mul_pow 5 2 n).symm

include hfinite hsign in
/-- A finite number is read back from its exact decimal.

**Proof sketch.** Zero is the one number without digits. Any other number has too many digits for
the reader to take it for zero or for infinity, and the fraction it computes is the number itself
(`ofRatio_exact`). -/
theorem ofDecimal_exactDigits : ofDecimal x.exactDigits (-1074) = x := by
  have hx : x = ⟨UInt64.ofNat (x.scale * Nat.pow 2 52 + x.significand)⟩ := by
    rw [pattern_eq hsign, UInt64.ofNat_toNat]
  obtain ⟨hsmall, hnormal⟩ := significand_bounds (x := x)
  rcases Nat.eq_zero_or_pos x.magnitude with hzero | hpos
  · have hsignificand : x.significand = 0 :=
      (Nat.mul_eq_zero.mp hzero).resolve_right (Nat.ne_of_gt (Nat.two_pow_pos _))
    have hscale : x.scale = 0 := hnormal.resolve_right (by rw [hsignificand]; decide)
    have hdigits : x.exactDigits = 0 := Nat.mul_eq_zero.mpr (.inl hzero)
    rw [hsignificand, hscale] at hx
    rw [hdigits, hx]
    rfl
  · have hcount := digitCount_exactDigits hpos
    have hne : x.exactDigits ≠ 0 := by
      intro hzero
      rw [hzero] at hcount
      exact absurd hcount (by decide)
    have hlarge : ¬(-1074 : Int) + digitCount x.exactDigits < -400 := by omega
    have hden (n : Nat) : 0 < Nat.pow 10 n := Nat.pow_pos (by decide)
    have hplaces : (-(-1074 : Int)).toNat = 1074 := rfl
    rw [ofDecimal, if_neg hne, if_neg (by decide), if_neg hlarge, if_neg (by decide), hplaces,
      ofRatio_exact (hden 1074) exactDigits_mul hsmall hnormal (pattern_lt hfinite hsign), ← hx]

end Exact

end Binary64

/-! ## Lexemes -/

section Lexemes

open Token.Kind

/-- A numeral that is a token of its own. -/
lemma lexeme_numeral {s : List Char} {value : Literal} (h : IsNumeral s)
    (hvalue : Lexer.numeralValue s = .ok (.literal value, s.length)) :
    Lexeme (.literal value) (String.ofList s) := by
  have htaken : Lexer.numeral s = some (s, []) := by
    have hends : EndsNumeral [] := ⟨by simp [HeadFails], by simp [HeadFails], by simp⟩
    have hall := numeral_append h hends
    rwa [List.append_nil] at hall
  obtain ⟨whole, fraction, exponent, hs, ⟨hne, hdigits⟩, -, -⟩ := h
  obtain ⟨c, cs, rfl⟩ := List.exists_cons_of_ne_nil hne
  refine ⟨c, cs ++ (fraction ++ exponent), by simp [hs], ?_⟩
  have hcs : c :: (cs ++ (fraction ++ exponent)) = s := by simp [hs]
  rw [Lexer.lexeme, if_pos (hdigits c (by simp)), hcs, Lexer.number, htaken]
  exact hvalue

/-- The digits of a number that the language has. -/
lemma exists_lexeme_int {v : Int} (hsign : 0 ≤ v) (hgreatest : v ≤ greatestInt) :
    ∃ text, Lexeme (.literal (.int v)) text := by
  obtain ⟨n, rfl⟩ := Int.eq_ofNat_of_zero_le hsign
  have hdigits := isDigits_toDigits n
  refine ⟨_, lexeme_numeral hdigits.isNumeral ?_⟩
  have hall : (Nat.toDigits 10 n).all Char.isDigit = true := List.all_eq_true.mpr hdigits.2
  have hvalue : Text.natOfDigits (Nat.toDigits 10 n) = n := Nat.ofDigitChars_ten_toDigits
  have hle : n ≤ greatestInt := by omega
  simp only [Lexer.numeralValue, hall, hvalue, if_pos hle, if_true, Lexer.literal]

/-- The value of digits with an exponent. -/
lemma ofUnsigned?_exponent {digits tail : List Char} {k : Int} (hdigits : IsDigits digits)
    (hk : Binary64.exponent? tail = some k) :
    Binary64.ofUnsigned? (digits ++ 'e' :: tail) =
      some (Binary64.ofDecimal (Text.natOfDigits digits) k) := by
  have hhead : HeadFails Char.isDigit ('e' :: tail) := headFails_cons rfl
  have hfraction : Binary64.fractionDigits ('e' :: tail) = ([], 'e' :: tail) := rfl
  have hne : digits.isEmpty = false := by simpa using hdigits.1
  simp [Binary64.ofUnsigned?, takeWhile_append_of_headFails hdigits.2 hhead,
    dropWhile_append_of_headFails hdigits.2 hhead, hfraction, hne, hk]

/-- The exact decimal of a finite number without a sign. -/
lemma exists_lexeme_float {x : Binary64} (hfinite : x.isFinite = true)
    (hsign : x.isNegative = false) : ∃ text, Lexeme (.literal (.float x)) text := by
  let tail : List Char := ['-', '1', '0', '7', '4']
  have hdigits := isDigits_toDigits x.exactDigits
  have hexponent : IsExponent ('e' :: tail) :=
    .inr ⟨['-'], _, rfl, by simp, by decide, List.forall_iff_forall_mem.mp (by decide)⟩
  have hvalue : Binary64.ofUnsigned? (Nat.toDigits 10 x.exactDigits ++ 'e' :: tail) = some x := by
    have hnat : Text.natOfDigits (Nat.toDigits 10 x.exactDigits) = x.exactDigits :=
      Nat.ofDigitChars_ten_toDigits
    rw [ofUnsigned?_exponent hdigits (k := -1074) (by decide), hnat,
      Binary64.ofDecimal_exactDigits hfinite hsign]
  have hmark : (Nat.toDigits 10 x.exactDigits ++ 'e' :: tail).all Char.isDigit = false := by simp
  have hnumeral : IsNumeral (Nat.toDigits 10 x.exactDigits ++ 'e' :: tail) :=
    ⟨_, [], _, by rw [List.append_nil], hdigits, .inl rfl, hexponent⟩
  refine ⟨_, lexeme_numeral hnumeral ?_⟩
  simp only [Lexer.numeralValue, hmark, hvalue, hfinite, if_true, Lexer.literal]
  rfl

/-- The characters of a string between single quotes: quotes and backslashes are escaped. -/
def escaped : List Char → List Char
  | [] => []
  | c :: cs =>
    if c = Lexer.backslash ∨ c = Lexer.apostrophe then Lexer.backslash :: c :: escaped cs
    else c :: escaped cs

/-- Escaped characters up to the closing quote are read back. -/
lemma stringBody_escaped (cs : List Char) (offset : Nat) :
    Lexer.stringBody Lexer.apostrophe offset 0 (escaped cs ++ [Lexer.apostrophe]) =
      .ok (cs, (escaped cs).length + 1) := by
  induction cs generalizing offset with
  | nil => rfl
  | cons c cs ih =>
    by_cases hc : c = Lexer.backslash ∨ c = Lexer.apostrophe
    · have hescape (more : List Char) : Lexer.escape c more = .ok (c, 1) := by
        rcases hc with rfl | rfl <;> rfl
      have hslash : Lexer.backslash ≠ Lexer.apostrophe := by decide
      rw [escaped, if_pos hc]
      simp [Lexer.stringBody, hslash, hescape, ih]
    · obtain ⟨hslash, hquote⟩ := not_or.mp hc
      rw [escaped, if_neg hc, List.cons_append]
      unfold Lexer.stringBody
      simp [hslash, hquote, ih]

/-- Every string has a lexeme. -/
lemma exists_lexeme_string (value : String) : ∃ text, Lexeme (.literal (.string value)) text := by
  refine ⟨String.ofList (Lexer.apostrophe :: (escaped value.toList ++ [Lexer.apostrophe])),
    Lexer.apostrophe, escaped value.toList ++ [Lexer.apostrophe], by simp, ?_⟩
  have hdigit : Lexer.apostrophe.isDigit = false := by decide
  simp [Lexer.lexeme, hdigit, Lexer.string, stringBody_escaped]

/-- The text of a keyword is its lexeme. -/
lemma lexeme_keyword (word : Keyword) : Lexeme (.keyword word) word.text := by
  cases word <;> exact ⟨_, _, rfl, rfl⟩

/-- The text of a mark is its lexeme. -/
lemma lexeme_punct (mark : Punct) : Lexeme (.punct mark) mark.text := by
  cases mark <;> exact ⟨_, _, rfl, rfl⟩

end Lexemes

/-- What a token of the kind needs to have a lexeme: a number is finite and has no sign, and dates,
datetimes, durations and names are written as they are. -/
def Token.Kind.Writable : Token.Kind → Prop
  | .literal (.int value) => 0 ≤ value ∧ value ≤ greatestInt
  | .literal (.float value) => value.isFinite = true ∧ value.isNegative = false
  | .literal (.date iso) => Lexeme (.literal (.date iso)) ("D" ++ iso)
  | .literal (.dateTime iso) => Lexeme (.literal (.dateTime iso)) ("D" ++ iso)
  | .literal (.duration iso) => Lexeme (.literal (.duration iso)) iso
  | .ident name => Lexeme (.ident name) name
  | .literal (.string _) | .keyword _ | .punct _ => True
  | .literal (.bool _) | .literal .null | .eof => False

/-- Writable tokens have lexemes. -/
theorem exists_lexeme {kind : Token.Kind} (h : kind.Writable) : ∃ text, kind.Lexeme text := by
  match kind, h with
  | .literal (.int _), ⟨hsign, hgreatest⟩ => exact exists_lexeme_int hsign hgreatest
  | .literal (.float _), ⟨hfinite, hsign⟩ => exact exists_lexeme_float hfinite hsign
  | .literal (.string value), _ => exact exists_lexeme_string value
  | .literal (.date iso), h | .literal (.dateTime iso), h => exact ⟨_, h⟩
  | .literal (.duration iso), h | .ident name, h => exact ⟨_, h⟩
  | .keyword word, _ => exact ⟨_, lexeme_keyword word⟩
  | .punct mark, _ => exact ⟨_, lexeme_punct mark⟩

/-! ## Printed expressions -/

section Kinds

variable {K : Token.Kind → Prop} (hwords : ∀ word, K (.keyword word))
  (hmarks : ∀ mark, K (.punct mark))

include hmarks

/-- What holds of the tokens of rows holds with marks between the rows. -/
lemma forall_separated {mark : Punct} {rows : List (List Token.Kind)}
    (h : ∀ row ∈ rows, ∀ x ∈ row, K x) : ∀ x ∈ Expr.separated mark rows, K x := by
  induction rows with
  | nil => simp [Expr.separated]
  | cons row rows ih =>
    obtain ⟨hrow, hrows⟩ := List.forall_mem_cons.mp h
    cases rows with
    | nil => exact hrow
    | cons next rows =>
      rw [Expr.separated_cons_cons]
      exact List.forall_mem_append.mpr ⟨hrow, List.forall_mem_cons.mpr ⟨hmarks mark, ih hrows⟩⟩

/-- What holds of the tokens of a row holds between two marks. -/
lemma forall_between {opening closing : Punct} {row : List Token.Kind} (h : ∀ x ∈ row, K x) :
    ∀ x ∈ Expr.between opening row closing, K x := by
  simpa [Expr.between, hmarks, or_imp, forall_and] using h

/-- What holds of the tokens of arguments holds with their parentheses. -/
lemma forall_arguments {rows : List (List Token.Kind)} (h : ∀ row ∈ rows, ∀ x ∈ row, K x) :
    ∀ x ∈ Expr.argumentKinds rows, K x :=
  forall_between hmarks (forall_separated hmarks h)

/-- What holds of the tokens of an expression holds with parentheses or without. -/
lemma forall_grouped {place rank : Nat} {row : List Token.Kind} (h : ∀ x ∈ row, K x) :
    ∀ x ∈ Expr.grouped place rank row, K x := by
  unfold Expr.grouped
  split_ifs
  · exact forall_between hmarks h
  · exact h

/-- What holds of the tokens of expressions holds at their places. -/
lemma forall_rows {first others : Nat} {es : List (Expr Bool)} (h : ∀ e ∈ es, ∀ x ∈ e.kinds, K x) :
    ∀ row ∈ Expr.rows first others es, ∀ x ∈ row, K x := by
  induction es generalizing first with
  | nil => simp [Expr.rows]
  | cons e es ih =>
    obtain ⟨he, hes⟩ := List.forall_mem_cons.mp h
    exact List.forall_mem_cons.mpr ⟨forall_grouped hmarks he, ih hes⟩

omit hmarks in
/-- What holds of the tokens of named expressions holds with their names. -/
lemma forall_namedRows {before : String → List Token.Kind} {named : List (String × Expr Bool)}
    (hbefore : ∀ p ∈ named, ∀ x ∈ before p.1, K x) (h : ∀ p ∈ named, ∀ x ∈ p.2.kinds, K x) :
    ∀ row ∈ Expr.namedRows before named, ∀ x ∈ row, K x := by
  rw [Expr.namedRows_eq_map]
  intro row hrow
  obtain ⟨p, hp, rfl⟩ := List.mem_map.mp hrow
  exact List.forall_mem_append.mpr ⟨hbefore p hp, h p hp⟩

variable (hstrings : ∀ text, K (.literal (.string text)))
include hstrings

/-- What holds of the tokens of tests holds with their labels. -/
lemma forall_conditionRows {conditions : List (Condition (Expr Bool))}
    (h : ∀ c ∈ conditions, ∀ x ∈ c.test.kinds, K x) :
    ∀ row ∈ Expr.conditionRows conditions, ∀ x ∈ row, K x := by
  rw [Expr.conditionRows_eq_map]
  intro row hrow
  obtain ⟨c, hc, rfl⟩ := List.mem_map.mp hrow
  refine List.forall_mem_append.mpr ⟨?_, h c hc⟩
  cases c.label with
  | none => simp [Expr.labelKinds]
  | some name => simp [Expr.labelKinds, hmarks, hstrings]

include hwords in
/-- The tokens of an expression are punctuators, keywords, strings and those that its names and
constants come from.

**Proof sketch.** Induction over the expression, through the rows of its tokens: names and constants
have tokens that the syntax comes from, and all others are marks, keywords and strings. -/
theorem Expr.WellFormed.forall_kinds {e : Expr Bool} (h : e.WellFormed K) : ∀ x ∈ e.kinds, K x := by
  induction h with
  | @literal _ kind value hkind hvalue =>
    refine List.forall_mem_singleton.mpr (?_ : K value.kind)
    match value with
    | .bool true | .bool false | .null => exact hwords _
    | .int _ | .float _ | .string _ | .date _ | .dateTime _ | .duration _ =>
      cases kind with
      | literal found => cases hvalue; exact hkind
      | keyword word => cases word <;> cases hvalue
      | _ => cases hvalue
  | array _ ih => exact forall_between hmarks (forall_separated hmarks (forall_rows hmarks ih))
  | record _ _ ih =>
    refine forall_between hmarks (forall_separated hmarks (forall_namedRows (fun p _ => ?_) ih))
    simp [Expr.fieldKinds, hmarks, hstrings]
  | var hname => exact List.forall_mem_singleton.mpr hname
  | @unary _ op _ _ ih =>
    refine List.forall_mem_cons.mpr ⟨?_, forall_grouped hmarks ih⟩
    cases op <;> first | exact hmarks _ | exact hwords _
  | @binary _ op _ _ _ _ iha ihb =>
    refine List.forall_mem_append.mpr ⟨forall_grouped hmarks iha,
      List.forall_mem_cons.mpr ⟨?_, forall_grouped hmarks ihb⟩⟩
    cases op <;> first | exact hmarks _ | exact hwords _
  | cond _ _ _ ihtest ihyes ihno =>
    simp only [Expr.kinds_cond, List.forall_mem_cons, List.forall_mem_append]
    exact ⟨hwords _, ihtest, hwords _, ihyes, hwords _, ihno⟩
  | letIn _ hnames _ _ ihvalues ihbody =>
    simp only [Expr.kinds_letIn, List.forall_mem_cons, List.forall_mem_append]
    refine ⟨hwords _, forall_separated hmarks (forall_namedRows (fun p hp => ?_) ihvalues),
      hwords _, ihbody⟩
    simp [Expr.bindingKinds, hmarks, hnames p hp]
  | @lambda short params body _ hnames _ ih =>
    have hrows : ∀ row ∈ params.map fun p => [Token.Kind.ident p], ∀ x ∈ row, K x := by
      simpa using hnames
    change ∀ x ∈ Expr.lambdaKinds short params body.kinds, K x
    unfold Expr.lambdaKinds
    split
    · simp only [List.forall_mem_cons]
      exact ⟨hnames _ (by simp), hmarks _, ih⟩
    · refine List.forall_mem_cons.mpr ⟨hwords _, forall_between hmarks ?_⟩
      exact List.forall_mem_append.mpr ⟨forall_separated hmarks hrows,
        List.forall_mem_cons.mpr ⟨hmarks _, ih⟩⟩
  | call _ _ ihcallee ihargs =>
    exact List.forall_mem_append.mpr ⟨forall_grouped hmarks ihcallee,
      forall_arguments hmarks (forall_rows hmarks ihargs)⟩
  | member hfield _ ih =>
    refine List.forall_mem_append.mpr ⟨forall_grouped hmarks ih, ?_⟩
    simp [hmarks, hfield]
  | @pipe short _ _ args hfunction _ _ ihvalue ihargs =>
    refine List.forall_mem_append.mpr ⟨forall_grouped hmarks ihvalue, List.forall_mem_cons.mpr
      ⟨hmarks _, List.forall_mem_cons.mpr ⟨hfunction, ?_⟩⟩⟩
    unfold Expr.pipeKinds
    split
    · simp
    · exact forall_arguments hmarks (forall_rows hmarks ihargs)
  | alternative _ _ ih => exact forall_separated hmarks (forall_rows hmarks ih)
  | @select _ _ policy constraints _ hname _ _ _ _ ihconstraints ihargs =>
    refine List.forall_mem_cons.mpr ⟨hname, ?_⟩
    refine List.forall_mem_append.mpr ⟨?_, List.forall_mem_append.mpr
      ⟨?_, forall_arguments hmarks (forall_rows hmarks ihargs)⟩⟩
    · unfold Expr.constraintKinds
      split
      · simp
      · exact forall_between hmarks (forall_separated hmarks
          (forall_conditionRows hmarks hstrings ihconstraints))
    · cases policy <;> simp [SelectPolicy.kinds, hmarks]
  | guarded _ _ _ ihconditions ihbody =>
    simp only [Expr.kinds_guarded, List.forall_mem_cons, List.forall_mem_append]
    exact ⟨hwords _, forall_separated hmarks (forall_conditionRows hmarks hstrings ihconditions),
      hwords _, ihbody⟩

end Kinds

/-- The text is a printed form of the expression: lexemes of its tokens with blanks between them. -/
def Expr.Prints (e : Expr Bool) (text : String) : Prop :=
  ∃ lexemes, List.Forall₂ Token.Kind.Lexeme e.kinds lexemes ∧ text = " ".intercalate lexemes

/-- Writable tokens have lexemes. -/
lemma exists_lexemes {kinds : List Token.Kind} (h : ∀ x ∈ kinds, x.Writable) :
    ∃ lexemes, List.Forall₂ Token.Kind.Lexeme kinds lexemes := by
  induction kinds with
  | nil => exact ⟨[], .nil⟩
  | cons x kinds ih =>
    obtain ⟨hx, hkinds⟩ := List.forall_mem_cons.mp h
    obtain ⟨text, htext⟩ := exists_lexeme hx
    obtain ⟨lexemes, hlexemes⟩ := ih hkinds
    exact ⟨text :: lexemes, .cons htext hlexemes⟩

/-- A well-formed expression has a printed form, and every printed form of it is parsed back to the
expression.

**Proof sketch.** The tokens of a printed form are those of its lexemes, since the blank behind a
lexeme ends its token. The parser reads these tokens as the expression: by induction on the
expression, it does so at every place where the expression can stand. -/
theorem parse_printed {e : Expr Bool} (h : e.WellFormed Token.Kind.Writable) :
    (∃ text, e.Prints text) ∧
      ∀ text, e.Prints text → ∃ e', parse text = .ok e' ∧ e'.plain = e.plain := by
  constructor
  · obtain ⟨lexemes, hlexemes⟩ :=
      exists_lexemes (h.forall_kinds (fun _ => trivial) (fun _ => trivial) fun _ => trivial)
    exact ⟨_, lexemes, hlexemes, rfl⟩
  · rintro _ ⟨lexemes, hlexemes, rfl⟩
    obtain ⟨tokens, htokens, hkinds⟩ := tokenize_spaced hlexemes
    obtain ⟨e', hparse, hplain⟩ := parseTokens_of_kinds h hkinds
    exact ⟨e', parse_eq_ok (by rw [htokens]; rfl) hparse, hplain⟩

/-- An alternative whose first candidate is one too, with a capitalized callee and a power under a
sign. -/
def nestedCandidates : Expr Bool :=
  .alternative false
    [.alternative false
      [.call false (.var false "X")
        [.unary false .neg (.binary false .pow (.var false "a") (.literal false (.int 2)))],
       .literal false .null],
     .lambda true ["y"] (.var false "y")]

/-- An alternative inside of an alternative keeps its parentheses, and so do a capitalized callee
and a power under a sign. -/
theorem parse_printed_nestedCandidates :
    nestedCandidates.WellFormed Token.Kind.Writable ∧
      ∃ e, parse "( ( X ) ( - ( a ^ 2 ) ) | null ) | ( y ~> y )" = .ok e ∧
        e.plain = nestedCandidates.plain := by
  have hname : ∀ name ∈ ["X", "a", "y"], Token.Kind.Writable (.ident name) := by
    simp only [List.forall_mem_cons]
    exact ⟨⟨_, _, rfl, rfl⟩, ⟨_, _, rfl, rfl⟩, ⟨_, _, rfl, rfl⟩, by simp⟩
  have htwo : Token.Kind.Writable (.literal (.int 2)) := ⟨by decide, by decide⟩
  have hwellFormed : nestedCandidates.WellFormed Token.Kind.Writable := by
    refine .alternative (by decide) (List.forall_mem_cons.mpr ⟨?_, List.forall_mem_singleton.mpr ?_⟩)
    · refine .alternative (by decide) (List.forall_mem_cons.mpr ⟨?_, List.forall_mem_singleton.mpr ?_⟩)
      · refine .call (.var (hname _ (by simp))) (List.forall_mem_singleton.mpr (.unary ?_))
        exact .binary (.var (hname _ (by simp))) (.literal htwo rfl)
      · exact .literal (show Token.Kind.Writable (.keyword .null) from trivial) rfl
    · exact .lambda (by decide) (fun p hp => hname p (by simp_all)) (.var (hname _ (by simp)))
  refine ⟨hwellFormed, (parse_printed hwellFormed).2 _ ⟨["(", "(", "X", ")", "(", "-", "(", "a", "^",
    "2", ")", ")", "|", "null", ")", "|", "(", "y", "~>", "y", ")"], ?_, by decide⟩⟩
  simp only [nestedCandidates]
  repeat' constructor

end Retarget
