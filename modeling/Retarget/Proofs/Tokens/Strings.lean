import Mathlib
import Retarget.Proofs.Tokens.Tiling

set_option autoImplicit false

/-!
# String literals

A string literal is a row of items between two quotes of one kind. An item is a character that is
neither that quote nor a backslash, one of six escapes of one character, or the code point of a
character in hexadecimal digits. The grammar says nothing of how a literal is read; reading takes
exactly the literals of the grammar, whatever follows them, and gives what their items denote.

## Main definitions

* `Retarget.StringItem` — the spellings of one character in a string.
* `Retarget.IsStringLiteral` — the text is a string literal that denotes the characters.

## Main results

* `Retarget.Lexer.stringBody_items`, `Retarget.Lexer.exists_items_of_stringBody` — reading up to the
  closing quote accepts rows of items only, and all of them.
* `Retarget.stringLiteral_tokens` — string literals of the grammar and string tokens are the same.
-/

namespace Retarget

open Lexer (backslash apostrophe doubleQuote)

/-! ## The grammar of strings -/

/-- The escapes of one character and what they denote. -/
def escapes : List (Char × Char) :=
  [(backslash, backslash), (apostrophe, apostrophe), (doubleQuote, doubleQuote), ('n', '\n'),
   ('t', '\t'), ('r', '\r')]

/-- The hexadecimal digits and their values. -/
def hexDigits : List (Char × Nat) :=
  "0123456789abcdef".toList.zipIdx ++ "ABCDEF".toList.zipIdx 10

/-- The text spells the character inside a string between the quotes. -/
inductive StringItem (quote : Char) : List Char → Char → Prop
  | plain {c : Char} : c ≠ quote → c ≠ backslash → StringItem quote [c] c
  | escaped {c d : Char} : (c, d) ∈ escapes → StringItem quote [backslash, c] d
  | scalar {digits : List Char} {values : List Nat} :
      List.Forall₂ (fun d v => (d, v) ∈ hexDigits) digits values →
      1 ≤ digits.length → digits.length ≤ 6 → (Nat.ofDigits 16 values.reverse).isValidChar →
      StringItem quote (backslash :: 'u' :: '\x7b' :: (digits ++ ['\x7d']))
        (Char.ofNat (Nat.ofDigits 16 values.reverse))

/-- The text is a string literal: items that spell the characters, between two quotes of one kind. -/
def IsStringLiteral (text value : List Char) : Prop :=
  ∃ quote ∈ [apostrophe, doubleQuote], ∃ items,
    List.Forall₂ (StringItem quote) items value ∧ text = quote :: (items.flatten ++ [quote])

namespace Lexer

/-! ## Digits and escapes -/

/-- The escapes of one character are those of the table. -/
lemma simpleEscape?_eq_some_iff {c d : Char} : simpleEscape? c = some d ↔ (c, d) ∈ escapes := by
  simp only [simpleEscape?, escapes, List.mem_cons, Prod.mk.injEq, List.not_mem_nil, or_false]
  split_ifs with hself hn ht hr
  · have hletters : c ≠ 'n' ∧ c ≠ 't' ∧ c ≠ 'r' := by
      rcases hself with rfl | rfl | rfl <;> decide
    simp only [Option.some.injEq, hletters, false_and, or_false]
    constructor
    · rintro rfl
      exact hself.imp (fun h => ⟨h, h⟩) (Or.imp (fun h => ⟨h, h⟩) fun h => ⟨h, h⟩)
    · rintro (⟨rfl, rfl⟩ | ⟨rfl, rfl⟩ | ⟨rfl, rfl⟩) <;> rfl
  all_goals simp_all [eq_comm]

/-- A hexadecimal digit has its value. -/
lemma of_mem_hexDigits {d : Char} {v : Nat} (h : (d, v) ∈ hexDigits) :
    isHexDigit d = true ∧ hexValue d = v := by
  have hall : ∀ p ∈ hexDigits, isHexDigit p.1 = true ∧ hexValue p.1 = p.2 := by decide
  exact hall (d, v) h

/-- A hexadecimal digit is in the table with its value. -/
lemma mem_hexDigits {d : Char} (h : isHexDigit d = true) : (d, hexValue d) ∈ hexDigits := by
  have hall : ∀ n < 103, isHexDigit (Char.ofNat n) = true →
      (Char.ofNat n, hexValue (Char.ofNat n)) ∈ hexDigits := by decide
  have hbound : d.toNat < 103 := by
    simp only [isHexDigit, Char.isDigit, Bool.or_eq_true, Bool.and_eq_true, decide_eq_true_eq] at h
    rcases h with (⟨-, h⟩ | ⟨-, h⟩) | ⟨-, h⟩
    · exact Nat.lt_of_le_of_lt (m := 57) h (by decide)
    · exact Nat.lt_of_le_of_lt (m := 102) h (by decide)
    · exact Nat.lt_of_le_of_lt (m := 70) h (by decide)
  have hmem := hall d.toNat hbound
  rw [Char.ofNat_toNat] at hmem
  exact hmem h

/-- Hexadecimal digits are read as a number to the base sixteen. -/
lemma foldl_hexValue {digits : List Char} {values : List Nat}
    (h : List.Forall₂ (fun d v => (d, v) ∈ hexDigits) digits values) (n : Nat) :
    digits.foldl (fun n d => 16 * n + hexValue d) n =
      16 ^ digits.length * n + Nat.ofDigits 16 values.reverse := by
  induction h generalizing n with
  | nil => simp
  | @cons d v digits values hd hrest ih =>
    rw [List.foldl_cons, ih, (of_mem_hexDigits hd).2, List.reverse_cons, Nat.ofDigits_append,
      Nat.ofDigits_singleton, List.length_reverse, List.length_cons, hrest.length_eq]
    ring

/-- A code point in braces is read as the character that it names. -/
lemma bracedScalar?_digits {digits : List Char} {values : List Nat}
    (h : List.Forall₂ (fun d v => (d, v) ∈ hexDigits) digits values) (hsome : 1 ≤ digits.length)
    (hsix : digits.length ≤ 6) (hscalar : (Nat.ofDigits 16 values.reverse).isValidChar)
    (rest : List Char) :
    bracedScalar? ('\x7b' :: (digits ++ '\x7d' :: rest)) =
      some (Char.ofNat (Nat.ofDigits 16 values.reverse), digits.length + 2) := by
  have hhex : ∀ d ∈ digits, isHexDigit d = true := by
    clear hsome hsix hscalar
    induction h with
    | nil => exact List.forall_mem_nil _
    | cons hd _ ih => exact List.forall_mem_cons.mpr ⟨(of_mem_hexDigits hd).1, ih⟩
  have hfails : HeadFails isHexDigit ('\x7d' :: rest) := headFails_cons (by decide)
  have hnumber := foldl_hexValue h 0
  rw [Nat.mul_zero, Nat.zero_add] at hnumber
  simp [bracedScalar?, takeWhile_append_of_headFails hhex hfails,
    dropWhile_append_of_headFails hhex hfails, hsome, hsix, hnumber, scalar?, hscalar]

/-- What is read as a code point in braces is one. -/
lemma exists_digits_of_bracedScalar? {cs : List Char} {d : Char} {n : Nat}
    (h : bracedScalar? cs = some (d, n)) :
    ∃ digits values rest, List.Forall₂ (fun d v => (d, v) ∈ hexDigits) digits values ∧
      1 ≤ digits.length ∧ digits.length ≤ 6 ∧ (Nat.ofDigits 16 values.reverse).isValidChar ∧
      cs = '\x7b' :: (digits ++ '\x7d' :: rest) ∧
      d = Char.ofNat (Nat.ofDigits 16 values.reverse) ∧ n = digits.length + 2 := by
  unfold bracedScalar? at h
  simp only at h
  split_ifs at h with hguard
  obtain ⟨hopen, hclose, hsome, hsix⟩ := hguard
  obtain ⟨cs, rfl⟩ := List.head?_eq_some_iff.mp hopen
  obtain ⟨rest, hrest⟩ := List.head?_eq_some_iff.mp hclose
  simp only [List.drop_one, List.tail_cons] at h hsome hsix hrest
  have hvalues : List.Forall₂ (fun d v => (d, v) ∈ hexDigits) (cs.takeWhile isHexDigit)
      ((cs.takeWhile isHexDigit).map hexValue) := by
    refine List.forall₂_map_right_iff.mpr (List.forall₂_same.mpr fun c hc => ?_)
    exact mem_hexDigits (List.all_eq_true.mp List.all_takeWhile c hc)
  have hnumber := foldl_hexValue hvalues 0
  rw [Nat.mul_zero, Nat.zero_add] at hnumber
  rw [hnumber, scalar?] at h
  split_ifs at h with hscalar
  case neg => cases h
  obtain ⟨rfl, rfl⟩ : _ = d ∧ _ = n := by simpa using h
  refine ⟨_, _, rest, hvalues, hsome, hsix, hscalar, ?_, rfl, rfl⟩
  rw [← hrest, List.takeWhile_append_dropWhile]

/-! ## Reading items -/

variable {quote : Char} {rest : List Char} {value : List Char} {count : Nat}

/-- The characters of an escape that has been resolved are counted only. -/
lemma stringBody_pass (hrest : ∀ offset, stringBody quote offset 0 rest = .ok (value, count))
    (taken : List Char) (offset : Nat) :
    stringBody quote offset taken.length (taken ++ rest) = .ok (value, count + taken.length) := by
  induction taken generalizing offset with
  | nil => exact hrest offset
  | cons c cs ih =>
    rw [List.length_cons, List.cons_append, stringBody, ih]
    rfl

/-- An item gives the character that it spells.

**Proof sketch.** By cases on the item. A plain character is read at once. Behind a backslash the
escape is resolved first and its characters are passed over (`stringBody_pass`): one for a simple
escape, and the braces with their digits for a scalar. -/
lemma stringBody_item (hquote : quote ≠ backslash) {item : List Char} {d : Char}
    (hitem : StringItem quote item d)
    (hrest : ∀ offset, stringBody quote offset 0 rest = .ok (value, count)) (offset : Nat) :
    stringBody quote offset 0 (item ++ rest) = .ok (d :: value, count + item.length) := by
  have hslash : ¬backslash = quote := fun h => hquote h.symm
  cases hitem with
  | plain hne hplain =>
    unfold stringBody
    simp only [List.singleton_append, if_neg hne, if_neg hplain, hrest]
    rfl
  | @escaped c d hescape =>
    have hread : escape c rest = .ok (d, 1) := by
      rw [escape, simpleEscape?_eq_some_iff.mpr hescape]
    have hpass := stringBody_pass hrest [c] (offset + backslash.utf8Size)
    rw [List.length_singleton, List.singleton_append] at hpass
    unfold stringBody
    simp only [List.cons_append, List.nil_append, if_neg hslash, if_true, hread, hpass]
    rfl
  | @scalar digits values hvalues hsome hsix hscalar =>
    have hletter : simpleEscape? 'u' = none := by decide
    have hread : escape 'u' ('\x7b' :: (digits ++ '\x7d' :: rest)) =
        .ok (Char.ofNat (Nat.ofDigits 16 values.reverse), digits.length + 3) := by
      rw [escape, hletter]
      simp only [if_true, bracedScalar?_digits hvalues hsome hsix hscalar]
    have hpass := stringBody_pass hrest ('u' :: '\x7b' :: (digits ++ ['\x7d']))
      (offset + backslash.utf8Size)
    have hlength : ('u' :: '\x7b' :: (digits ++ ['\x7d'])).length = digits.length + 3 := by simp
    rw [hlength] at hpass
    simp only [List.cons_append, List.append_assoc, List.nil_append] at hpass ⊢
    unfold stringBody
    simp only [if_neg hslash, if_true, hread, hpass, List.length_cons, List.length_append,
      List.length_nil]
    rfl

/-- A row of items gives the characters that they spell. -/
lemma stringBody_items (hquote : quote ≠ backslash) {items : List (List Char)}
    (h : List.Forall₂ (StringItem quote) items value) (rest : List Char) (offset : Nat) :
    stringBody quote offset 0 (items.flatten ++ quote :: rest) =
      .ok (value, items.flatten.length + 1) := by
  induction h generalizing offset with
  | nil =>
    unfold stringBody
    simp
  | @cons item d items value hitem _ ih =>
    rw [List.flatten_cons, List.append_assoc, stringBody_item hquote hitem ih]
    simp only [List.length_append]
    congr 2
    omega

/-- What stands behind a backslash and is read as an escape, with the backslash, spells what it
denotes.

**Proof sketch.** By cases on what `escape` finds. A simple escape is one character long; a scalar
is as long as its braces and digits, so the characters passed over are these. -/
lemma stringItem_of_escape {e d : Char} {more passed behind : List Char} {n : Nat}
    (h : escape e more = .ok (d, n)) (hpassed : e :: more = passed ++ behind)
    (hlength : passed.length = n) : StringItem quote (backslash :: passed) d := by
  unfold escape at h
  split at h
  · rename_i found hfound
    cases h
    obtain ⟨c, rfl⟩ := List.length_eq_one_iff.mp hlength
    obtain ⟨rfl, -⟩ := List.cons.inj hpassed
    exact .escaped (simpleEscape?_eq_some_iff.mp hfound)
  · split_ifs at h with hletter
    split at h
    · rename_i c m hscalar
      cases h
      subst hletter
      obtain ⟨digits, values, rest, hvalues, hsome, hsix, hvalid, rfl, rfl, rfl⟩ :=
        exists_digits_of_bracedScalar? hscalar
      have hsplit : 'u' :: '\x7b' :: (digits ++ ['\x7d']) ++ rest = passed ++ behind := by
        simpa using hpassed
      have htext : 'u' :: '\x7b' :: (digits ++ ['\x7d']) = passed :=
        (List.append_inj hsplit (by simp [hlength])).1
      rw [← htext]
      exact .scalar hvalues hsome hsix hvalid
    · cases h

/-- What is read up to the closing quote is a row of items, behind the characters that are counted
only.

**Proof sketch.** By induction on the text. A character that is still counted belongs to an escape
resolved before; a closing quote ends the row; a backslash begins an item, which takes the
characters that the induction hypothesis passes over; any other character is an item by itself. -/
lemma exists_items_of_stringBody {cs : List Char} {offset skip : Nat}
    (h : stringBody quote offset skip cs = .ok (value, count)) :
    ∃ passed items rest, cs = passed ++ (items.flatten ++ quote :: rest) ∧ passed.length = skip ∧
      List.Forall₂ (StringItem quote) items value ∧ count = skip + items.flatten.length + 1 := by
  induction cs generalizing offset skip value count with
  | nil => simp [stringBody] at h
  | cons c cs ih =>
    unfold stringBody at h
    cases skip with
    | succ skip =>
      obtain ⟨value, n, hrest, rfl, rfl⟩ := exists_of_behind id h
      obtain ⟨passed, items, rest, rfl, rfl, hitems, rfl⟩ := ih hrest
      exact ⟨c :: passed, items, rest, rfl, rfl, hitems, by omega⟩
    | zero =>
      simp only at h
      split_ifs at h with hquote hslash
      · cases h
        exact ⟨[], [], cs, by simp [hquote], rfl, .nil, rfl⟩
      · cases cs with
        | nil => cases h
        | cons e more =>
          simp only at h
          cases hescape : escape e more with
          | error fault => simp [hescape] at h
          | ok found =>
            simp only [hescape] at h
            obtain ⟨value, n, hrest, rfl, rfl⟩ := exists_of_behind (found.1 :: ·) h
            obtain ⟨passed, items, rest, hcs, hpassed, hitems, rfl⟩ := ih hrest
            have hitem : StringItem quote (backslash :: passed) found.1 :=
              stringItem_of_escape hescape hcs hpassed
            refine ⟨[], (backslash :: passed) :: items, rest, ?_, rfl, .cons hitem hitems, ?_⟩
            · rw [hcs, hslash]
              simp
            · simp only [List.flatten_cons, List.length_append, List.length_cons]
              omega
      · obtain ⟨value, n, hrest, rfl, rfl⟩ := exists_of_behind (c :: ·) h
        obtain ⟨passed, items, rest, hcs, hpassed, hitems, rfl⟩ := ih hrest
        obtain rfl := List.eq_nil_of_length_eq_zero hpassed
        refine ⟨[], [c] :: items, rest, by simp [hcs], rfl, .cons (.plain hquote hslash) hitems, ?_⟩
        simp only [List.flatten_cons, List.length_append, List.length_singleton]
        omega

/-! ## Tokens and readers -/

variable {c : Char} {cs : List Char} {n : Nat}

/-- How the literal is read: a string behind its quote, a date or a datetime behind `D`, and a
duration from `P` on. -/
def IsRead (c : Char) (cs : List Char) (n : Nat) : Literal → Prop
  | .string value => (c = apostrophe ∨ c = doubleQuote) ∧
      string c cs = .ok (.literal (.string value), n)
  | .date iso => c = 'D' ∧ temporal cs = .ok (.literal (.date iso), n)
  | .dateTime iso => c = 'D' ∧ temporal cs = .ok (.literal (.dateTime iso), n)
  | .duration iso => c = 'P' ∧ startsDuration cs = true ∧
      duration (c :: cs) = .ok (.literal (.duration iso), n)
  | _ => True

/-- What is read from a digit on is a number, of which nothing more is asked. -/
lemma isRead_of_number {value : Literal} (h : number (c :: cs) = .ok (.literal value, n)) :
    IsRead c cs n value := by
  unfold number at h
  split at h
  · cases h
  · split_ifs at h
    simp only [numeralValue, literal, refuse] at h
    split_ifs at h
    · cases h
      trivial
    · split at h
      · split_ifs at h
        cases h
        trivial
      · cases h

/-- A literal is found by its own reader.

**Proof sketch.** The kinds of tokens are tried in turn. A literal comes from the reader of its own
kind, with the guard that led there, and a word or a punctuator is no literal. -/
lemma isRead_of_lexeme {value : Literal} (h : lexeme c cs = .ok (.literal value, n)) :
    IsRead c cs n value := by
  unfold lexeme at h
  split_ifs at h with _ hquote hdate hduration
  · exact isRead_of_number h
  · have hread := h
    unfold string at h
    split at h <;> cases h
    exact ⟨hquote, hread⟩
  · have hread := h
    unfold temporal at h
    split at h
    · cases h
    · dsimp only at h
      split_ifs at h <;> cases h
      all_goals exact ⟨hdate.1, hread⟩
  · have hread := h
    unfold duration at h
    split at h
    · cases h
    · split_ifs at h <;> cases h
      exact ⟨hduration.1, hduration.2, hread⟩
  · simp only [word] at h
    split at h <;> cases h
  · split at h <;> cases h

/-- The tokens of a text that starts with a token, whatever becomes of the rest. -/
lemma tokens_lexeme_append {kind : Token.Kind} {rest : List Char}
    (h : lexeme c (cs ++ rest) = .ok (kind, (c :: cs).length)) (offset : Nat) :
    tokens offset 0 (c :: cs ++ rest) =
      (tokens (offset + byteLength (c :: cs)) 0 rest).map
        (⟨kind, String.ofList (c :: cs), offset⟩ :: ·) := by
  cases hrest : tokens (offset + byteLength (c :: cs)) 0 rest with
  | ok ts => exact tokens_lexeme h hrest
  | error failure =>
    obtain ⟨hblank, hcomment⟩ := starts_of_lexeme h
    have hskip : tokens (offset + c.utf8Size) cs.length (cs ++ rest) = .error failure := by
      rw [tokens_skip, Nat.add_assoc]
      exact hrest
    rw [List.cons_append, tokens]
    simp [hblank, hcomment, h, hskip, Except.map]

end Lexer

/-- A literal among the tokens of a source is a token by itself. -/
lemma lexeme_of_tokenize {source : String} {ts : List Token} (h : tokenize source = .ok ts)
    {t : Token} (ht : t ∈ ts) {value : Literal} (hkind : t.kind = .literal value) :
    (Token.Kind.literal value).Lexeme t.text := by
  obtain ⟨init, rfl, hinit⟩ := (tokenize_eq_ok_iff.mp h).exists_init
  obtain ht | ht := List.mem_append.mp ht
  · rw [← hkind]
    exact (hinit t ht).2
  · rw [List.mem_singleton.mp ht] at hkind
    cases hkind

/-- Literals of the grammar are read as string tokens, and whatever follows them does not matter. -/
lemma IsStringLiteral.lexeme {text value : List Char} (h : IsStringLiteral text value) :
    ∃ c cs, text = c :: cs ∧ ∀ rest, Lexer.lexeme c (cs ++ rest) =
      .ok (.literal (.string (String.ofList value)), (c :: cs).length) := by
  obtain ⟨quote, hquote, items, hitems, rfl⟩ := h
  have hquote : quote = apostrophe ∨ quote = doubleQuote := by simpa using hquote
  have hmark : quote.isDigit = false ∧ quote ≠ backslash := by
    obtain rfl | rfl := hquote <;> decide
  refine ⟨quote, _, rfl, fun rest => ?_⟩
  have hbody := Lexer.stringBody_items hmark.2 hitems rest 1
  rw [List.append_assoc, List.singleton_append, Lexer.lexeme, hmark.1, if_neg (by decide),
    if_pos hquote, Lexer.string, hbody]
  simp

/-- String tokens are literals of the grammar. -/
lemma isStringLiteral_of_lexeme {text value : String}
    (h : (Token.Kind.literal (.string value)).Lexeme text) :
    IsStringLiteral text.toList value.toList := by
  obtain ⟨c, cs, htext, hlexeme⟩ := h
  obtain ⟨hquote, hread⟩ := Lexer.isRead_of_lexeme hlexeme
  unfold Lexer.string at hread
  split at hread
  · cases hread
  · rename_i ds count hbody
    simp only [Except.ok.injEq, Prod.mk.injEq, Token.Kind.literal.injEq, Literal.string.injEq]
      at hread
    obtain ⟨rfl, hlength⟩ := hread
    obtain ⟨passed, items, rest, hcs, hpassed, hitems, hcount⟩ :=
      Lexer.exists_items_of_stringBody hbody
    obtain rfl := List.eq_nil_of_length_eq_zero hpassed
    rw [List.nil_append] at hcs
    -- The token is as long as its text, so nothing stands behind the closing quote.
    obtain rfl : rest = [] := by
      rw [hcs, List.length_cons, List.length_append, List.length_cons] at hlength
      exact List.eq_nil_of_length_eq_zero (by omega)
    exact ⟨c, by simpa using hquote, items, by simpa using hitems, by simp [htext, hcs]⟩

/-- String literals and string tokens are the same. A literal of the grammar is read as one token of
what its items denote, up to its closing quote, and reading goes on behind it, whatever stands there.
Every string token of a source stands there as a literal of the grammar that denotes its value.

**Proof sketch.** From the grammar to the tokens, a literal is found whatever follows it
(`IsStringLiteral.lexeme`). From the tokens to the grammar, a string token is found by the reader of
strings, whose items are those of the grammar, and `Lexes.behind` says where it stands. -/
theorem stringLiteral_tokens :
    (∀ text value, IsStringLiteral text value → ∀ offset rest,
      Lexer.tokens offset 0 (text ++ rest) =
        (Lexer.tokens (offset + byteLength text) 0 rest).map
          (⟨.literal (.string (String.ofList value)), String.ofList text, offset⟩ :: ·)) ∧
    ∀ source ts, tokenize source = .ok ts → ∀ t ∈ ts, ∀ value,
      t.kind = .literal (.string value) →
        IsStringLiteral t.text.toList value.toList ∧
        ∃ before after, source = before ++ t.text ++ after ∧ before.utf8ByteSize = t.start ∧
          (before ++ t.text).utf8ByteSize = t.stop := by
  refine ⟨fun text value htext offset rest => ?_, fun source ts hts t ht value hkind => ⟨?_, ?_⟩⟩
  · obtain ⟨c, cs, rfl, hlexeme⟩ := htext.lexeme
    exact Lexer.tokens_lexeme_append (hlexeme rest) offset
  · exact isStringLiteral_of_lexeme (lexeme_of_tokenize hts ht hkind)
  · obtain ⟨front, more, rfl⟩ := List.append_of_mem ht
    obtain ⟨before, gap, rest, hsource, -, hstart, -⟩ := (tokenize_eq_ok_iff.mp hts).behind
    refine ⟨String.ofList (before ++ gap), String.ofList rest, ?_, ?_, ?_⟩
    · apply String.toList_injective
      simp [hsource]
    · simpa [utf8ByteSize_ofList] using hstart
    · rw [Token.stop, ← hstart]
      simp [utf8ByteSize_ofList]

/-- A literal with a plain character and escapes of both kinds. -/
def escapedLiteral : String := "'\\'é\\u\x7b1F600\x7d'"

/-- The tokens of that literal with a mark and a name behind it. -/
def escapedTokens : List Token :=
  [⟨.literal (.string "'é😀"), escapedLiteral, 0⟩, ⟨.punct .arrow, "~>", 15⟩, ⟨.ident "x", "x", 17⟩,
    Token.atEnd 18]

/-- The literal is read as its three characters, and stands in its source. -/
theorem stringLiteral_tokens_escapes :
    IsStringLiteral escapedLiteral.toList "'é😀".toList ∧
      tokenize (escapedLiteral ++ "~>x") = .ok escapedTokens ∧
      ∃ before after, escapedLiteral ++ "~>x" = before ++ escapedLiteral ++ after ∧
        before.utf8ByteSize = 0 ∧ (before ++ escapedLiteral).utf8ByteSize = 15 := by
  have hescape : StringItem apostrophe [backslash, apostrophe] apostrophe := .escaped (by decide)
  have hplain : StringItem apostrophe ['é'] 'é' := .plain (by decide) (by decide)
  have hdigits : List.Forall₂ (fun d v => (d, v) ∈ hexDigits) "1F600".toList [1, 15, 6, 0, 0] :=
    .cons (by decide) (.cons (by decide) (.cons (by decide) (.cons (by decide)
      (.cons (by decide) .nil))))
  have hscalar : StringItem apostrophe _ '😀' := .scalar hdigits (by decide) (by decide) (by decide)
  have hliteral : IsStringLiteral escapedLiteral.toList "'é😀".toList :=
    ⟨apostrophe, by decide, _, .cons hescape (.cons hplain (.cons hscalar .nil)), by decide⟩
  have hrest : Lexer.tokens 15 0 "~>x".toList = .ok escapedTokens.tail := by cbv
  have hfound := stringLiteral_tokens.1 _ _ hliteral 0 "~>x".toList
  have hlength : 0 + byteLength escapedLiteral.toList = 15 := by decide
  rw [hlength, hrest, ← String.toList_append] at hfound
  have htokens : tokenize (escapedLiteral ++ "~>x") = .ok escapedTokens := by
    rw [tokenize, hfound]
    simp only [String.ofList_toList]
    rfl
  exact ⟨hliteral, htokens, (stringLiteral_tokens.2 _ _ htokens _ List.mem_cons_self _ rfl).2⟩

end Retarget
