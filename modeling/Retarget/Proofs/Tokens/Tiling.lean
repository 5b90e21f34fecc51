import Mathlib
import Retarget.Proofs.Tokens.Truncation

set_option autoImplicit false

/-!
# Tokens and the text between them

Tokens and gaps take turns in a source, a gap being blanks and comments. Each token is what is found
at its place; so it is found again behind any other gap, since a gap starts with a character that no
token reaches over, and it is found again if the source ends behind it.

## Main definitions

* `Retarget.Lexer.IsGap`, `Retarget.Lexer.IsFiller` — texts that hold no token.
* `Retarget.Lexer.Lexes` — a text is tokens with gaps between them.

## Main results

* `Retarget.Lexer.tokens_eq_ok_iff` — the tokens of a text are those that it is made of.
* `Retarget.Lexer.Lexes.behind`, `Retarget.Lexer.Lexes.upTo`, `Retarget.Lexer.Lexes.back` — the
  tokens of a part of a text.
* `Retarget.tokenize_tiles` — tokens tile the source, and their layout does not matter.
-/

namespace Retarget

/-! ## Bytes -/

/-- The bytes of two texts are those of both. -/
@[simp] lemma byteLength_append (cs ds : List Char) :
    byteLength (cs ++ ds) = byteLength cs + byteLength ds := by
  induction cs with
  | nil => simp [byteLength]
  | cons c cs ih => rw [List.cons_append, byteLength, byteLength, ih, Nat.add_assoc]

/-- A text has as many bytes as its characters. -/
lemma utf8ByteSize_ofList (cs : List Char) : (String.ofList cs).utf8ByteSize = byteLength cs := by
  induction cs with
  | nil => rfl
  | cons c cs ih =>
    rw [String.ofList_cons, String.utf8ByteSize_append, String.utf8ByteSize_singleton, ih,
      byteLength]

/-- The characters of a text have as many bytes as it. -/
@[simp] lemma byteLength_toList (s : String) : byteLength s.toList = s.utf8ByteSize := by
  rw [← utf8ByteSize_ofList, String.ofList_toList]

namespace Token

/-- A token stops as many bytes behind its start as it has. -/
lemma stop_ofList (kind : Token.Kind) (cs : List Char) (start : Nat) :
    (⟨kind, String.ofList cs, start⟩ : Token).stop = start + byteLength cs := by
  rw [stop, utf8ByteSize_ofList]

/-- The token as it stands in a text that starts `d` bytes later. -/
def back (d : Nat) (t : Token) : Token := { t with start := t.start - d }

/-- A token keeps its kind in another text. -/
@[simp] lemma back_kind (d : Nat) (t : Token) : (t.back d).kind = t.kind := rfl

/-- A token keeps its text in another text. -/
@[simp] lemma back_text (d : Nat) (t : Token) : (t.back d).text = t.text := rfl

/-- A token starts earlier in a text that starts later. -/
@[simp] lemma back_start (d : Nat) (t : Token) : (t.back d).start = t.start - d := rfl

/-- A token stops earlier in a text that starts later. -/
lemma back_stop {d : Nat} {t : Token} (h : d ≤ t.start) : (t.back d).stop = t.stop - d := by
  simp only [stop, back_start, back_text]
  omega

end Token

namespace Lexer

/-! ## Gaps -/

/-- Text that only separates tokens: blanks, and comments with the newlines that end them. -/
inductive IsGap : List Char → Prop
  | nil : IsGap []
  | blank {c : Char} {cs : List Char} : isBlank c = true → IsGap cs → IsGap (c :: cs)
  | comment {text cs : List Char} : '\n' ∉ text → IsGap cs → IsGap ('#' :: (text ++ '\n' :: cs))

/-- Text that holds no token: a gap, behind which a comment may run up to the end of the text. -/
def IsFiller (cs : List Char) : Prop :=
  IsGap cs ∨ ∃ gap text, IsGap gap ∧ '\n' ∉ text ∧ cs = gap ++ '#' :: text

/-- A gap that is not empty starts with a character that separates tokens. -/
lemma IsGap.exists_separator {gap : List Char} (h : IsGap gap) (hne : gap ≠ []) :
    ∃ d ∈ separators, ∃ more, gap = d :: more := by
  cases h with
  | nil => exact absurd rfl hne
  | @blank c cs hc _ =>
    refine ⟨c, ?_, cs, rfl⟩
    simp only [isBlank, List.mem_cons, List.not_mem_nil, or_false, decide_eq_true_eq] at hc
    simp only [separators, List.mem_cons]
    tauto
  | comment _ _ => exact ⟨'#', by decide, _, rfl⟩

/-- A comment ends at the next newline. -/
lemma takeWhile_newline {text cs : List Char} (h : '\n' ∉ text) :
    (text ++ '\n' :: cs).takeWhile (· != '\n') = text := by
  refine takeWhile_append_of_headFails (fun c hc => ?_) ?_
  · exact bne_iff_ne.mpr fun heq => h (heq ▸ hc)
  · rintro c ⟨⟩
    rfl

/-- Gaps are passed over. -/
lemma tokens_gap {gap : List Char} (h : IsGap gap) (offset : Nat) (rest : List Char) :
    tokens offset 0 (gap ++ rest) = tokens (offset + byteLength gap) 0 rest := by
  induction h generalizing offset with
  | nil => rfl
  | @blank c cs hc _ ih => simp only [List.cons_append, tokens, hc, if_true, ih, byteLength, Nat.add_assoc]
  | @comment text cs htext _ ih =>
    have hmark : isBlank '#' = false := by decide
    have hend : isBlank '\n' = true := by decide
    simp only [List.cons_append, List.append_assoc, tokens, hmark, takeWhile_newline htext,
      tokens_skip, hend, if_true, ih, byteLength, byteLength_append]
    simp [Nat.add_assoc]

/-- Fillers hold no token. -/
lemma tokens_filler {cs : List Char} (h : IsFiller cs) (offset : Nat) :
    tokens offset 0 cs = .ok [Token.atEnd (offset + byteLength cs)] := by
  obtain hgap | ⟨gap, text, hgap, htext, rfl⟩ := h
  · have := tokens_gap hgap offset []
    rwa [List.append_nil] at this
  · have hall : text.takeWhile (· != '\n') = text :=
      List.takeWhile_eq_self_iff.mpr fun c hc => bne_iff_ne.mpr fun heq => htext (heq ▸ hc)
    have hmark : isBlank '#' = false := by decide
    have hskip := tokens_skip (offset + byteLength gap + '#'.utf8Size) text []
    rw [List.append_nil] at hskip
    rw [tokens_gap hgap, tokens]
    simp only [hmark, hall, hskip, tokens, byteLength, byteLength_append]
    simp [Nat.add_assoc]

/-! ## Texts as tokens and gaps -/

/-- The text at the byte offset is made of the tokens and of gaps before them; the last token marks
the end. -/
inductive Lexes : Nat → List Char → List Token → Prop
  | done {offset : Nat} {cs : List Char} : IsFiller cs →
      Lexes offset cs [Token.atEnd (offset + byteLength cs)]
  | token {offset : Nat} {gap : List Char} {c : Char} {cs rest : List Char} {kind : Token.Kind}
      {ts : List Token} : IsGap gap → lexeme c (cs ++ rest) = .ok (kind, cs.length + 1) →
      Lexes (offset + byteLength gap + byteLength (c :: cs)) rest ts →
      Lexes offset (gap ++ (c :: cs ++ rest))
        (⟨kind, String.ofList (c :: cs), offset + byteLength gap⟩ :: ts)

section Steps

variable {offset : Nat} {c : Char} {cs : List Char} {ts : List Token}

/-- More of a gap in front of a text. -/
lemma Lexes.gap (gap : List Char) (h : Lexes (offset + byteLength gap) cs ts)
    (hgap : ∀ more, IsGap more → IsGap (gap ++ more)) : Lexes offset (gap ++ cs) ts := by
  generalize hstart : offset + byteLength gap = start at h
  cases h with
  | done hcs =>
    have hfiller : IsFiller (gap ++ cs) := by
      obtain hcs | ⟨more, text, hmore, htext, rfl⟩ := hcs
      · exact .inl (hgap cs hcs)
      · exact .inr ⟨gap ++ more, text, hgap more hmore, htext, by simp⟩
    have hdone : Lexes offset _ [Token.atEnd (offset + byteLength (gap ++ cs))] := .done hfiller
    rwa [byteLength_append, ← Nat.add_assoc, hstart] at hdone
  | @token _ more c cs rest kind ts hmore hlexeme hrest =>
    have htoken : Lexes offset (gap ++ more ++ (c :: cs ++ rest))
        (⟨kind, String.ofList (c :: cs), offset + byteLength (gap ++ more)⟩ :: ts) :=
      .token (hgap more hmore) hlexeme (by rwa [byteLength_append, ← Nat.add_assoc, hstart])
    rwa [byteLength_append, ← Nat.add_assoc, hstart, List.append_assoc] at htoken

/-- A comment up to the end of its line or of the text. -/
lemma exists_of_comment (cs : List Char) :
    '\n' ∉ cs ∧ cs.takeWhile (· != '\n') = cs ∨ ∃ text rest, '\n' ∉ text ∧
      cs = text ++ '\n' :: rest ∧ cs.takeWhile (· != '\n') = text := by
  have htext : '\n' ∉ cs.takeWhile (· != '\n') := fun h => by
    simpa using List.mem_takeWhile_imp h
  have hsplit := List.takeWhile_append_dropWhile (p := (· != '\n')) (l := cs)
  cases hrest : cs.dropWhile (· != '\n') with
  | nil =>
    rw [hrest, List.append_nil] at hsplit
    exact .inl ⟨hsplit ▸ htext, hsplit⟩
  | cons c rest =>
    have hc := List.head?_dropWhile_not (· != '\n') cs
    rw [hrest] at hc hsplit
    obtain rfl : c = '\n' := by simpa using hc
    exact .inr ⟨_, rest, htext, hsplit.symm, rfl⟩

/-- The tokens that are found are what the text is made of.

**Proof sketch.** By strong induction on the length of the text, as a token or a comment takes
several characters at once. A blank and a comment go to the gap before the next token; a token is
found by `lexeme`, which takes a part off the front (`local_lexeme`). -/
lemma lexes_of_tokens (h : tokens offset 0 cs = .ok ts) : Lexes offset cs ts := by
  induction hn : cs.length using Nat.strongRecOn generalizing offset cs ts with
  | _ n ih =>
    subst hn
    cases cs with
    | nil =>
      cases h
      exact .done (.inl .nil)
    | cons c cs =>
      rw [tokens] at h
      split_ifs at h with hblank hmark
      · have hcs := ih cs.length (Nat.lt_succ_self _) h rfl
        exact Lexes.gap [c] hcs fun more => IsGap.blank hblank
      · subst hmark
        -- A comment runs to the end of the text or to the end of its line.
        obtain ⟨hcs, htake⟩ | ⟨text, rest, htext, rfl, htake⟩ := exists_of_comment cs
        · have hfiller : IsFiller ('#' :: cs) := .inr ⟨[], cs, .nil, hcs, rfl⟩
          have hskip := tokens_skip (offset + '#'.utf8Size) cs []
          rw [List.append_nil] at hskip
          rw [htake, hskip] at h
          cases h
          have hdone : Lexes offset _ [Token.atEnd (offset + byteLength ('#' :: cs))] := .done hfiller
          rwa [byteLength, ← Nat.add_assoc] at hdone
        · have hend : isBlank '\n' = true := by decide
          rw [htake, tokens_skip, tokens] at h
          simp only [hend, if_true] at h
          have hrest := ih rest.length (by simp; omega) h rfl
          have hcomment (more : List Char) (hmore : IsGap more) :
              IsGap ('#' :: (text ++ ['\n']) ++ more) := by
            rw [List.cons_append, List.append_assoc]
            exact .comment htext hmore
          have hlexes : Lexes offset ('#' :: (text ++ ['\n']) ++ rest) ts :=
            .gap _ (by simpa [byteLength, Nat.add_assoc] using hrest) hcomment
          simpa using hlexes
      · cases hfound : lexeme c cs with
        | error failure => simp [hfound] at h
        | ok found =>
          obtain ⟨kind, length⟩ := found
          obtain ⟨x, rest, rfl, rfl, -⟩ := local_lexeme c cs kind length hfound
          rw [hfound] at h
          simp only [Nat.add_sub_cancel, tokens_skip, List.take_left'] at h
          cases hmore : tokens (offset + c.utf8Size + byteLength x) 0 rest with
          | error failure => simp [hmore] at h
          | ok ts' =>
            simp only [hmore, Except.ok.injEq] at h
            subst h
            have hless : rest.length < (c :: (x ++ rest)).length := by
              rw [List.length_cons, List.length_append]
              omega
            have hrest := ih rest.length hless hmore rfl
            exact Lexes.token .nil hfound (by simpa [byteLength, Nat.add_assoc] using hrest)

/-- What the text is made of is found. -/
lemma tokens_of_lexes (h : Lexes offset cs ts) : tokens offset 0 cs = .ok ts := by
  induction h with
  | done hcs => exact tokens_filler hcs _
  | token hgap hlexeme _ ih =>
    rw [tokens_gap hgap]
    exact tokens_lexeme hlexeme ih

/-- The lexer finds the tokens that the text is made of, and no others. -/
theorem tokens_eq_ok_iff : tokens offset 0 cs = .ok ts ↔ Lexes offset cs ts :=
  ⟨lexes_of_tokens, tokens_of_lexes⟩

end Steps

/-! ## Parts of a text -/

namespace Lexes

variable {offset : Nat} {cs : List Char} {t : Token} {ts front used more : List Token}

/-- The last token marks the end of the text, and the others have a text of their own. -/
lemma exists_init (h : Lexes offset cs ts) :
    ∃ init, ts = init ++ [Token.atEnd (offset + byteLength cs)] ∧
      ∀ t ∈ init, t.start < t.stop ∧ t.kind.Lexeme t.text := by
  induction h with
  | done _ => exact ⟨[], rfl, List.forall_mem_nil _⟩
  | @token offset gap c cs rest kind ts _ hlexeme _ ih =>
    obtain ⟨init, rfl, hinit⟩ := ih
    refine ⟨⟨kind, String.ofList (c :: cs), offset + byteLength gap⟩ :: init, ?_,
      List.forall_mem_cons.mpr ⟨⟨?_, c, cs, String.toList_ofList, ?_⟩, hinit⟩⟩
    · rw [byteLength_append, byteLength_append, List.cons_append, Nat.add_assoc, Nat.add_assoc]
    · rw [Token.stop_ofList, byteLength]
      exact Nat.lt_add_of_pos_right (Nat.add_pos_left c.utf8Size_pos _)
    · obtain ⟨x, rest', hcs, hx, hlocal⟩ := local_lexeme c _ _ _ hlexeme
      obtain ⟨rfl, rfl⟩ := List.append_inj hcs (by omega)
      have halone := hlocal [] rest rfl
      rwa [List.append_nil] at halone

/-- The tokens stand one behind another, all behind the offset. -/
lemma pairwise (h : Lexes offset cs ts) :
    (∀ t ∈ ts, offset ≤ t.start) ∧ ts.Pairwise fun a b => a.stop ≤ b.start := by
  induction h with
  | done _ => simp [Token.atEnd]
  | @token offset gap c cs rest kind ts _ _ _ ih =>
    obtain ⟨hstart, hpairs⟩ := ih
    refine ⟨List.forall_mem_cons.mpr ⟨Nat.le_add_right _ _, fun t ht => ?_⟩,
      List.pairwise_cons.mpr ⟨fun t ht => ?_, hpairs⟩⟩
    · have := hstart t ht
      omega
    · rw [Token.stop_ofList]
      exact hstart t ht

/-- The gap before a token, and the text from the token on.

**Proof sketch.** By induction on the tokens before it. The first token has its own gap before it,
and what comes before a later one is the gap, the text of the first token and what comes before it
in the rest. -/
lemma behind (h : Lexes offset cs (front ++ t :: ts)) :
    ∃ before gap rest, cs = before ++ (gap ++ (t.text.toList ++ rest)) ∧
      offset + byteLength before = (front.getLast?.map Token.stop).getD offset ∧
      offset + byteLength before + byteLength gap = t.start ∧ IsFiller gap ∧
      (ts ≠ [] → IsGap gap) ∧ Lexes t.start (t.text.toList ++ rest) (t :: ts) := by
  induction front generalizing offset cs with
  | nil =>
    cases h with
    | done hcs =>
      refine ⟨[], cs, [], by simp [Token.atEnd], rfl, rfl, hcs, fun hts => absurd rfl hts, ?_⟩
      exact .done (.inl .nil)
    | @token _ gap c cs rest kind ts hgap hlexeme hrest =>
      refine ⟨[], gap, rest, by simp, rfl, rfl, .inl hgap, fun _ => hgap, ?_⟩
      rw [String.toList_ofList]
      exact .token .nil hlexeme hrest
  | cons a front ih =>
    generalize hall : a :: front ++ t :: ts = all at h
    cases h with
    | done _ => simp at hall
    | @token _ gap₀ c cs₀ rest₀ kind ts₀ _ _ hrest =>
      obtain ⟨rfl, rfl⟩ := List.cons.inj hall
      obtain ⟨before, gap, rest, rfl, hbefore, hstart, hgap⟩ := ih hrest
      refine ⟨gap₀ ++ (c :: cs₀ ++ before), gap, rest, by simp, ?_, ?_, hgap⟩
      · rw [List.getLast?_cons, byteLength_append, byteLength_append, ← Nat.add_assoc,
          ← Nat.add_assoc, hbefore]
        cases front.getLast? with
        | none => exact (Token.stop_ofList _ _ _).symm
        | some b => rfl
      · rw [byteLength_append, byteLength_append, ← Nat.add_assoc, ← Nat.add_assoc, hstart]

/-- The tokens of a text that ends behind one of them.

**Proof sketch.** By induction on the tokens before it. Each of them is found in the shorter text as
well, since `lexeme` looks at nothing behind what it takes (`local_lexeme`). -/
lemma upTo (h : Lexes offset cs (used ++ t :: more)) (hmore : more ≠ []) :
    ∃ text rest, cs = text ++ rest ∧ offset + byteLength text = t.stop ∧
      Lexes offset text (used ++ [t, Token.atEnd t.stop]) := by
  induction used generalizing offset cs with
  | nil =>
    cases h with
    | done _ => exact absurd rfl hmore
    | @token _ gap c cs rest kind ts hgap hlexeme _ =>
      obtain ⟨x, rest', hcs, hx, hlocal⟩ := local_lexeme c _ _ _ hlexeme
      obtain ⟨rfl, rfl⟩ := List.append_inj hcs (by omega)
      refine ⟨gap ++ (c :: cs ++ []), rest, by simp, ?_, ?_⟩
      · rw [List.append_nil, byteLength_append, Token.stop_ofList, Nat.add_assoc]
      · rw [List.nil_append, Token.stop_ofList]
        exact .token hgap (hlocal [] rest rfl) (.done (.inl .nil))
  | cons a used ih =>
    generalize hall : a :: used ++ t :: more = all at h
    cases h with
    | done _ => simp at hall
    | @token _ gap c cs rest kind ts hgap hlexeme hrest =>
      obtain ⟨rfl, rfl⟩ := List.cons.inj hall
      obtain ⟨text, rest, rfl, hstop, htext⟩ := ih hrest
      obtain ⟨x, rest', hcs, hx, hlocal⟩ := local_lexeme c _ _ _ hlexeme
      obtain ⟨rfl, rfl⟩ := List.append_inj hcs (by omega)
      refine ⟨gap ++ (c :: cs ++ text), rest, by simp, ?_, ?_⟩
      · rw [byteLength_append, byteLength_append, ← Nat.add_assoc, ← Nat.add_assoc, hstop]
      · exact .token hgap (hlocal text rest rfl) htext

/-- The tokens of the same text at an earlier place. -/
lemma back {d : Nat} (h : Lexes offset cs ts) (hd : d ≤ offset) :
    Lexes (offset - d) cs (ts.map (Token.back d)) := by
  induction h with
  | @done offset cs hcs =>
    have hdone : Lexes (offset - d) cs [Token.atEnd (offset - d + byteLength cs)] := .done hcs
    rwa [← Nat.sub_add_comm hd] at hdone
  | @token offset gap c cs rest kind ts hgap hlexeme _ ih =>
    have hrest := ih (by omega)
    have htoken : Lexes (offset - d) (gap ++ (c :: cs ++ rest))
        (⟨kind, String.ofList (c :: cs), offset - d + byteLength gap⟩ :: ts.map (Token.back d)) :=
      .token hgap hlexeme (by rwa [← Nat.sub_add_comm hd, ← Nat.sub_add_comm (by omega)])
    rwa [← Nat.sub_add_comm hd] at htoken

end Lexes

/-! ## Layout -/

/-- A token is found behind itself wherever a gap or the end of the text follows. -/
lemma lexeme_gap {c : Char} {cs gap : List Char} {found : Token.Kind × Nat}
    (h : lexeme c cs = .ok found) (hgap : IsGap gap) (rest : List Char)
    (hrest : gap = [] → rest = []) : lexeme c (cs ++ (gap ++ rest)) = .ok found := by
  by_cases hne : gap = []
  · rw [hne, hrest hne, List.append_nil, List.append_nil]
    exact h
  · obtain ⟨d, hd, more, rfl⟩ := hgap.exists_separator hne
    exact lexeme_separator hd h

/-- The texts of tokens with gaps before them and a gap at the end. -/
def laidOut (gaps : List (List Char)) (ts : List Token) (last : List Char) : List Char :=
  (List.zipWith (fun g t => g ++ t.text.toList) gaps ts).flatten ++ last

/-- Lexemes are the tokens of a text in which gaps separate them.

**Proof sketch.** By induction on the tokens. A lexeme stays one with a gap behind it that is not
empty, or with nothing behind it (`lexeme_gap`). -/
lemma lexes_laidOut {ts : List Token} (hts : ∀ t ∈ ts, t.kind.Lexeme t.text)
    (gaps : List (List Char)) {last : List Char} (hlength : gaps.length = ts.length)
    (hgaps : ∀ g ∈ gaps, IsGap g) (hlast : IsGap last) (hapart : ∀ g ∈ gaps.tail, g ≠ [])
    (offset : Nat) :
    ∃ ts', Lexes offset (laidOut gaps ts last) ts' ∧
      ts'.map Token.kind = ts.map Token.kind ++ [.eof] := by
  induction ts generalizing gaps offset with
  | nil => exact ⟨_, .done (.inl (by simpa [laidOut] using hlast)), rfl⟩
  | cons t ts ih =>
    obtain ⟨⟨c, cs, htext, hlexeme⟩, hmore⟩ := List.forall_mem_cons.mp hts
    obtain ⟨gap, gaps, rfl⟩ := List.exists_cons_of_length_eq_add_one hlength
    obtain ⟨hgap, hgaps⟩ := List.forall_mem_cons.mp hgaps
    obtain ⟨ts', hlexes, hkinds⟩ := ih hmore gaps (Nat.succ.inj hlength) hgaps
      (fun g hg => hapart g (List.mem_of_mem_tail hg))
      (offset + byteLength gap + byteLength (c :: cs))
    have hfound : lexeme c (cs ++ laidOut gaps ts last) = .ok (t.kind, cs.length + 1) := by
      cases gaps with
      | nil => simpa [laidOut] using lexeme_gap hlexeme hlast [] fun _ => rfl
      | cons gap' gaps =>
        obtain ⟨t', ts, rfl⟩ := List.exists_cons_of_length_eq_add_one (Nat.succ.inj hlength).symm
        have hne : gap' ≠ [] := hapart gap' List.mem_cons_self
        simpa [laidOut] using lexeme_gap hlexeme (hgaps gap' List.mem_cons_self) _
          fun hnil => absurd hnil hne
    have hshape : laidOut (gap :: gaps) (t :: ts) last =
        gap ++ (c :: cs ++ laidOut gaps ts last) := by
      simp [laidOut, htext]
    rw [hshape]
    exact ⟨_, .token hgap hfound hlexes, by simp [hkinds]⟩

/-- The characters of tokens that are written again; the mark of the end has no text. -/
lemma toList_written {gaps : List String} {ts : List Token} (hlength : gaps.length = ts.length)
    (mark : Token) (last : String) :
    (String.join (List.zipWith (fun g t => g ++ t.text) gaps (ts ++ [mark])) ++ last).toList =
      laidOut (gaps.map String.toList) ts last.toList := by
  have hzip : List.zipWith (fun g (t : Token) => g ++ t.text) gaps (ts ++ [mark]) =
      List.zipWith (fun g t => g ++ t.text) gaps ts := by
    have happend : List.zipWith (fun g (t : Token) => g ++ t.text) (gaps ++ []) (ts ++ [mark]) = _ :=
      List.zipWith_append hlength
    simpa using happend
  simp only [hzip, laidOut, String.toList_append, String.toList_join, List.flatMap_def,
    List.map_zipWith, List.zipWith_map_left]

end Lexer

/-- The tokens of a source are those that it is made of. -/
lemma tokenize_eq_ok_iff {source : String} {ts : List Token} :
    tokenize source = .ok ts ↔ Lexer.Lexes 0 source.toList ts := by
  rw [← Lexer.tokens_eq_ok_iff, tokenize]
  cases Lexer.tokens 0 0 source.toList <;> simp

open Lexer in
/-- Tokens tile the source and do not depend on its layout. They stand in order, only the mark of the
end is empty, and each has a gap before it and its own text at its place. Written with any other gaps
between them, they are found again.

**Proof sketch.** All four statements are read off `Lexes`: the mark of the end and the texts from
`exists_init`, the order from `pairwise`, the place of a token from `behind`, and other layouts from
`lexes_laidOut`. -/
theorem tokenize_tiles {source : String} {ts : List Token} (h : tokenize source = .ok ts) :
    (∃ init, ts = init ++ [Token.atEnd source.utf8ByteSize] ∧ ∀ t ∈ init, t.start < t.stop) ∧
    (ts.Pairwise fun a b => a.stop ≤ b.start) ∧
    (∀ front t rest, ts = front ++ t :: rest →
      ∃ before gap after, source = before ++ gap ++ t.text ++ after ∧
        before.utf8ByteSize = (front.getLast?.map Token.stop).getD 0 ∧
        (before ++ gap).utf8ByteSize = t.start ∧
        IsFiller gap.toList ∧ (rest ≠ [] → IsGap gap.toList)) ∧
    ∀ (gaps : List String) (last : String), gaps.length + 1 = ts.length →
      (∀ g ∈ gaps, IsGap g.toList) → IsGap last.toList → (∀ g ∈ gaps.tail, g ≠ "") →
      ∃ ts', tokenize (String.join (List.zipWith (fun g t => g ++ t.text) gaps ts) ++ last) = .ok ts' ∧
        ts'.map Token.kind = ts.map Token.kind := by
  have hlexes := tokenize_eq_ok_iff.mp h
  obtain ⟨init, rfl, hinit⟩ := hlexes.exists_init
  rw [Nat.zero_add, byteLength_toList] at hlexes ⊢
  refine ⟨⟨init, rfl, fun t ht => (hinit t ht).1⟩, hlexes.pairwise.2, ?_, ?_⟩
  · intro front t rest hts
    rw [hts] at hlexes
    obtain ⟨before, gap, after, hsource, hbefore, hstart, hfiller, hgap, -⟩ := hlexes.behind
    refine ⟨String.ofList before, String.ofList gap, String.ofList after, ?_, ?_, ?_, ?_, ?_⟩
    · apply String.toList_injective
      simp [hsource]
    · simpa [utf8ByteSize_ofList] using hbefore
    · simpa [utf8ByteSize_ofList] using hstart
    · simpa using hfiller
    · simpa using hgap
  · intro gaps last hlength hgaps hlast hapart
    have hlength : gaps.length = init.length := by simpa using hlength
    obtain ⟨ts', hlexes', hkinds⟩ := lexes_laidOut (fun t ht => (hinit t ht).2)
      (gaps.map String.toList) (by simpa using hlength) (by simpa using hgaps) hlast
      (by simpa [← List.map_tail] using hapart) 0
    refine ⟨ts', tokenize_eq_ok_iff.mpr ?_, by simp [hkinds, Token.atEnd]⟩
    rw [toList_written hlength]
    exact hlexes'

/-- A sum whose parts touch, with a comment behind it that the source ends in. -/
def touchingSum : List Token :=
  [⟨.literal (.int 7), "7", 0⟩, ⟨.punct .plus, "+", 1⟩, ⟨.ident "x", "x", 2⟩, Token.atEnd 9]

open Lexer in
/-- The same sum is read from three lines, with a comment in the first one. -/
theorem tokenize_tiles_touchingSum :
    tokenize "7+x # sum" = .ok touchingSum ∧
      ∃ ts', tokenize "#7+y\n7\n+\tx" = .ok ts' ∧
        ts'.map Token.kind = [.literal (.int 7), .punct .plus, .ident "x", .eof] := by
  have htokens : tokenize "7+x # sum" = .ok touchingSum := by cbv
  have hcomment : IsGap "#7+y\n".toList :=
    @IsGap.comment ['7', '+', 'y'] [] (by decide) .nil
  have hnewline : IsGap "\n".toList := .blank (by decide) .nil
  have htab : IsGap "\t".toList := .blank (by decide) .nil
  have htiles := (tokenize_tiles htokens).2.2.2 ["#7+y\n", "\n", "\t"] "" rfl
    (List.forall_mem_cons.mpr ⟨hcomment, by simpa using ⟨hnewline, htab⟩⟩) .nil (by decide)
  exact ⟨htokens, htiles⟩

end Retarget
