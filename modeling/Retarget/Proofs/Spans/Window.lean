import Retarget.Proofs.Parsing.Reading
import Retarget.Proofs.Tokens.Tiling

set_option autoImplicit false

/-!
# Parsing a part of the tokens on its own

The tokens that a step of the parser takes can be cut out: moved to the front and with a mark of the
end behind them, they are the tokens of a text of their own. The step takes them there as well, with
the same result but for the spans, which move along. What the step looks at behind the tokens that
it takes only tells it to stop, and the mark of the end does so too.

A second run has a fuel of its own. What suffices is given by the number of tokens that it takes, so
steps are related for runs that take fewer tokens than that.

## Main definitions

* `Retarget.Expr.mapNotes`, `Retarget.Span.back` — an expression whose spans move to the front.
* `Retarget.Cursor.Takes` — the tokens from one cursor to another.
* `Retarget.Window` — a part of the tokens, cut out.
* `Retarget.Parser.Mirrors` — what one step does on all tokens, another one does in the window.

## Main results

* `Retarget.Parser.MirrorsAt.bind` and the rules for single tokens.
-/

namespace Retarget

/-! ## Notes -/

/-- The span as it stands in a text that starts `d` bytes later. -/
def Span.back (d : Nat) (s : Span) : Span := ⟨s.start - d, s.stop - d⟩

namespace Expr

variable {α β : Type}

mutual

/-- The expression with other notes. -/
def mapNotes (f : α → β) : Expr α → Expr β
  | .literal note value => .literal (f note) value
  | .array note items => .array (f note) (mapNotesAll f items)
  | .record note fields => .record (f note) (mapNotesNamed f fields)
  | .var note name => .var (f note) name
  | .unary note op operand => .unary (f note) op (operand.mapNotes f)
  | .binary note op lhs rhs => .binary (f note) op (lhs.mapNotes f) (rhs.mapNotes f)
  | .cond note test yes no =>
    .cond (f note) (test.mapNotes f) (yes.mapNotes f) (no.mapNotes f)
  | .letIn note bindings body => .letIn (f note) (mapNotesNamed f bindings) (body.mapNotes f)
  | .lambda note params body => .lambda (f note) params (body.mapNotes f)
  | .call note callee args => .call (f note) (callee.mapNotes f) (mapNotesAll f args)
  | .member note object field => .member (f note) (object.mapNotes f) field
  | .pipe note value function args =>
    .pipe (f note) (value.mapNotes f) function (mapNotesAll f args)
  | .alternative note candidates => .alternative (f note) (mapNotesAll f candidates)
  | .select note typeName policy constraints args =>
    .select (f note) typeName policy (mapNotesConditions f constraints) (mapNotesAll f args)
  | .guarded note kind conditions body =>
    .guarded (f note) kind (mapNotesConditions f conditions) (body.mapNotes f)

/-- Expressions with other notes. -/
def mapNotesAll (f : α → β) : List (Expr α) → List (Expr β)
  | [] => []
  | e :: es => e.mapNotes f :: mapNotesAll f es

/-- Named expressions with other notes. -/
def mapNotesNamed (f : α → β) : List (String × Expr α) → List (String × Expr β)
  | [] => []
  | (name, e) :: rest => (name, e.mapNotes f) :: mapNotesNamed f rest

/-- Conditions with other notes. -/
def mapNotesConditions (f : α → β) : List (Condition (Expr α)) → List (Condition (Expr β))
  | [] => []
  | ⟨label, test⟩ :: rest => ⟨label, test.mapNotes f⟩ :: mapNotesConditions f rest

end

/-- Other notes leave the number of expressions. -/
lemma length_mapNotesAll (f : α → β) (es : List (Expr α)) :
    (mapNotesAll f es).length = es.length := by
  induction es with
  | nil => rfl
  | cons e es ih => exact congrArg Nat.succ ih

end Expr

/-! ## Cursors -/

namespace Cursor

variable {c c₁ c₂ : Cursor} {used more : List Token}

/-- The last token that is left marks the end. -/
def Ended (c : Cursor) : Prop := ∃ t, c.rest.getLast? = some t ∧ t.kind = .eof

/-- The tokens lead from one cursor to another. -/
structure Takes (c : Cursor) (used : List Token) (c' : Cursor) : Prop where
  rest : c.rest = used ++ c'.rest
  stop : c'.stop = (used.getLast?.map Token.stop).getD c.stop
  left : c'.rest ≠ []

/-- Before the mark of the end there is a token to come. -/
lemma Ended.rest_ne_nil (h : c.Ended) : c.rest ≠ [] := by
  obtain ⟨t, hlast, -⟩ := h
  rintro hnil
  simp [hnil] at hlast

/-- The tokens between two cursors are determined by them. -/
lemma Takes.unique (h : c.Takes used c₁) (h' : c.Takes more c₁) : used = more :=
  List.append_cancel_right (h.rest.symm.trans h'.rest)

/-- A cursor leads to itself. -/
lemma Ended.takes (h : c.Ended) : c.Takes [] c := ⟨rfl, rfl, h.rest_ne_nil⟩

/-- Tokens that are taken in two steps. -/
lemma Takes.trans (h₁ : c.Takes used c₁) (h₂ : c₁.Takes more c₂) : c.Takes (used ++ more) c₂ := by
  refine ⟨by rw [h₁.rest, h₂.rest, List.append_assoc], ?_, h₂.left⟩
  rw [h₂.stop, h₁.stop, List.getLast?_append]
  cases more.getLast? <;> rfl

/-- The mark of the end is never taken. -/
lemma Ended.of_takes (h : c.Ended) (htakes : c.Takes used c₁) : c₁.Ended := by
  obtain ⟨t, hlast, heof⟩ := h
  refine ⟨t, ?_, heof⟩
  rwa [htakes.rest, List.getLast?_append_of_ne_nil _ htakes.left] at hlast

/-- The kind of the token `n` places behind the one to come. -/
def kindAt (c : Cursor) (n : Nat) : Token.Kind := (c.rest[n]?.map Token.kind).getD .eof

/-- A token that does not mark the end has another one behind it. -/
lemma Ended.exists_next (h : c.Ended) (hkind : c.kindAt 0 ≠ .eof) :
    ∃ t next more, c.rest = t :: next :: more ∧ t.kind = c.kindAt 0 := by
  obtain ⟨u, hlast, heof⟩ := h
  unfold kindAt at hkind ⊢
  rcases hrest : c.rest with - | ⟨t, - | ⟨next, more⟩⟩
  · simp [hrest] at hkind
  · rw [hrest] at hlast hkind
    cases hlast
    exact absurd heof hkind
  · exact ⟨t, next, more, rfl, rfl⟩

end Cursor

/-! ## Windows -/

/-- A part of the tokens, cut out: the tokens in front of `beyond` as those of a text of `size`
bytes that starts `shift` bytes later. -/
structure Window where
  shift : Nat
  beyond : List Token
  size : Nat

namespace Window

variable {w : Window} {c d : Cursor}

/-- The second cursor stands in the window where the first one stands among all tokens. -/
def Shows (w : Window) (c d : Cursor) : Prop :=
  ∃ ts, c.rest = ts ++ w.beyond ∧ (∀ t ∈ ts, w.shift ≤ t.start) ∧
    d = ⟨ts.map (Token.back w.shift) ++ [Token.atEnd w.size], c.stop - w.shift⟩

/-- A token of the window and the cursor behind it. -/
lemma Shows.cons (h : w.Shows c d) {t : Token} {ts : List Token} (hc : c.rest = t :: ts)
    (hw : w.beyond <:+ ts) :
    ∃ d', w.Shows ⟨ts, t.stop⟩ d' ∧ d'.rest ≠ [] ∧ d'.stop = (t.back w.shift).stop ∧
      d = ⟨t.back w.shift :: d'.rest, c.stop - w.shift⟩ := by
  obtain ⟨us, hrest, hstart, rfl⟩ := h
  obtain ⟨vs, rfl⟩ := hw
  rw [hc, ← List.cons_append] at hrest
  obtain rfl := List.append_cancel_right hrest
  obtain ⟨ht, hvs⟩ := List.forall_mem_cons.mp hstart
  refine ⟨⟨vs.map (Token.back w.shift) ++ [Token.atEnd w.size], t.stop - w.shift⟩,
    ⟨vs, rfl, hvs, rfl⟩, by simp, (Token.back_stop ht).symm, by simp⟩

/-- Where nothing is left in the window, the mark of the end is to come. -/
lemma Shows.rest_of_beyond (h : w.Shows c d) (hc : c.rest = w.beyond) :
    d.rest = [Token.atEnd w.size] := by
  obtain ⟨ts, hrest, -, rfl⟩ := h
  have hnil : ts = [] := by simpa [hc] using hrest
  simp [hnil]

/-- A token that stands in the window is of its kind there. -/
lemma Shows.kindAt_eq (h : w.Shows c d) {n : Nat} (hn : n + w.beyond.length < c.rest.length) :
    d.kindAt n = c.kindAt n := by
  obtain ⟨ts, hrest, -, rfl⟩ := h
  have hlt : n < ts.length := by
    rw [hrest, List.length_append] at hn
    omega
  simp [Cursor.kindAt, hrest, hlt, List.getElem?_append_left]

/-- The tokens that are taken stand in the window. -/
lemma Shows.kindAt_of_takes {c' : Cursor} {used : List Token} (h : w.Shows c d)
    (htakes : c.Takes used c') (hw : w.beyond <:+ c'.rest) {n : Nat} (hn : n < used.length) :
    d.kindAt n = c.kindAt n := by
  refine h.kindAt_eq ?_
  have hlength := hw.length_le
  rw [htakes.rest, List.length_append]
  omega

/-- What does not stand in the window is the mark of the end there. -/
lemma Shows.kindAt_eq_or (h : w.Shows c d) (n : Nat) :
    d.kindAt n = c.kindAt n ∨ d.kindAt n = .eof := by
  by_cases hn : n + w.beyond.length < c.rest.length
  · exact .inl (h.kindAt_eq hn)
  · obtain ⟨ts, hrest, -, rfl⟩ := h
    rw [hrest, List.length_append] at hn
    refine .inr ?_
    by_cases hlast : n = ts.length
    · simp [Cursor.kindAt, hlast, Token.atEnd]
    · have hnone : (ts.map (Token.back w.shift) ++ [Token.atEnd w.size])[n]? = none := by
        refine List.getElem?_eq_none ?_
        rw [List.length_append, List.length_map, List.length_singleton]
        omega
      unfold Cursor.kindAt
      rw [hnone]
      rfl

end Window

namespace Parser

open Cursor

variable {α β : Type} {w : Window} {C : Cursor → Prop} {lo hi lo₁ hi₁ l k : Nat}

/-! ## Steps in a window -/

/-- From the cursors `C`, the first step takes `lo` tokens at least. Where it takes fewer than `hi`,
the second step takes them in the window, if they stand there, and returns what the first one does,
changed by `m`. -/
def MirrorsAt (w : Window) (C : Cursor → Prop) (lo hi : Nat) (m : α → α) (p q : Parser α) : Prop :=
  ∀ c a c', C c → c.Ended → p c = .ok (a, c') → ∃ used, c.Takes used c' ∧ lo ≤ used.length ∧
    (used.length < hi → ∀ d, w.Shows c d → w.beyond <:+ c'.rest →
      ∃ d', w.Shows c' d' ∧ q d = .ok (m a, d'))

/-- The steps are related from every cursor. -/
abbrev Mirrors (w : Window) (lo hi : Nat) (m : α → α) (p q : Parser α) : Prop :=
  MirrorsAt w (fun _ => True) lo hi m p q

section Rules

variable {m : α → α} {m' : β → β} {p q : Parser α} {f g : α → Parser β}

/-- Steps that are related from every cursor are so from some. -/
lemma Mirrors.at (h : Mirrors w lo hi m p q) : MirrorsAt w C lo hi m p q :=
  fun c a c' _ => h c a c' trivial

/-- A smaller bound on either side. -/
lemma MirrorsAt.mono (h : MirrorsAt w C lo₁ hi₁ m p q) (hlo : lo ≤ lo₁) (hhi : hi ≤ hi₁) :
    MirrorsAt w C lo hi m p q := by
  intro c a c' hC hc hp
  obtain ⟨used, htakes, hused, hmirror⟩ := h c a c' hC hc hp
  exact ⟨used, htakes, Nat.le_trans hlo hused, fun hlt => hmirror (Nat.lt_of_lt_of_le hlt hhi)⟩

/-- Where the first step takes too much, the second one does not matter. -/
lemma MirrorsAt.of_le {q' : Parser α} (h : MirrorsAt w C lo hi m p q) (hle : hi ≤ lo) :
    MirrorsAt w C lo hi m p q' := by
  intro c a c' hC hc hp
  obtain ⟨used, htakes, hused, -⟩ := h c a c' hC hc hp
  exact ⟨used, htakes, hused, fun hlt => by omega⟩

/-- A value is the same in a window. -/
lemma mirrors_pure {a b : α} (h : b = m a) : MirrorsAt w C 0 hi m (pure a) (pure b) := by
  rintro c _ _ - hc ⟨⟩
  exact ⟨[], hc.takes, Nat.zero_le _, fun _ d hd _ => ⟨d, hd, by rw [h]; rfl⟩⟩

/-- A step that always fails. -/
lemma mirrors_of_fails (h : ∀ c a c', p c ≠ .ok (a, c')) : MirrorsAt w C lo hi m p q :=
  fun c a c' _ _ hp => absurd hp (h c a c')

/-- An error is related to every step. -/
lemma mirrors_unexpected (wanted : Expectation) : MirrorsAt w C lo hi m (unexpected wanted) q :=
  mirrors_of_fails fun _ _ _ h => by cases h

/-- Nothing follows a fault. -/
lemma mirrors_fail_bind (offset : Nat) (fault : SyntaxFault) {q : Parser β} :
    MirrorsAt w C lo hi m' (failAt offset fault >>= f) q :=
  mirrors_of_fails fun _ _ _ h => by cases h

/-- One step after another. -/
lemma MirrorsAt.bind (hp : MirrorsAt w C lo₁ hi₁ m p q)
    (hf : ∀ a, Mirrors w l k m' (f a) (g (m a))) (hlo : lo ≤ lo₁ + l) (h₁ : hi ≤ hi₁ + l)
    (h₂ : hi ≤ k + lo₁) : MirrorsAt w C lo hi m' (p >>= f) (q >>= g) := by
  intro c b c'' hC hc h
  obtain ⟨a, c', hpc, hfc⟩ := exists_of_bind h
  obtain ⟨used, htakes, hused, hmirror⟩ := hp c a c' hC hc hpc
  obtain ⟨more, htakes', hmore, hmirror'⟩ := hf a c' b c'' trivial (hc.of_takes htakes) hfc
  refine ⟨used ++ more, htakes.trans htakes', by rw [List.length_append]; omega, ?_⟩
  intro hle d hd hw
  rw [List.length_append] at hle
  have hw' : w.beyond <:+ c'.rest := by
    rw [htakes'.rest]
    exact hw.trans (List.suffix_append more _)
  obtain ⟨d', hd', hq⟩ := hmirror (by omega) d hd hw'
  obtain ⟨d'', hd'', hg⟩ := hmirror' (by omega) d' hd' hw
  exact ⟨d'', hd'', (bind_of_eq hq).trans hg⟩

/-- One step after another, both with the same bound. -/
lemma MirrorsAt.next (hp : MirrorsAt w C lo₁ hi m p q)
    (hf : ∀ a, Mirrors w 0 hi m' (f a) (g (m a))) (hlo : lo ≤ lo₁) :
    MirrorsAt w C lo hi m' (p >>= f) (q >>= g) :=
  hp.bind hf hlo (Nat.le_refl _) (Nat.le_add_right _ _)

/-- Choices are related where their steps are. -/
lemma MirrorsAt.ite {cond : Prop} [Decidable cond] {p' q' : Parser α}
    (hp : cond → MirrorsAt w C lo hi m p q) (hq : ¬cond → MirrorsAt w C lo hi m p' q') :
    MirrorsAt w C lo hi m (if cond then p else p') (if cond then q else q') := by
  split_ifs with h
  · exact hp h
  · exact hq h

/-- The bytes up to the last token that was taken. -/
lemma mirrors_span {f g : Span → Parser β} (start : Nat)
    (h : ∀ span, MirrorsAt w C lo hi m' (f span) (g (span.back w.shift))) :
    MirrorsAt w C lo hi m' (spanFrom start >>= f) (spanFrom (start - w.shift) >>= g) := by
  intro c b c' hC hc hf
  obtain ⟨used, htakes, hused, hmirror⟩ := h ⟨start, c.stop⟩ c b c' hC hc hf
  refine ⟨used, htakes, hused, fun hle d hd hw => ?_⟩
  obtain ⟨d', hd', hg⟩ := hmirror hle d hd hw
  refine ⟨d', hd', ?_⟩
  obtain ⟨ts, -, -, rfl⟩ := hd
  exact hg

/-! ### Single tokens -/

/-- The token to come. -/
lemma peek_apply (c : Cursor) : peek c = .ok (c.rest.headD (Token.atEnd c.stop), c) := rfl

/-- The kind of the next token, or of the end. -/
lemma kind_headD (c : Cursor) : (c.rest.headD (Token.atEnd c.stop)).kind = c.kindAt 0 := by
  unfold kindAt
  cases c.rest <;> rfl

/-- Looking at the next token finds it. -/
lemma peek_of_rest {c : Cursor} {t : Token} {ts : List Token} (h : c.rest = t :: ts) :
    peek c = .ok (t, c) := by
  rw [peek_apply, h]
  rfl

/-- The token to come. Either the step takes it, or it does the same where the window ends.

**Proof sketch.** If the token stands in the window, the parser of the window looks at the same one.
Else it is the first token behind the window; then nothing is taken by the time the step ends, so a
step that takes it cannot be meant, and any other one does the same at the end of input. -/
lemma mirrors_look {f g : Token → Parser β}
    (h : ∀ t, MirrorsAt w (·.kindAt 0 = t.kind) lo hi m' (f t) (g (t.back w.shift)))
    (hend : ∀ t, MirrorsAt w (·.kindAt 0 = t.kind) 1 hi m' (f t) (g (t.back w.shift)) ∨
      MirrorsAt w (·.kindAt 0 = t.kind) lo hi m' (f t) (g (Token.atEnd w.size))) :
    Mirrors w lo hi m' (peek >>= f) (peek >>= g) := by
  intro c b c' _ hc hf
  obtain ⟨t, ts, hrest⟩ := List.exists_cons_of_ne_nil hc.rest_ne_nil
  have hkind : c.kindAt 0 = t.kind := by simp [kindAt, hrest]
  rw [bind_of_eq (peek_of_rest hrest)] at hf
  obtain ⟨used, htakes, hused, hmirror⟩ := h t c b c' hkind hc hf
  refine ⟨used, htakes, hused, fun hle d hd hw => ?_⟩
  -- The token stands in the window, or it is the first one behind it and is not taken.
  by_cases hin : w.beyond <:+ ts
  · obtain ⟨d₁, -, -, -, hd₁⟩ := hd.cons hrest hin
    rw [bind_of_eq (peek_of_rest (c := d) (by rw [hd₁]))]
    exact hmirror hle d hd hw
  · have hbeyond : w.beyond = c.rest := by
      have hsuffix : w.beyond <:+ c.rest := by
        rw [htakes.rest]
        exact hw.trans (List.suffix_append used _)
      rw [hrest] at hsuffix ⊢
      exact (List.suffix_cons_iff.mp hsuffix).resolve_right hin
    have hnil : used = [] := by
      have hlength := hw.length_le
      rw [hbeyond, htakes.rest, List.length_append] at hlength
      exact List.length_eq_zero_iff.mp (by omega)
    rw [bind_of_eq (peek_of_rest (hd.rest_of_beyond hbeyond.symm))]
    obtain htaken | hstop := hend t
    · obtain ⟨used', htakes', hpos, -⟩ := htaken c b c' hkind hc hf
      rw [htakes'.unique htakes, hnil] at hpos
      cases hpos
    · obtain ⟨used', htakes', -, hmirror'⟩ := hstop c b c' hkind hc hf
      exact hmirror' (htakes'.unique htakes ▸ hle) d hd hw

/-- A token that the step takes. -/
lemma mirrors_peek {f g : Token → Parser β} (hlo : 1 ≤ lo)
    (h : ∀ t, MirrorsAt w (·.kindAt 0 = t.kind) lo hi m' (f t) (g (t.back w.shift))) :
    Mirrors w lo hi m' (peek >>= f) (peek >>= g) :=
  mirrors_look h fun t => .inl ((h t).mono hlo (Nat.le_refl _))

/-- The position is that of the next token. -/
lemma here_bind (f : Nat → Parser β) : here >>= f = peek >>= fun t => f t.start := rfl

/-- The place of a token that the step takes. -/
lemma mirrors_here {f g : Nat → Parser β} (hlo : 1 ≤ lo)
    (h : ∀ start, Mirrors w lo hi m' (f start) (g (start - w.shift))) :
    Mirrors w lo hi m' (here >>= f) (here >>= g) := by
  rw [here_bind, here_bind]
  exact mirrors_peek hlo fun t => (h t.start).at

/-- A step ahead takes the next token. -/
lemma advance_of_rest {c : Cursor} {t next : Token} {more : List Token}
    (h : c.rest = t :: next :: more) : advance c = .ok ((), ⟨next :: more, t.stop⟩) := by
  unfold advance
  rw [h]

/-- A token is taken, and the step goes on from the cursors `C'`.

**Proof sketch.** The token stands in the window, since the step ends before the window does. It is
taken in both, and the rest of the step is given. -/
lemma mirrors_advance_to {C' : Cursor → Prop} {f g : Unit → Parser β}
    (hC : ∀ c, C c → c.kindAt 0 ≠ .eof)
    (hC' : ∀ c t ts, C c → c.rest = t :: ts → C' ⟨ts, t.stop⟩)
    (h : MirrorsAt w C' l k m' (f ()) (g ())) (hlo : lo ≤ l + 1) (hhi : hi ≤ k + 1) :
    MirrorsAt w C lo hi m' (advance >>= f) (advance >>= g) := by
  intro c b c' hc hended hf
  obtain ⟨t, next, more, hrest, -⟩ := hended.exists_next (hC c hc)
  rw [bind_of_eq (advance_of_rest hrest)] at hf
  have htake : c.Takes [t] ⟨next :: more, t.stop⟩ := ⟨hrest, rfl, by simp⟩
  obtain ⟨used, htakes, hused, hmirror⟩ :=
    h _ b c' (hC' c t _ hc hrest) (hended.of_takes htake) hf
  refine ⟨[t] ++ used, htake.trans htakes, by simpa using by omega, fun hle d hd hw => ?_⟩
  have hin : w.beyond <:+ next :: more := by
    have hrest' : next :: more = used ++ c'.rest := htakes.rest
    rw [hrest']
    exact hw.trans (List.suffix_append used _)
  obtain ⟨d₁, hd₁, hne, hstop, rfl⟩ := hd.cons hrest hin
  obtain ⟨u, us, hu⟩ := List.exists_cons_of_ne_nil hne
  have hadvance : advance ⟨t.back w.shift :: d₁.rest, c.stop - w.shift⟩ = .ok ((), d₁) := by
    rw [advance_of_rest (by rw [hu]), ← hu, ← hstop]
  rw [bind_of_eq hadvance]
  rw [List.length_append, List.length_singleton] at hle
  exact hmirror (by omega) d₁ hd₁ hw

/-- A step ahead is taken alike in a window, unless it is the end. -/
lemma mirrors_advance {f g : Unit → Parser β} (hC : ∀ c, C c → c.kindAt 0 ≠ .eof)
    (h : Mirrors w l k m' (f ()) (g ())) (hlo : lo ≤ l + 1) (hhi : hi ≤ k + 1) :
    MirrorsAt w C lo hi m' (advance >>= f) (advance >>= g) :=
  mirrors_advance_to hC (fun _ _ _ _ _ => trivial) h hlo hhi

/-! ### Marks and names -/

/-- A token of the kind is taken, and else none. -/
lemma eatKind_bind (x : Token.Kind) (f : Bool → Parser β) : eatKind x >>= f =
    peek >>= fun t => if t.kind = x then advance >>= fun _ => f true else f false := by
  unfold eatKind
  simp only [bind_assoc]
  refine congrArg _ (funext fun t => ?_)
  split <;> simp

/-- A mark that comes next is taken. -/
lemma eat_of_eq {c : Cursor} {mark : Punct} (h : c.kindAt 0 = .punct mark) (f : Bool → Parser β) :
    (eat mark >>= f) c = (advance >>= fun _ => f true) c := by
  rw [eat, eatKind_bind, bind_of_eq (peek_apply c), if_pos ((kind_headD c).trans h)]

/-- A mark that does not come next is not taken. -/
lemma eat_of_ne {c : Cursor} {mark : Punct} (h : c.kindAt 0 ≠ .punct mark) (f : Bool → Parser β) :
    (eat mark >>= f) c = f false c := by
  rw [eat, eatKind_bind, bind_of_eq (peek_apply c), if_neg ((kind_headD c).trans_ne h)]

/-- A mark that is asked for and comes next is taken. -/
lemma expect_of_eq {c : Cursor} {mark : Punct} (h : c.kindAt 0 = .punct mark)
    (f : Unit → Parser β) : (expect mark >>= f) c = (advance >>= f) c := by
  rw [expect, bind_assoc, eat_of_eq h]
  rfl

/-- A token of a kind, if it is there.

**Proof sketch.** A step that may take a token is a look at it and a decision (`mirrors_look`). A
token at the end of the window is either taken, and then belongs to it, or the decision is the same
as at the end of input. -/
lemma mirrors_eatKind {x : Token.Kind} (hx : x ≠ .eof) {f g : Bool → Parser β}
    (htrue : Mirrors w l k m' (f true) (g true)) (hfalse : Mirrors w lo hi m' (f false) (g false))
    (hlo : lo ≤ l + 1) (hhi : hi ≤ k + 1) :
    Mirrors w lo hi m' (eatKind x >>= f) (eatKind x >>= g) := by
  rw [eatKind_bind, eatKind_bind]
  have htaken (t : Token) (ht : t.kind = x) {lo' : Nat} (hlo' : lo' ≤ l + 1) :
      MirrorsAt w (·.kindAt 0 = t.kind) lo' hi m' (advance >>= fun _ => f true)
        (advance >>= fun _ => g true) :=
    mirrors_advance (fun c hc => by rw [hc, ht]; exact hx) htrue hlo' hhi
  have hkind (t : Token) : (t.back w.shift).kind = t.kind := rfl
  have hend : (Token.atEnd w.size).kind ≠ x := fun h => hx h.symm
  refine mirrors_look (fun t => ?_) fun t => ?_
  · rw [hkind]
    by_cases ht : t.kind = x
    · rw [if_pos ht, if_pos ht]
      exact htaken t ht hlo
    · rw [if_neg ht, if_neg ht]
      exact hfalse.at
  · rw [hkind, if_neg hend]
    by_cases ht : t.kind = x
    · rw [if_pos ht, if_pos ht]
      exact .inl (htaken t ht (Nat.le_add_left 1 l))
    · rw [if_neg ht]
      exact .inr hfalse.at

/-- A mark, if it is there. -/
lemma mirrors_eat {mark : Punct} {A A' B B' : Parser β} (hA : Mirrors w l k m' A A')
    (hB : Mirrors w lo hi m' B B') (hlo : lo ≤ l + 1) (hhi : hi ≤ k + 1) :
    Mirrors w lo hi m' (eat mark >>= fun eaten => if eaten = true then A else B)
      (eat mark >>= fun eaten => if eaten = true then A' else B') :=
  mirrors_eatKind (x := .punct mark) (by simp) hA hB hlo hhi

/-- A token that must be there. -/
lemma mirrors_expect (mark : Punct) (hi : Nat) : Mirrors w 1 hi id (expect mark) (expect mark) :=
  mirrors_eatKind (x := .punct mark) (l := 0) (k := hi) (by simp) (mirrors_pure rfl)
    (mirrors_unexpected _) (Nat.le_refl _) (Nat.le_succ _)

/-- A keyword is asked for alike in a window. -/
lemma mirrors_expectKeyword (word : Keyword) (hi : Nat) :
    Mirrors w 1 hi id (expectKeyword word) (expectKeyword word) :=
  mirrors_eatKind (x := .keyword word) (l := 0) (k := hi) (by simp) (mirrors_pure rfl)
    (mirrors_unexpected _) (Nat.le_refl _) (Nat.le_succ _)

/-- The token to come is taken, and gives the same in the window. -/
lemma mirrors_taken {t : Token} (ht : t.kind ≠ .eof) {a : α} (hi : Nat) :
    MirrorsAt w (·.kindAt 0 = t.kind) 1 hi id (advance >>= fun _ => pure a)
      (advance >>= fun _ => pure a) :=
  mirrors_advance (l := 0) (k := hi) (fun _ hc => hc ▸ ht) (mirrors_pure rfl) (Nat.le_refl _)
    (Nat.le_succ _)

/-- A name is asked for alike in a window. -/
lemma mirrors_identifier (hi : Nat) : Mirrors w 1 hi id identifier identifier := by
  refine mirrors_peek (Nat.le_refl _) fun t => ?_
  simp only [Token.back_kind]
  split
  · rename_i name hkind
    exact mirrors_taken (by simp [hkind]) hi
  · exact mirrors_unexpected _

/-- The name of a field is read alike in a window. -/
lemma mirrors_fieldName (hi : Nat) : Mirrors w 1 hi id fieldName fieldName := by
  refine mirrors_peek (Nat.le_refl _) fun t => ?_
  simp only [Token.back_kind]
  split
  · rename_i name hkind
    exact mirrors_taken (by simp [hkind]) hi
  · rename_i name hkind
    exact mirrors_taken (by simp [hkind]) hi
  · rename_i k hkind
    exact mirrors_taken (by simp [hkind]) hi
  · exact mirrors_unexpected _

/-- The mark of a selector is read alike in a window. -/
lemma mirrors_policy (hi : Nat) : Mirrors w 0 hi id policy policy := by
  have hdone (mark : SelectPolicy) : Mirrors w 0 hi id (pure mark) (pure mark) := mirrors_pure rfl
  refine mirrors_eat (hdone _) ?_ (Nat.zero_le _) (Nat.le_succ _)
  refine mirrors_eat (hdone _) ?_ (Nat.zero_le _) (Nat.le_succ _)
  exact mirrors_eat (hdone _) (hdone _) (Nat.zero_le _) (Nat.le_succ _)

/-! ### Looking further ahead -/

/-- The label that two tokens give, if they are one. -/
def labelOf : Token.Kind → Token.Kind → Option String
  | .ident name, .punct .colon | .literal (.string name), .punct .colon => some name
  | _, _ => none

/-- The end is no label. -/
lemma labelOf_eof (x : Token.Kind) : labelOf .eof x = none := by cases x <;> rfl

/-- Nothing is a label before the end. -/
lemma labelOf_eof_right (x : Token.Kind) : labelOf x .eof = none := by
  unfold labelOf
  split <;> first | rfl | contradiction

/-- A label has a colon behind it. -/
lemma eq_colon_of_labelOf {x next : Token.Kind} {name : String}
    (h : labelOf x next = some name) : x ≠ .eof ∧ next = .punct .colon := by
  unfold labelOf at h
  split at h <;> first | exact ⟨nofun, rfl⟩ | cases h

/-- The tokens of the label are taken. -/
def takeLabel : Option String → Parser (Option String)
  | some name => advance >>= fun _ => advance >>= fun _ => pure (some name)
  | none => pure none

/-- A label is told by two tokens. -/
lemma label_apply (c : Cursor) : label c = takeLabel (labelOf (c.kindAt 0) (c.kindAt 1)) c := by
  have hlabel (x next : Token.Kind) : (match x, next with
      | .ident name, .punct .colon | .literal (.string name), .punct .colon => do
        advance
        advance
        return some name
      | _, _ => return none) = takeLabel (labelOf x next) := by
    cases hlabel : labelOf x next with
    | some name =>
      unfold labelOf at hlabel
      split at hlabel <;> cases hlabel <;> rfl
    | none =>
      split
      · cases hlabel
      · cases hlabel
      · rfl
  rw [← kind_headD, ← hlabel]
  rfl

/-- The label of a condition. Where the window ends within what looks like one, there is none.

**Proof sketch.** A label is a name or a string with a colon behind it. Where there is one, both
tokens are taken, so they stand in the window too. Where there is none, the window shows the same
two tokens or an end of input, which starts no label and ends none. -/
lemma mirrors_label (hi : Nat) : Mirrors w 0 hi id label label := by
  intro c a c' _ hc h
  rw [label_apply] at h
  cases hlabel : labelOf (c.kindAt 0) (c.kindAt 1) with
  | some name =>
    rw [hlabel] at h
    obtain ⟨hfirst, hcolon⟩ := eq_colon_of_labelOf hlabel
    have htwo : MirrorsAt w (fun c => c.kindAt 0 ≠ .eof ∧ c.kindAt 1 = .punct .colon) 2 hi id
        (takeLabel (some name)) (takeLabel (some name)) := by
      have hone : MirrorsAt w (·.kindAt 0 = .punct .colon) 1 hi id
          (advance >>= fun _ => pure (some name)) (advance >>= fun _ => pure (some name)) :=
        mirrors_advance (l := 0) (k := hi) (fun c hc => by simp [hc]) (mirrors_pure rfl)
          (Nat.le_refl _) (Nat.le_succ _)
      refine mirrors_advance_to (fun _ hc => hc.1) ?_ hone (Nat.le_refl _) (Nat.le_succ _)
      intro c t ts hc hrest
      have hsecond := hc.2
      simp only [kindAt, hrest] at hsecond ⊢
      simpa using hsecond
    obtain ⟨used, htakes, hused, hmirror⟩ := htwo c a c' ⟨hfirst, hcolon⟩ hc h
    refine ⟨used, htakes, Nat.zero_le _, fun hle d hd hw => ?_⟩
    rw [label_apply, hd.kindAt_of_takes htakes hw (by omega),
      hd.kindAt_of_takes htakes hw (by omega), hlabel]
    exact hmirror hle d hd hw
  | none =>
    rw [hlabel] at h
    cases h
    refine ⟨[], hc.takes, Nat.zero_le _, fun _ d hd _ => ⟨d, hd, ?_⟩⟩
    have hnone : labelOf (d.kindAt 0) (d.kindAt 1) = none := by
      obtain h₀ | h₀ := hd.kindAt_eq_or 0
      · obtain h₁ | h₁ := hd.kindAt_eq_or 1
        · rw [h₀, h₁, hlabel]
        · rw [h₁, labelOf_eof_right]
      · rw [h₀, labelOf_eof]
    rw [label_apply, hnone]
    rfl

/-- What opens a selector by itself does so whatever follows. -/
lemma opensSelector_of_eof {x : Token.Kind} (h : opensSelector x .eof = true) (y : Token.Kind) :
    opensSelector x y = true := by
  unfold opensSelector at h
  split at h <;> first | rfl | contradiction

/-- What a name stands for depends on the two tokens behind it, which belong to it where they make
it a function or a selector.

**Proof sketch.** By cases on what the name turns out to be. For a function, two tokens are taken at
least, and for a selector three, so the window shows the same ones and decides alike. For a plain
name nothing but itself is taken, and an end of input in place of a token behind it does not make it
a function or a selector. -/
lemma mirrors_name {name : String} {A A' S S' V V' : Parser β}
    (hA : MirrorsAt w (·.kindAt 0 = .punct .arrow) 1 k m' A A')
    (hS : Mirrors w 2 k m' S S') (hV : Mirrors w 0 k m' V V') :
    MirrorsAt w (·.kindAt 0 = .ident name) 1 (k + 1) m'
      (peekKind 1 >>= fun next => peekKind 2 >>= fun afterNext => advance >>= fun _ =>
        if next = .punct .arrow then A
        else if (isCapitalized name && opensSelector next afterNext) = true then S else V)
      (peekKind 1 >>= fun next => peekKind 2 >>= fun afterNext => advance >>= fun _ =>
        if next = .punct .arrow then A'
        else if (isCapitalized name && opensSelector next afterNext) = true then S' else V') := by
  have hname {c : Cursor} (hc : c.kindAt 0 = .ident name) : c.kindAt 0 ≠ .eof := by simp [hc]
  intro c b c' hC hc hf
  change (advance >>= fun _ => if c.kindAt 1 = .punct .arrow then A
    else if (isCapitalized name && opensSelector (c.kindAt 1) (c.kindAt 2)) = true then S
      else V) c = .ok (b, c') at hf
  -- Looking ahead changes nothing, so the parser is one step and a decision.
  have hrun (d : Cursor) : (peekKind 1 >>= fun next => peekKind 2 >>= fun afterNext =>
      advance >>= fun _ => if next = .punct .arrow then A'
        else if (isCapitalized name && opensSelector next afterNext) = true then S' else V') d =
      (advance >>= fun _ => if d.kindAt 1 = .punct .arrow then A'
        else if (isCapitalized name && opensSelector (d.kindAt 1) (d.kindAt 2)) = true then S'
          else V') d := rfl
  simp only [hrun]
  split_ifs at hf with harrow hselector
  · have htaken : MirrorsAt w (fun c => c.kindAt 0 = .ident name ∧ c.kindAt 1 = .punct .arrow) 2
        (k + 1) m' (advance >>= fun _ => A) (advance >>= fun _ => A') := by
      refine mirrors_advance_to (fun c hc => hname hc.1) ?_ hA (Nat.le_refl _) (Nat.le_refl _)
      intro c t ts hc hrest
      have hsecond := hc.2
      simp only [kindAt, hrest] at hsecond ⊢
      simpa using hsecond
    obtain ⟨used, htakes, hused, hmirror⟩ := htaken c b c' ⟨hC, harrow⟩ hc hf
    refine ⟨used, htakes, by omega, fun hle d hd hw => ?_⟩
    rw [hd.kindAt_of_takes htakes hw (n := 1) (by omega), if_pos harrow]
    exact hmirror hle d hd hw
  · have htaken : MirrorsAt w (·.kindAt 0 = .ident name) 3 (k + 1) m' (advance >>= fun _ => S)
        (advance >>= fun _ => S') :=
      mirrors_advance (fun c => hname) hS (Nat.le_refl _) (Nat.le_refl _)
    obtain ⟨used, htakes, hused, hmirror⟩ := htaken c b c' hC hc hf
    refine ⟨used, htakes, by omega, fun hle d hd hw => ?_⟩
    rw [hd.kindAt_of_takes htakes hw (n := 1) (by omega),
      hd.kindAt_of_takes htakes hw (n := 2) (by omega), if_neg harrow, if_pos hselector]
    exact hmirror hle d hd hw
  · have htaken : MirrorsAt w (·.kindAt 0 = .ident name) 1 (k + 1) m' (advance >>= fun _ => V)
        (advance >>= fun _ => V') :=
      mirrors_advance (fun c => hname) hV (Nat.le_refl _) (Nat.le_refl _)
    obtain ⟨used, htakes, hused, hmirror⟩ := htaken c b c' hC hc hf
    refine ⟨used, htakes, hused, fun hle d hd hw => ?_⟩
    have harrow' : d.kindAt 1 ≠ .punct .arrow := by
      obtain h₁ | h₁ := hd.kindAt_eq_or 1 <;> rw [h₁]
      · exact harrow
      · simp
    have hselector' : ¬(isCapitalized name && opensSelector (d.kindAt 1) (d.kindAt 2)) = true := by
      simp only [Bool.and_eq_true, not_and] at hselector ⊢
      intro hcapital hopens
      refine hselector hcapital ?_
      obtain h₁ | h₁ := hd.kindAt_eq_or 1 <;> rw [h₁] at hopens
      · obtain h₂ | h₂ := hd.kindAt_eq_or 2 <;> rw [h₂] at hopens
        · exact hopens
        · exact opensSelector_of_eof hopens _
      · simp [opensSelector] at hopens
    rw [if_neg harrow', if_neg hselector']
    exact hmirror hle d hd hw

/-! ### Fuel -/

/-- Without fuel the second step has no tokens to take. -/
lemma mirrors_of_succ (depth : Nat) (hdepth : depth < 24) {f : Nat → Parser α} {fuel : Nat}
    (hfuel : 24 * hi ≤ fuel + depth)
    (h : ∀ fuel, 24 * hi ≤ fuel + 1 + depth → Mirrors w lo hi m p (f (fuel + 1))) :
    Mirrors w lo hi m p (f fuel) := by
  cases fuel with
  | zero => exact (h (24 * hi) (by omega)).of_le (by omega)
  | succ fuel => exact h fuel hfuel

/-- Parameters are read alike in a window. -/
lemma mirrors_params (n : Nat) {fuel : Nat} (seen : List String) (hfuel : 24 * hi ≤ fuel) :
    Mirrors w 1 hi id (params n seen) (params fuel seen) := by
  induction n generalizing fuel seen hi with
  | zero => exact mirrors_unexpected _
  | succ n ih =>
    refine mirrors_of_succ 0 (by decide) (f := (params · seen)) hfuel fun fuel hfuel => ?_
    refine mirrors_eat (l := 0) (k := hi) (mirrors_pure rfl) ?_ (Nat.le_refl _) (Nat.le_succ _)
    refine mirrors_here (Nat.le_refl _) fun start => ?_
    refine (mirrors_identifier hi).next (fun name => ?_) (Nat.le_refl _)
    refine .ite (fun _ => mirrors_fail_bind _ _) fun _ => ?_
    refine mirrors_eat (l := 0) (k := hi - 1) ?_ ?_ (Nat.zero_le _) (by omega)
    · have hless : 24 * (hi - 1) ≤ fuel := by omega
      exact (ih (name :: seen) hless).next (fun rest => mirrors_pure rfl) (Nat.zero_le _)
    · exact (mirrors_expect _ hi).next (fun _ => mirrors_pure rfl) (Nat.zero_le _)

end Rules

end Parser

end Retarget
