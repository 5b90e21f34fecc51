import Retarget.Proofs.Spans.Mirror

set_option autoImplicit false

/-!
# Expressions on their own

Where operators group to the left, the parser has an expression at hand before it knows whether more
belongs to it. Up to that point it has done in a window what it has done among all tokens; so if the
window ends there, it stops with that expression. An expression that the parser builds can therefore
be cut out: on their own, its tokens are parsed as the same expression.

## Main definitions

* `Retarget.Parser.Stage.Reached` — a stage has an expression at hand, in every window.

## Main results

* `Retarget.Parser.Stage.Reached.grow` — one operator more.
* `Retarget.Parser.Stage.Reached.parseTokens` — the expression on its own.
-/

namespace Retarget

/-- The byte offset of the token to come. -/
def Cursor.here (c : Cursor) : Nat := (c.rest.headD (Token.atEnd c.stop)).start

/-- The position is that of the next token. -/
lemma Cursor.here_of_rest {c : Cursor} {t : Token} {ts : List Token} (h : c.rest = t :: ts) :
    c.here = t.start := by
  rw [here, h]
  rfl

/-- A token that is taken stands in the window. -/
lemma Window.Shows.here {w : Window} {c c' d : Cursor} {used : List Token} (h : w.Shows c d)
    (htakes : c.Takes used c') (hw : w.beyond <:+ c'.rest) (hused : used ≠ []) :
    d.here = c.here - w.shift := by
  obtain ⟨t, ts, rfl⟩ := List.exists_cons_of_ne_nil hused
  have hrest : c.rest = t :: (ts ++ c'.rest) := htakes.rest
  obtain ⟨d', -, -, -, rfl⟩ := h.cons hrest (hw.trans (List.suffix_append ts _))
  rw [Cursor.here_of_rest hrest]
  rfl

namespace Parser

variable {w : Window} {c₀ c c' d₀ d : Cursor} {used : List Token} {v v' : Expr Span} {n m : Nat}

/-- Asking for the position leaves the cursor. -/
lemma here_apply (c : Cursor) : here c = .ok (c.here, c) := rfl

/-- The tokens that a step takes are taken in every window where they stand. -/
lemma exists_takes {α : Type} {p : Parser α} {q : Window → Nat → Parser α} {m : Window → α → α}
    {depth : Nat} {a : α}
    (h : ∀ w k fuel, 24 * k ≤ fuel + depth → Mirrors w 1 k (m w) p (q w fuel)) (hc : c.Ended)
    (hp : p c = .ok (a, c')) : ∃ used, c.Takes used c' ∧ used ≠ [] ∧
      ∀ w fuel d, 24 * (used.length + 1) ≤ fuel + depth → w.Shows c d → w.beyond <:+ c'.rest →
        ∃ d', w.Shows c' d' ∧ q w fuel d = .ok (m w a, d') := by
  obtain ⟨used, htakes, hused, -⟩ := h ⟨0, [], 0⟩ 0 0 (Nat.zero_le _) c a c' trivial hc hp
  refine ⟨used, htakes, List.length_pos_iff.mp hused, fun w fuel d hfuel hd hw => ?_⟩
  obtain ⟨used', htakes', -, hmirror⟩ := h w _ fuel hfuel c a c' trivial hc hp
  obtain rfl := htakes'.unique htakes
  exact hmirror (Nat.lt_succ_self _) d hd hw

namespace Stage

variable {s : Stage}

/-! ## Operands -/

/-- The step that reads the first operand of the stage. Powers and what has an operator in front are
read whole. -/
def first : Stage → Nat → Parser (Expr Span)
  | .whole, fuel => binary fuel .disjunction
  | .level l, fuel => operand fuel l
  | .power, fuel => Parser.power (fuel + 1)
  | .unary, fuel => Parser.unary (fuel + 1)
  | .chain, fuel => primary fuel

/-- A stage reads its first operand and then goes on behind it. -/
lemma step_succ (s : Stage) (fuel : Nat) (c : Cursor) :
    s.step (fuel + 1) c = (s.first fuel >>= s.resume fuel c.here) c := by
  cases s with
  | whole | level | chain => rfl
  | power => exact (congrFun (bind_pure (Parser.power (fuel + 1))) c).symm
  | unary => exact (congrFun (bind_pure (Parser.unary (fuel + 1))) c).symm

/-- The first operand of a stage is read alike in a window. -/
lemma mirrors_first (w : Window) (s : Stage) (n : Nat) {k fuel : Nat}
    (hfuel : 24 * k ≤ fuel + (5 + s.depth)) :
    Mirrors w 1 k w.back (s.first n) (s.first fuel) := by
  cases s with
  | whole => exact (grammarMirrors w n).binary _ (by simp only [depth] at hfuel ⊢; omega)
  | level l => exact (grammarMirrors w n).operand l (by omega)
  | power => exact (grammarMirrors w (n + 1)).power (by simp only [depth] at hfuel; omega)
  | unary => exact (grammarMirrors w (n + 1)).unary (by simp only [depth] at hfuel; omega)
  | chain => exact (grammarMirrors w n).primary (by simp only [depth] at hfuel; omega)

/-! ## What a stage has at hand -/

/-- From `c₀` to `c` the stage has read the expression: so it has in every window where the tokens
stand, with fuel left for the tokens to come. -/
structure Reached (s : Stage) (c₀ : Cursor) (used : List Token) (v : Expr Span) (c : Cursor) :
    Prop where
  takes : c₀.Takes used c
  ne_nil : used ≠ []
  run {w : Window} {d₀ : Cursor} (fuel more : Nat) : 1 ≤ more →
    24 * (used.length + more) ≤ fuel + s.depth → w.Shows c₀ d₀ → w.beyond <:+ c.rest →
      ∃ left d, w.Shows c d ∧ 24 * more ≤ left ∧
        s.step fuel d₀ = s.resume left (c₀.here - w.shift) (w.back v) d

/-- The first operand. -/
lemma exists_reached_of_first (hc : c₀.Ended) (h : s.first n c₀ = .ok (v, c)) :
    ∃ used, s.Reached c₀ used v c := by
  obtain ⟨used, htakes, hne, hmirror⟩ :=
    exists_takes (fun w k fuel => mirrors_first w s n) hc h
  refine ⟨used, htakes, hne, ?_⟩
  intro w d₀ fuel more hmore hfuel hd hw
  have hdepth := s.depth_le
  obtain ⟨fuel, rfl⟩ : ∃ f, fuel = f + 1 := Nat.exists_eq_succ_of_ne_zero (by omega)
  obtain ⟨d, hd', hrun⟩ := hmirror w fuel d₀ (by omega) hd hw
  refine ⟨fuel, d, hd', ?_, ?_⟩
  · have hlength := List.length_pos_iff.mpr hne
    omega
  · rw [step_succ, bind_of_eq hrun, hd.here htakes hw hne]

/-- One operator more.

**Proof sketch.** The operator and its operands are read behind the tokens used so far, and alike in
every window that holds them (`mirrors_grow`). The runs are put behind each other. -/
lemma Reached.grow (h : s.Reached c₀ used v c) (hc : c.Ended) (hkind : s.Continues (c.kindAt 0))
    (hgrow : s.grow n c₀.here v c = .ok (v', c')) : ∃ used', s.Reached c₀ used' v' c' := by
  obtain ⟨used', htakes, hne, hmirror⟩ :=
    exists_takes (fun w k fuel => mirrors_grow (grammarMirrors w n) s c₀.here v) hc hgrow
  have hlength := List.length_pos_iff.mpr hne
  refine ⟨used ++ used', h.takes.trans htakes, List.append_ne_nil_of_right_ne_nil _ hne, ?_⟩
  intro w d₀ fuel more hmore hfuel hd hw
  rw [List.length_append, Nat.add_assoc] at hfuel
  have hw' : w.beyond <:+ c.rest := by
    rw [htakes.rest]
    exact hw.trans (List.suffix_append used' _)
  obtain ⟨left, d, hd', hleft, hrun⟩ := h.run fuel _ (by omega) hfuel hd hw'
  obtain ⟨left, rfl⟩ : ∃ l, left = l + 1 := Nat.exists_eq_succ_of_ne_zero (by omega)
  obtain ⟨d', hd'', hrun'⟩ := hmirror w left d (by omega) hd' hw
  refine ⟨left, d', hd'', by omega, ?_⟩
  rw [hrun, resume_of_continues (by rwa [hd'.kindAt_of_takes htakes hw hlength]),
    bind_of_eq hrun']

end Stage

/-! ## Up to whole expressions -/

/-- An operator in front of an expression starts no primary one. -/
lemma primary_ne_ok {op : UnaryOp} (h : UnaryOp.ofToken? (c.kindAt 0) = some op) :
    primary m c ≠ .ok (v, c') := by
  intro hprimary
  cases m with
  | zero => cases hprimary
  | succ m =>
    rw [primary, bind_of_eq (here_apply c), bind_of_eq (peek_apply c), kind_headD] at hprimary
    revert h hprimary
    generalize c.kindAt 0 = x
    intro h hprimary
    unfold UnaryOp.ofToken? at h
    split at h
    · cases hprimary
    · cases hprimary
    · cases hprimary
    · cases h

/-- What starts a primary expression is no operator in front of one. -/
lemma ofToken?_of_chain (h : chain m c = .ok (v, c')) : UnaryOp.ofToken? (c.kindAt 0) = none := by
  cases m with
  | zero => cases h
  | succ m =>
    obtain ⟨a, c₁, hprimary, -⟩ := exists_of_bind ((Stage.step_succ .chain m c).symm.trans h)
    by_contra hunary
    obtain ⟨op, hop⟩ := Option.ne_none_iff_exists'.mp hunary
    exact primary_ne_ok hop hprimary

section End

variable (hd : d.kindAt 0 = .eof)

include hd

/-- At the end a stage returns its first operand. -/
lemma step_of_first {s : Stage} (hm : 0 < m) (h : s.first m d₀ = .ok (v, d)) :
    s.step (m + 1) d₀ = .ok (v, d) := by
  obtain ⟨m, rfl⟩ := Nat.exists_eq_succ_of_ne_zero (Nat.ne_of_gt hm)
  rw [Stage.step_succ, bind_of_eq h]
  exact Stage.resume_of_not (by rw [hd]; exact s.not_continues_eof)

/-- What a tighter level reads to the end is read by a level. -/
lemma binary_of_tighter {l l' : Level} (hl : l.tighter? = some l')
    (h : binary m l' d₀ = .ok (v, d)) : binary (m + 2) l d₀ = .ok (v, d) := by
  refine step_of_first hd (s := .level l) (Nat.succ_pos m) ?_
  rw [Stage.first, operand, hl]
  exact h

/-- An expression of a level is one of the next looser level, down to the loosest. -/
lemma expression_of_binary : ∀ (l : Level) {m : Nat}, 0 < m → binary m l d₀ = .ok (v, d) →
    expression (m + (Stage.level l).depth) d₀ = .ok (v, d)
  | .disjunction, _, hm, h => step_of_first hd (s := .whole) hm h
  | .conjunction, _, _, h =>
    expression_of_binary .disjunction (Nat.succ_pos _) (binary_of_tighter hd rfl h)
  | .equality, _, _, h =>
    expression_of_binary .conjunction (Nat.succ_pos _) (binary_of_tighter hd rfl h)
  | .comparison, _, _, h =>
    expression_of_binary .equality (Nat.succ_pos _) (binary_of_tighter hd rfl h)
  | .sum, _, _, h =>
    expression_of_binary .comparison (Nat.succ_pos _) (binary_of_tighter hd rfl h)
  | .product, _, _, h =>
    expression_of_binary .sum (Nat.succ_pos _) (binary_of_tighter hd rfl h)
termination_by l => (Stage.level l).depth
decreasing_by all_goals decide

/-- A power that is read to the end is a whole expression. -/
lemma expression_of_power (h : power m d₀ = .ok (v, d)) : expression (m + 13) d₀ = .ok (v, d) :=
  expression_of_binary hd .product (Nat.succ_pos (m + 1))
    (step_of_first hd (s := .level .product) (Nat.succ_pos m) h)

/-- An operation with one operand that is read to the end is a whole expression. -/
lemma expression_of_unary (h : unary m d₀ = .ok (v, d)) : expression (m + 14) d₀ = .ok (v, d) := by
  have hcaret : d.kindAt 0 ≠ .punct .caret := by simp [hd]
  refine expression_of_power hd (m := m + 1) ?_
  rw [power, bind_of_eq (here_apply d₀), bind_of_eq h]
  exact eat_of_ne hcaret _

/-- Calls and member reads that are read to the end are a whole expression. -/
lemma expression_of_chain (h : chain m d₀ = .ok (v, d)) : expression (m + 15) d₀ = .ok (v, d) := by
  refine expression_of_unary hd (m := m + 1) ?_
  rw [unary, bind_of_eq (here_apply d₀), bind_of_eq (peek_apply d₀), kind_headD,
    ofToken?_of_chain h]
  exact h

/-- What a stage reads to the end is a whole expression. -/
lemma expression_of_step (s : Stage) (hm : 0 < m) (h : s.step m d₀ = .ok (v, d)) :
    expression (m + s.depth) d₀ = .ok (v, d) := by
  cases s with
  | whole => exact h
  | level l => exact expression_of_binary hd l hm h
  | power => exact expression_of_power hd h
  | unary => exact expression_of_unary hd h
  | chain => exact expression_of_chain hd h

end End

/-- An expression that a stage has at hand is what its tokens are parsed as on their own.

**Proof sketch.** The tokens of the expression are a window of all tokens, in which the parser does
what it did (`Reached.run`). The window ends there, so no stage goes on, and the whole input has
been read. -/
lemma Stage.Reached.parseTokens {s : Stage} (h : s.Reached c₀ used v c) (hstop : c₀.stop ≤ c₀.here)
    (hstart : ∀ t ∈ used, c₀.here ≤ t.start) (size : Nat) :
    Retarget.parseTokens (used.map (Token.back c₀.here) ++ [Token.atEnd size]) =
      .ok (v.mapNotes (Span.back c₀.here)) := by
  have hd₀ : (⟨c₀.here, c.rest, size⟩ : Window).Shows c₀
      ⟨used.map (Token.back c₀.here) ++ [Token.atEnd size], 0⟩ :=
    ⟨used, h.takes.rest, hstart, by rw [Nat.sub_eq_zero_of_le hstop]⟩
  have hdepth := s.depth_le
  obtain ⟨left, d, hd, hleft, hrun⟩ := h.run (24 * (used.length + 2) - s.depth) 1
    (Nat.le_refl _) (by omega) hd₀ (List.suffix_refl _)
  obtain ⟨left, rfl⟩ : ∃ l, left = l + 1 := Nat.exists_eq_succ_of_ne_zero (by omega)
  have heof : d.kindAt 0 = .eof := by
    unfold Cursor.kindAt
    rw [hd.rest_of_beyond rfl]
    rfl
  rw [Stage.resume_of_not (by rw [heof]; exact s.not_continues_eof)] at hrun
  have hexpression := expression_of_step heof s (by omega) hrun
  rw [Nat.sub_add_cancel (by omega)] at hexpression
  have hlength : 24 * ((used.map (Token.back c₀.here) ++ [Token.atEnd size]).length + 1) =
      24 * (used.length + 2) := by simp
  unfold Retarget.parseTokens Parser.whole
  rw [hlength]
  change ((expression _ >>= _) _).map Prod.fst = _
  rw [bind_of_eq hexpression, bind_of_eq (peek_apply d), kind_headD, if_pos heof]
  rfl

end Parser

end Retarget
