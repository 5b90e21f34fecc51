import Retarget.Proofs.Spans.Window

set_option autoImplicit false

/-!
# The grammar in a window

Every step of the grammar takes in a window what it takes among all tokens, with the same result but
for the spans.

A step of the grammar calls others with less fuel. Twenty-four for every token suffice, the mark of
the end included, and a step that is called before a token is taken may have a little less: as many
as there are steps from an expression to it, and four more.

## Main definitions

* `Retarget.Window.back` — an expression as it stands in the window.
* `Retarget.Parser.GrammarMirrors` — what every step of the grammar does in a window.

## Main results

* `Retarget.Parser.grammarMirrors` — the steps of the grammar, whatever their fuel.
-/

namespace Retarget

/-- The expression as it stands in the window. -/
abbrev Window.back (w : Window) : Expr Span → Expr Span := Expr.mapNotes (Span.back w.shift)

namespace Parser

open Retarget.Expr

variable {w : Window} {hi n : Nat}

/-! ## One operator more -/

namespace Stage

/-- The token is an operator that the stage takes behind an expression. -/
def Continues : Stage → Token.Kind → Prop
  | .whole, x => x = .punct .bar ∨ x = .punct .pipe
  | .level l, x => l.operator? x ≠ none
  | .power, _ | .unary, _ => False
  | .chain, x => x = .punct .dot ∨ x = .punct .openParen

/-- The expression with one more operator of the stage behind it. -/
def grow : Stage → Nat → Nat → Expr Span → Parser (Expr Span)
  | .whole, fuel, start, value => do
    if ← eat .bar then
      let more ← candidates fuel
      return .alternative (← spanFrom start) (value :: more)
    expect .pipe
    let function ← identifier
    let args ← if ← eat .openParen then items fuel .closeParen else pure []
    return .pipe (← spanFrom start) value function args
  | .level l, fuel, start, lhs => do
    match l.operator? (← peek).kind with
    | none => unexpected .expression
    | some op =>
      advance
      let rhs ← operand fuel l
      return .binary (← spanFrom start) op lhs rhs
  | .power, _, _, _ | .unary, _, _, _ => unexpected .expression
  | .chain, fuel, start, value => do
    if ← eat .dot then
      let field ← identifier
      return .member (← spanFrom start) value field
    expect .openParen
    let args ← items fuel .closeParen
    return .call (← spanFrom start) value args

variable {s : Stage} {n start : Nat} {v : Expr Span} {c : Cursor}

/-- Where no operator follows, the stage returns what has been read. -/
lemma resume_of_not (h : ¬s.Continues (c.kindAt 0)) :
    s.resume (n + 1) start v c = .ok (v, c) := by
  cases s with
  | whole =>
    obtain ⟨hbar, hpipe⟩ := not_or.mp h
    exact (eat_of_ne hbar _).trans (eat_of_ne hpipe _)
  | level l =>
    have hnone : l.operator? (c.rest.headD (Token.atEnd c.stop)).kind = none := by
      rw [kind_headD]
      exact not_not.mp h
    change (peek >>= _) c = _
    rw [bind_of_eq (peek_apply c), hnone]
    rfl
  | chain =>
    obtain ⟨hdot, hopen⟩ := not_or.mp h
    exact (eat_of_ne hdot _).trans (eat_of_ne hopen _)
  | power => rfl
  | unary => rfl

/-- Where an operator follows, the stage takes it and goes on.

**Proof sketch.** By cases on the stage, and where a stage has two operators on the one that
follows. Both sides are unfolded to the same steps, with the tests for an operator decided by the
token that stands there. -/
lemma resume_of_continues (h : s.Continues (c.kindAt 0)) :
    s.resume (n + 1) start v c = (s.grow n start v >>= s.resume n start) c := by
  cases s with
  | whole =>
    change pipeline (n + 1) start v c = (grow .whole n start v >>= pipeline n start) c
    rw [pipeline, grow, bind_assoc]
    obtain hbar | hpipe := h
    · rw [eat_of_eq hbar, eat_of_eq hbar]
      simp only [if_true, bind_assoc, pure_bind]
    · have hbar : c.kindAt 0 ≠ .punct .bar := by simp [hpipe]
      rw [eat_of_ne hbar, eat_of_ne hbar]
      simp only [Bool.false_eq_true, if_false, bind_assoc, pure_bind]
      rw [eat_of_eq hpipe, expect_of_eq hpipe]
      simp only [if_true]
      refine congrArg (fun f => (advance >>= f) c) (funext fun _ => ?_)
      refine congrArg _ (funext fun function => ?_)
      refine congrArg _ (funext fun opened => ?_)
      split <;> simp only [bind_assoc, pure_bind]
  | level l =>
    change binaryTail (n + 1) l start v c = (grow (.level l) n start v >>= binaryTail n l start) c
    rw [binaryTail, grow, bind_assoc, bind_of_eq (peek_apply c), bind_of_eq (peek_apply c)]
    obtain ⟨op, hop⟩ := Option.ne_none_iff_exists'.mp h
    simp only [kind_headD, hop, bind_assoc, pure_bind]
  | chain =>
    change chainTail (n + 1) start v c = (grow .chain n start v >>= chainTail n start) c
    rw [chainTail, grow, bind_assoc]
    obtain hdot | hopen := h
    · rw [eat_of_eq hdot, eat_of_eq hdot]
      simp only [if_true, bind_assoc, pure_bind]
    · have hdot : c.kindAt 0 ≠ .punct .dot := by simp [hopen]
      rw [eat_of_ne hdot, eat_of_ne hdot]
      simp only [Bool.false_eq_true, if_false, bind_assoc, pure_bind]
      rw [eat_of_eq hopen, expect_of_eq hopen]
      rfl
  | power => exact h.elim
  | unary => exact h.elim

/-- No operator stands at the end. -/
lemma not_continues_eof (s : Stage) : ¬s.Continues .eof := by
  cases s with
  | level l => cases l <;> simp [Continues, Level.operator?]
  | _ => simp [Continues]

end Stage

/-! ## The steps of the grammar -/

/-- With enough fuel for fewer than `k` tokens, every step of the grammar does in the window what it
does among all tokens. -/
structure GrammarMirrors (w : Window) (n : Nat) : Prop where
  expression {k fuel : Nat} : 24 * k ≤ fuel + 4 →
    Mirrors w 1 k w.back (expression n) (expression fuel)
  resume {k fuel : Nat} (s : Stage) (start : Nat) (value : Expr Span) : 24 * k ≤ fuel →
    Mirrors w 0 k w.back (s.resume n start value) (s.resume fuel (start - w.shift) (w.back value))
  candidates {k fuel : Nat} : 24 * k ≤ fuel + 4 →
    Mirrors w 1 k (mapNotesAll (Span.back w.shift)) (candidates n) (candidates fuel)
  binary {k fuel : Nat} (level : Level) : 24 * k ≤ fuel + 4 + (Stage.level level).depth →
    Mirrors w 1 k w.back (binary n level) (binary fuel level)
  operand {k fuel : Nat} (level : Level) : 24 * k ≤ fuel + 5 + (Stage.level level).depth →
    Mirrors w 1 k w.back (operand n level) (operand fuel level)
  power {k fuel : Nat} : 24 * k ≤ fuel + 17 → Mirrors w 1 k w.back (power n) (power fuel)
  unary {k fuel : Nat} : 24 * k ≤ fuel + 18 → Mirrors w 1 k w.back (unary n) (unary fuel)
  chain {k fuel : Nat} : 24 * k ≤ fuel + 19 → Mirrors w 1 k w.back (chain n) (chain fuel)
  primary {k fuel : Nat} : 24 * k ≤ fuel + 20 → Mirrors w 1 k w.back (primary n) (primary fuel)
  items {k fuel : Nat} (close : Punct) : 24 * k ≤ fuel →
    Mirrors w 1 k (mapNotesAll (Span.back w.shift)) (items n close) (items fuel close)
  fields {k fuel : Nat} (seen : List String) : 24 * k ≤ fuel →
    Mirrors w 1 k (mapNotesNamed (Span.back w.shift)) (fields n seen) (fields fuel seen)
  bindings {k fuel : Nat} : 24 * k ≤ fuel →
    Mirrors w 1 k (mapNotesNamed (Span.back w.shift)) (bindings n) (bindings fuel)
  condition {k fuel : Nat} : 24 * k ≤ fuel + 3 →
    Mirrors w 1 k (fun c => ⟨c.label, w.back c.test⟩) (condition n) (condition fuel)
  conditions {k fuel : Nat} : 24 * k ≤ fuel + 2 →
    Mirrors w 1 k (mapNotesConditions (Span.back w.shift)) (conditions n) (conditions fuel)
  guarded {k fuel : Nat} (start : Nat) (kind : GuardKind) : 24 * k ≤ fuel →
    Mirrors w 1 k w.back (guarded n start kind) (guarded fuel (start - w.shift) kind)
  constraints {k fuel : Nat} : 24 * k ≤ fuel →
    Mirrors w 1 k (mapNotesConditions (Span.back w.shift)) (constraints n) (constraints fuel)
  selector {k fuel : Nat} (start : Nat) (typeName : String) : 24 * k ≤ fuel →
    Mirrors w 2 k w.back (selector n start typeName) (selector fuel (start - w.shift) typeName)

/-- Without fuel nothing is read. -/
lemma grammarMirrors_zero : GrammarMirrors w 0 := by
  constructor
  case resume =>
    intro k fuel s start value _
    cases s with
    | power | unary => exact mirrors_pure rfl
    | _ => exact mirrors_unexpected _
  all_goals intros; exact mirrors_unexpected _

section Grammar

variable {fuel : Nat} (ih : GrammarMirrors w n)

include ih

/-- A whole expression is read alike in a window. -/
lemma mirrors_expression (hfuel : 24 * hi ≤ fuel + 1 + 4) :
    Mirrors w 1 hi w.back (expression (n + 1)) (expression (fuel + 1)) := by
  refine mirrors_here (Nat.le_refl _) fun start => ?_
  have hrest : 24 * (hi - 1) ≤ fuel := by omega
  exact (ih.binary .disjunction (by simp only [Stage.depth]; omega)).bind
    (fun first => ih.resume .whole start first hrest) (by omega) (by omega) (by omega)

/-- Candidates are read alike in a window. -/
lemma mirrors_candidates (hfuel : 24 * hi ≤ fuel + 1 + 4) :
    Mirrors w 1 hi (mapNotesAll (Span.back w.shift)) (candidates (n + 1))
      (candidates (fuel + 1)) := by
  have hrest : 24 * (hi - 1) ≤ fuel := by omega
  refine (ih.binary .disjunction (by simp only [Stage.depth]; omega)).bind (l := 0) (k := hi - 1)
    (fun candidate => ?_) (by omega) (by omega) (by omega)
  refine mirrors_eat (l := 1) (k := hi - 1) ?_ (mirrors_pure rfl) (by omega) (by omega)
  exact (ih.candidates (k := hi - 1) (by omega)).next (fun _ => mirrors_pure rfl) (by omega)

/-- The operations of a level are read alike in a window. -/
lemma mirrors_binary (level : Level) (hfuel : 24 * hi ≤ fuel + 1 + 4 + (Stage.level level).depth) :
    Mirrors w 1 hi w.back (binary (n + 1) level) (binary (fuel + 1) level) := by
  have hdepth := (Stage.level level).depth_le
  have hrest : 24 * (hi - 1) ≤ fuel := by omega
  refine mirrors_here (Nat.le_refl _) fun start => ?_
  exact (ih.operand level (by omega)).bind (fun first => ih.resume (.level level) start first hrest)
    (by omega) (by omega) (by omega)

/-- The operand of an operation is read alike in a window. -/
lemma mirrors_operand (level : Level)
    (hfuel : 24 * hi ≤ fuel + 1 + 5 + (Stage.level level).depth) :
    Mirrors w 1 hi w.back (operand (n + 1) level) (operand (fuel + 1) level) := by
  cases level with
  | product => exact ih.power (by simp only [Stage.depth] at hfuel; omega)
  | _ => exact ih.binary _ (by simp only [Stage.depth] at hfuel ⊢; omega)

/-- A power is read alike in a window. -/
lemma mirrors_power (hfuel : 24 * hi ≤ fuel + 1 + 17) :
    Mirrors w 1 hi w.back (power (n + 1)) (power (fuel + 1)) := by
  have hrest : 24 * (hi - 1) ≤ fuel := by omega
  refine mirrors_here (Nat.le_refl _) fun start => ?_
  refine (ih.unary (by omega)).next (fun base => ?_) (by omega)
  refine mirrors_eat (l := 1) (k := hi - 1) ?_ (mirrors_pure rfl) (by omega) (by omega)
  refine (ih.power (k := hi - 1) (by omega)).next (fun exponent => ?_) (by omega)
  exact mirrors_span start fun span => mirrors_pure rfl

/-- An operation with one operand is read alike in a window. -/
lemma mirrors_unary (hfuel : 24 * hi ≤ fuel + 1 + 18) :
    Mirrors w 1 hi w.back (unary (n + 1)) (unary (fuel + 1)) := by
  refine mirrors_here (Nat.le_refl _) fun start => mirrors_peek (Nat.le_refl _) fun t => ?_
  simp only [Token.back_kind]
  split
  · exact (ih.chain (by omega)).at
  · rename_i op ht
    refine mirrors_advance (l := 1) (k := hi - 1) (fun c hc heof => ?_) ?_ (by omega) (by omega)
    · rw [← hc, heof] at ht
      cases ht
    · refine (ih.unary (k := hi - 1) (by omega)).next (fun inner => ?_) (by omega)
      exact mirrors_span start fun span => mirrors_pure rfl

/-- Calls and member reads are read alike in a window. -/
lemma mirrors_chain (hfuel : 24 * hi ≤ fuel + 1 + 19) :
    Mirrors w 1 hi w.back (chain (n + 1)) (chain (fuel + 1)) := by
  have hrest : 24 * (hi - 1) ≤ fuel := by omega
  refine mirrors_here (Nat.le_refl _) fun start => ?_
  exact (ih.primary (by omega)).bind (fun first => ih.resume .chain start first hrest) (by omega)
    (by omega) (by omega)

/-- The items up to a closing mark are read alike in a window. -/
lemma mirrors_items (close : Punct) (hfuel : 24 * hi ≤ fuel + 1) :
    Mirrors w 1 hi (mapNotesAll (Span.back w.shift)) (items (n + 1) close)
      (items (fuel + 1) close) := by
  have hrest : 24 * (hi - 1) ≤ fuel := by omega
  refine mirrors_eat (l := 0) (k := hi) (mirrors_pure rfl) ?_ (by omega) (by omega)
  refine (ih.expression (k := hi - 1) (by omega)).bind (l := 1) (k := hi) (fun item => ?_)
    (by omega) (by omega) (by omega)
  refine mirrors_eat (l := 1) (k := hi - 1) ?_ ?_ (by omega) (by omega)
  · exact (ih.items close hrest).next (fun _ => mirrors_pure rfl) (by omega)
  · exact (mirrors_expect close hi).next (fun _ => mirrors_pure rfl) (by omega)

/-- The fields of a record are read alike in a window. -/
lemma mirrors_fields (seen : List String) (hfuel : 24 * hi ≤ fuel + 1) :
    Mirrors w 1 hi (mapNotesNamed (Span.back w.shift)) (fields (n + 1) seen)
      (fields (fuel + 1) seen) := by
  have hrest : 24 * (hi - 1) ≤ fuel := by omega
  refine mirrors_eat (l := 0) (k := hi) (mirrors_pure rfl) ?_ (by omega) (by omega)
  refine mirrors_here (Nat.le_refl _) fun start => ?_
  refine (mirrors_fieldName hi).bind (l := 1) (k := hi) (fun name => ?_) (by omega) (by omega)
    (by omega)
  refine .ite (fun _ => mirrors_fail_bind _ _) fun _ => ?_
  refine (mirrors_expect _ hi).bind (l := 1) (k := hi) (fun _ => ?_) (by omega) (by omega)
    (by omega)
  refine (ih.expression (k := hi - 1) (by omega)).bind (l := 1) (k := hi) (fun value => ?_)
    (by omega) (by omega) (by omega)
  refine mirrors_eat (l := 1) (k := hi - 1) ?_ ?_ (by omega) (by omega)
  · exact (ih.fields _ hrest).next (fun _ => mirrors_pure rfl) (by omega)
  · exact (mirrors_expect _ hi).next (fun _ => mirrors_pure rfl) (by omega)

/-- The bindings of a `let` are read alike in a window. -/
lemma mirrors_bindings (hfuel : 24 * hi ≤ fuel + 1) :
    Mirrors w 1 hi (mapNotesNamed (Span.back w.shift)) (bindings (n + 1))
      (bindings (fuel + 1)) := by
  have hrest : 24 * (hi - 1) ≤ fuel := by omega
  refine (mirrors_identifier hi).next (fun name => ?_) (by omega)
  refine (mirrors_expect _ hi).next (fun _ => ?_) (by omega)
  refine (ih.expression (by omega)).next (fun value => ?_) (by omega)
  refine mirrors_eat (l := 1) (k := hi - 1) ?_ (mirrors_pure rfl) (by omega) (by omega)
  exact (ih.bindings hrest).next (fun _ => mirrors_pure rfl) (by omega)

/-- A condition is read alike in a window. -/
lemma mirrors_condition (hfuel : 24 * hi ≤ fuel + 1 + 3) :
    Mirrors w 1 hi (fun c => ⟨c.label, w.back c.test⟩) (condition (n + 1))
      (condition (fuel + 1)) := by
  refine (mirrors_label hi).bind (l := 1) (k := hi) (fun name => ?_) (by omega) (by omega)
    (by omega)
  exact (ih.expression (by omega)).next (fun _ => mirrors_pure rfl) (by omega)

/-- Conditions are read alike in a window. -/
lemma mirrors_conditions (hfuel : 24 * hi ≤ fuel + 1 + 2) :
    Mirrors w 1 hi (mapNotesConditions (Span.back w.shift)) (conditions (n + 1))
      (conditions (fuel + 1)) := by
  have hrest : 24 * (hi - 1) ≤ fuel := by omega
  refine (ih.condition (by omega)).next (fun first => ?_) (by omega)
  refine mirrors_eat (l := 1) (k := hi - 1) ?_ (mirrors_pure rfl) (by omega) (by omega)
  exact (ih.conditions (by omega)).next (fun _ => mirrors_pure rfl) (by omega)

/-- A guard or a check is read alike in a window. -/
lemma mirrors_guarded (start : Nat) (kind : GuardKind) (hfuel : 24 * hi ≤ fuel + 1) :
    Mirrors w 1 hi w.back (guarded (n + 1) start kind)
      (guarded (fuel + 1) (start - w.shift) kind) := by
  have hrest : 24 * (hi - 1) ≤ fuel := by omega
  refine (ih.conditions (k := hi - 1) (by omega)).bind (l := 1) (k := hi) (fun tests => ?_)
    (by omega) (by omega) (by omega)
  refine (mirrors_expectKeyword _ hi).bind (l := 1) (k := hi - 1) (fun _ => ?_) (by omega)
    (by omega) (by omega)
  refine (ih.expression (by omega)).next (fun body => ?_) (by omega)
  exact mirrors_span start fun span => mirrors_pure rfl

/-- The constraints of a selector are read alike in a window. -/
lemma mirrors_constraints (hfuel : 24 * hi ≤ fuel + 1) :
    Mirrors w 1 hi (mapNotesConditions (Span.back w.shift)) (constraints (n + 1))
      (constraints (fuel + 1)) := by
  have hrest : 24 * (hi - 1) ≤ fuel := by omega
  refine mirrors_eat (l := 0) (k := hi) (mirrors_pure rfl) ?_ (by omega) (by omega)
  refine (ih.condition (k := hi - 1) (by omega)).bind (l := 1) (k := hi) (fun first => ?_)
    (by omega) (by omega) (by omega)
  refine mirrors_eat (l := 1) (k := hi - 1) ?_ ?_ (by omega) (by omega)
  · exact (ih.constraints hrest).next (fun _ => mirrors_pure rfl) (by omega)
  · exact (mirrors_expect _ hi).next (fun _ => mirrors_pure rfl) (by omega)

/-- A selector is read alike in a window.

**Proof sketch.** The steps are followed in both parsers at once. The constraints in braces may be
missing, so what comes after them is stated first, for any constraints. -/
lemma mirrors_selector (start : Nat) (typeName : String) (hfuel : 24 * hi ≤ fuel + 1) :
    Mirrors w 2 hi w.back (selector (n + 1) start typeName)
      (selector (fuel + 1) (start - w.shift) typeName) := by
  have hrest : 24 * (hi - 1) ≤ fuel := by omega
  -- Two tokens at least are left: the parentheses around the arguments.
  have harguments (tests : List (Condition (Expr Span))) : Mirrors w 2 hi w.back
      (do
        let mark ← policy
        let opening ← here
        expect .openParen
        let args ← items n .closeParen
        if !arityFits mark args.length then failAt opening (.selectorArity typeName args.length)
        return .select (← spanFrom start) typeName mark tests args)
      (do
        let mark ← policy
        let opening ← here
        expect .openParen
        let args ← items fuel .closeParen
        if !arityFits mark args.length then failAt opening (.selectorArity typeName args.length)
        return .select (← spanFrom (start - w.shift)) typeName mark
          (mapNotesConditions (Span.back w.shift) tests) args) := by
    refine (mirrors_policy hi).bind (l := 2) (k := hi) (fun mark => ?_) (by omega) (by omega)
      (by omega)
    refine mirrors_here (by omega) fun opening => ?_
    refine (mirrors_expect _ hi).bind (l := 1) (k := hi - 1) (fun _ => ?_) (by omega) (by omega)
      (by omega)
    refine (ih.items _ hrest).next (fun args => ?_) (by omega)
    rw [length_mapNotesAll]
    refine .ite (fun _ => mirrors_fail_bind _ _) fun _ => ?_
    exact mirrors_span start fun span => mirrors_pure rfl
  refine mirrors_eat (l := 2) (k := hi - 1) ?_ (harguments []) (by omega) (by omega)
  exact (ih.constraints hrest).bind (l := 2) (k := hi) harguments (by omega) (by omega) (by omega)

/-- A primary expression is read alike in a window.

**Proof sketch.** Both parsers look at the same token. Each kind of token that starts an expression
is taken (`htaken`), the parts are read alike by the induction hypotheses with one step less, and
the nodes differ by the shift of their spans (`hdone`). -/
lemma mirrors_primary (hfuel : 24 * hi ≤ fuel + 1 + 20) :
    Mirrors w 1 hi w.back (primary (n + 1)) (primary (fuel + 1)) := by
  have hrest : 24 * (hi - 1) ≤ fuel := by omega
  refine mirrors_here (Nat.le_refl _) fun start => mirrors_peek (Nat.le_refl _) fun t => ?_
  have hdone {e e' : Span → Expr Span} (he : ∀ span, e' (span.back w.shift) = w.back (e span))
      (bound : Nat) : Mirrors w 0 bound w.back (do return e (← spanFrom start))
        (do return e' (← spanFrom (start - w.shift))) :=
    mirrors_span start fun span => mirrors_pure (he span)
  have htaken {l : Nat} {p q : Parser (Expr Span)} (ht : t.kind ≠ .eof)
      (h : Mirrors w l (hi - 1) w.back p q) : MirrorsAt w (·.kindAt 0 = t.kind) 1 hi w.back
        (advance >>= fun _ => p) (advance >>= fun _ => q) :=
    mirrors_advance (fun _ hc => hc ▸ ht) h (by omega) (by omega)
  simp only [Token.back_kind]
  split
  · exact htaken (by simp [*]) (hdone (fun _ => rfl) _)
  · exact htaken (by simp [*]) (hdone (fun _ => rfl) _)
  · exact htaken (by simp [*]) (hdone (fun _ => rfl) _)
  · exact htaken (by simp [*]) (hdone (fun _ => rfl) _)
  · refine htaken (l := 0) (by simp [*]) ?_
    refine (ih.bindings hrest).next (fun bound => ?_) (by omega)
    refine (mirrors_expectKeyword _ (hi - 1)).next (fun _ => ?_) (by omega)
    exact (ih.expression (by omega)).next (fun body => hdone (fun _ => rfl) _) (by omega)
  · refine htaken (l := 0) (by simp [*]) ?_
    refine (ih.expression (by omega)).next (fun test => ?_) (by omega)
    refine (mirrors_expectKeyword _ (hi - 1)).next (fun _ => ?_) (by omega)
    refine (ih.expression (by omega)).next (fun yes => ?_) (by omega)
    refine (mirrors_expectKeyword _ (hi - 1)).next (fun _ => ?_) (by omega)
    exact (ih.expression (by omega)).next (fun no => hdone (fun _ => rfl) _) (by omega)
  · refine htaken (l := 0) (by simp [*]) ?_
    refine (mirrors_expect _ (hi - 1)).next (fun _ => ?_) (by omega)
    refine (mirrors_params n [] hrest).next (fun names => ?_) (by omega)
    refine (ih.expression (by omega)).next (fun body => ?_) (by omega)
    exact (mirrors_expect _ (hi - 1)).next (fun _ => hdone (fun _ => rfl) _) (by omega)
  · exact htaken (by simp [*]) (ih.guarded _ _ hrest)
  · exact htaken (by simp [*]) (ih.guarded _ _ hrest)
  · rename_i name hkind
    rw [hkind]
    refine (mirrors_name (k := hi - 1) ?_ (ih.selector _ _ hrest) (hdone (fun _ => rfl) _)).mono
      (Nat.le_refl _) (by omega)
    refine mirrors_advance (l := 0) (k := hi - 1) (fun _ hc => by simp [hc]) ?_ (by omega)
      (by omega)
    exact (ih.expression (by omega)).next (fun body => hdone (fun _ => rfl) _) (by omega)
  · refine htaken (l := 0) (by simp [*]) ?_
    refine (ih.expression (by omega)).next (fun inner => ?_) (by omega)
    exact (mirrors_expect _ (hi - 1)).next (fun _ => mirrors_pure rfl) (by omega)
  · refine htaken (l := 0) (by simp [*]) ?_
    exact (ih.items _ hrest).next (fun elements => hdone (fun _ => rfl) _) (by omega)
  · refine htaken (l := 0) (by simp [*]) ?_
    exact (ih.fields _ hrest).next (fun named => hdone (fun _ => rfl) _) (by omega)
  · exact mirrors_unexpected _

/-- One operator more.

**Proof sketch.** By cases on the stage: the operator is taken, its operand is read alike with one
step less, and the node that is built has a span shifted by as much. -/
lemma mirrors_grow (s : Stage) (start : Nat) (value : Expr Span) (hfuel : 24 * hi ≤ fuel + 1) :
    Mirrors w 1 hi w.back (s.grow n start value)
      (s.grow fuel (start - w.shift) (w.back value)) := by
  have hrest : 24 * (hi - 1) ≤ fuel := by omega
  cases s with
  | whole =>
    refine mirrors_eat (l := 1) (k := hi - 1) ?_ ?_ (by omega) (by omega)
    · refine (ih.candidates (k := hi - 1) (by omega)).next (fun more => ?_) (by omega)
      exact mirrors_span start fun span => mirrors_pure rfl
    · refine (mirrors_expect _ hi).bind (l := 0) (k := hi - 1) (fun _ => ?_) (by omega) (by omega)
        (by omega)
      refine (mirrors_identifier (hi - 1)).next (fun function => ?_) (by omega)
      have hpipe (args : List (Expr Span)) : Mirrors w 0 (hi - 1) w.back
          (do return .pipe (← spanFrom start) value function args)
          (do
            let span ← spanFrom (start - w.shift)
            return .pipe span (w.back value) function (mapNotesAll (Span.back w.shift) args)) :=
        mirrors_span start fun span => mirrors_pure rfl
      refine mirrors_eat (l := 1) (k := hi - 1) ?_ (hpipe []) (by omega) (by omega)
      exact (ih.items _ hrest).next hpipe (by omega)
  | level l =>
    refine mirrors_peek (Nat.le_refl _) fun t => ?_
    simp only [Token.back_kind]
    split
    · exact mirrors_unexpected _
    · rename_i op ht
      refine mirrors_advance (l := 1) (k := hi - 1) (fun c hc heof => ?_) ?_ (by omega) (by omega)
      · rw [← hc, heof] at ht
        cases l <;> cases ht
      · refine (ih.operand (k := hi - 1) l (by omega)).next (fun rhs => ?_) (by omega)
        exact mirrors_span start fun span => mirrors_pure rfl
  | power => exact mirrors_unexpected _
  | unary => exact mirrors_unexpected _
  | chain =>
    refine mirrors_eat (l := 1) (k := hi - 1) ?_ ?_ (by omega) (by omega)
    · refine (mirrors_identifier (hi - 1)).next (fun field => ?_) (by omega)
      exact mirrors_span start fun span => mirrors_pure rfl
    · refine (mirrors_expect _ hi).bind (l := 0) (k := hi - 1) (fun _ => ?_) (by omega) (by omega)
        (by omega)
      refine (ih.items _ hrest).next (fun args => ?_) (by omega)
      exact mirrors_span start fun span => mirrors_pure rfl

/-- All operators behind an expression. In the window the stage also stops where the window ends.

**Proof sketch.** If an operator follows, the stage takes it and goes on in both parsers alike. If
none does, then none follows in the window either, where the same token stands or the end. -/
lemma mirrors_resume (s : Stage) (start : Nat) (value : Expr Span) (hfuel : 24 * hi ≤ fuel + 1) :
    Mirrors w 0 hi w.back (s.resume (n + 1) start value)
      (s.resume (fuel + 1) (start - w.shift) (w.back value)) := by
  have hrest : 24 * (hi - 1) ≤ fuel := by omega
  have hmore : Mirrors w 1 hi w.back (s.grow n start value >>= s.resume n start)
      (s.grow fuel (start - w.shift) (w.back value) >>= s.resume fuel (start - w.shift)) :=
    (mirrors_grow ih s start value hfuel).bind (fun value' => ih.resume s start value' hrest)
      (by omega) (by omega) (by omega)
  intro c v c' _ hc h
  by_cases hkind : s.Continues (c.kindAt 0)
  · rw [Stage.resume_of_continues hkind] at h
    obtain ⟨used, htakes, hused, hmirror⟩ := hmore c v c' trivial hc h
    refine ⟨used, htakes, Nat.zero_le _, fun hlt d hd hw => ?_⟩
    rw [Stage.resume_of_continues (by rwa [hd.kindAt_of_takes htakes hw hused])]
    exact hmirror hlt d hd hw
  · rw [Stage.resume_of_not hkind] at h
    cases h
    refine ⟨[], hc.takes, Nat.zero_le _, fun _ d hd _ => ⟨d, hd, Stage.resume_of_not ?_⟩⟩
    obtain hsame | heof := hd.kindAt_eq_or 0
    · rwa [hsame]
    · rw [heof]
      exact s.not_continues_eof

end Grammar

/-- Every step of the grammar does in a window what it does among all tokens.

**Proof sketch.** By induction on the number of steps. For each function of the grammar
`mirrors_of_succ` leaves the case of one step more on both sides, which is its lemma above. -/
lemma grammarMirrors (w : Window) (n : Nat) : GrammarMirrors w n := by
  induction n with
  | zero => exact grammarMirrors_zero
  | succ n ih =>
    exact
      { expression := fun h => mirrors_of_succ 4 (by decide) h fun _ => mirrors_expression ih
        resume := fun s start value h => mirrors_of_succ 0 (by decide)
          (f := (s.resume · (start - w.shift) (w.back value))) h
          fun _ => mirrors_resume ih s start value
        candidates := fun h => mirrors_of_succ 4 (by decide) h fun _ => mirrors_candidates ih
        binary := fun level h => by
          have hdepth := (Stage.level level).depth_le
          rw [Nat.add_assoc] at h
          exact mirrors_of_succ _ (by omega) (f := (binary · level)) h fun _ hfuel =>
            mirrors_binary ih level (by omega)
        operand := fun level h => by
          have hdepth := (Stage.level level).depth_le
          rw [Nat.add_assoc] at h
          exact mirrors_of_succ _ (by omega) (f := (operand · level)) h fun _ hfuel =>
            mirrors_operand ih level (by omega)
        power := fun h => mirrors_of_succ 17 (by decide) h fun _ => mirrors_power ih
        unary := fun h => mirrors_of_succ 18 (by decide) h fun _ => mirrors_unary ih
        chain := fun h => mirrors_of_succ 19 (by decide) h fun _ => mirrors_chain ih
        primary := fun h => mirrors_of_succ 20 (by decide) h fun _ => mirrors_primary ih
        items := fun close h => mirrors_of_succ 0 (by decide) (f := (items · close)) h
          fun _ => mirrors_items ih close
        fields := fun seen h => mirrors_of_succ 0 (by decide) (f := (fields · seen)) h
          fun _ => mirrors_fields ih seen
        bindings := fun h => mirrors_of_succ 0 (by decide) h fun _ => mirrors_bindings ih
        condition := fun h => mirrors_of_succ 3 (by decide) h fun _ => mirrors_condition ih
        conditions := fun h => mirrors_of_succ 2 (by decide) h fun _ => mirrors_conditions ih
        guarded := fun start kind h => mirrors_of_succ 0 (by decide)
          (f := (guarded · (start - w.shift) kind)) h fun _ => mirrors_guarded ih start kind
        constraints := fun h => mirrors_of_succ 0 (by decide) h fun _ => mirrors_constraints ih
        selector := fun start typeName h => mirrors_of_succ 0 (by decide)
          (f := (selector · (start - w.shift) typeName)) h
          fun _ => mirrors_selector ih start typeName }

end Parser

end Retarget
