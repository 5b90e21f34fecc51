import Retarget.Proofs.Spans.Collected

set_option autoImplicit false

/-!
# Faithful spans

Every step of the grammar collects the expressions that it reads, and where it builds a node of
them, the span of the node is faithful to the tokens. As tokens can be found again in a part of the
source, so can nodes.

## Main definitions

* `Retarget.Parser.Yields`, `Retarget.Parser.Gathers` — what a step collects.
* `Retarget.Parser.GrammarYields` — what every step of the grammar collects.

## Main results

* `Retarget.Parser.grammarYields` — all nodes that the grammar builds are faithful to the tokens.
* `Retarget.parse_span` — all nodes of a parsed source are faithful to it.
-/

namespace Retarget

namespace Parser

variable {α β : Type} {all : List Token} {c₀ c c' : Cursor} {es : List (Expr Span)}
  {e v v' : Expr Span} {n : Nat}

/-! ## Steps that collect expressions -/

/-- What the step takes are tokens to come. -/
def Moves (p : Parser α) : Prop :=
  ∀ c a c', c.Ended → p c = .ok (a, c') → ∃ used, c.Takes used c'

/-- The step collects the expressions that its result holds. -/
def Yields (all : List Token) (p : Parser α) (held : α → List (Expr Span)) : Prop :=
  ∀ c a c', c.Of all → p c = .ok (a, c') → Collects all c (held a) c'

/-- Where the expressions `es` have been collected from `c₀` on, the step comes to the
postcondition. -/
def Gathers (all : List Token) (c₀ : Cursor) (es : List (Expr Span)) (p : Parser α)
    (Q : α → Cursor → Prop) : Prop :=
  c₀.Of all → ∀ c a c', Collects all c₀ es c → p c = .ok (a, c') → Q a c'

section Rules

variable {p : Parser α} {f : α → Parser β} {held : α → List (Expr Span)} {Q : β → Cursor → Prop}

/-- A step that takes the same tokens in a window takes tokens. -/
lemma moves_of_mirrors {lo hi : Nat} {m : α → α} {q : Parser α}
    (h : Mirrors ⟨0, [], 0⟩ lo hi m p q) : Moves p := by
  intro c a c' hc hp
  obtain ⟨used, htakes, -⟩ := h c a c' trivial hc hp
  exact ⟨used, htakes⟩

/-- Looking at the next token takes none. -/
lemma moves_peek : Moves peek := by
  rintro c _ _ hc ⟨⟩
  exact ⟨[], hc.takes⟩

/-- Looking at the kind of a token ahead takes none. -/
lemma moves_peekKind (n : Nat) : Moves (peekKind n) := by
  rintro c _ _ hc ⟨⟩
  exact ⟨[], hc.takes⟩

/-- Asking for the position takes no token. -/
lemma moves_here : Moves here := by
  rintro c _ _ hc ⟨⟩
  exact ⟨[], hc.takes⟩

/-- The mark of the end is not taken. -/
lemma moves_advance : Moves advance := by
  rintro ⟨rest, stop⟩ _ c' hc h
  rcases rest with - | ⟨t, - | ⟨next, more⟩⟩ <;> cases h
  · exact ⟨[], hc.takes⟩
  · exact ⟨[], hc.takes⟩
  · exact ⟨[t], rfl, rfl, List.cons_ne_nil _ _⟩

/-- Taking a mark, or none, takes tokens to come. -/
lemma moves_eat (mark : Punct) : Moves (eat mark) := by
  have h : Mirrors ⟨0, [], 0⟩ 0 0 id (eat mark >>= fun eaten => if eaten = true then pure true
      else pure false) (eat mark >>= fun eaten => if eaten = true then pure true else pure false) :=
    mirrors_eat (l := 0) (k := 0) (mirrors_pure rfl) (mirrors_pure rfl) (Nat.zero_le _)
      (Nat.zero_le _)
  have heta : (fun eaten : Bool => if eaten = true then (pure true : Parser Bool) else pure false) =
      pure := by
    funext eaten
    cases eaten <;> rfl
  rw [heta, bind_pure] at h
  exact moves_of_mirrors h

/-- Asking for a mark takes a token to come. -/
lemma moves_expect (mark : Punct) : Moves (expect mark) := moves_of_mirrors (mirrors_expect mark 0)

/-- Asking for a keyword takes a token to come. -/
lemma moves_expectKeyword (word : Keyword) : Moves (expectKeyword word) :=
  moves_of_mirrors (mirrors_expectKeyword word 0)

/-- Asking for a name takes a token to come. -/
lemma moves_identifier : Moves identifier := moves_of_mirrors (mirrors_identifier 0)

/-- The name of a field takes a token to come. -/
lemma moves_fieldName : Moves fieldName := moves_of_mirrors (mirrors_fieldName 0)

/-- The mark of a selector takes tokens to come. -/
lemma moves_policy : Moves policy := moves_of_mirrors (mirrors_policy 0)

/-- A label takes tokens to come. -/
lemma moves_label : Moves label := moves_of_mirrors (mirrors_label 0)

/-- Parameters take tokens to come. -/
lemma moves_params (n : Nat) (seen : List String) : Moves (params n seen) :=
  moves_of_mirrors (mirrors_params n seen (show 24 * 0 ≤ 0 from Nat.le_refl 0))

/-- A step that only takes tokens. -/
lemma Moves.bind (hp : Moves p) (hf : ∀ a, Gathers all c₀ es (f a) Q) :
    Gathers all c₀ es (p >>= f) Q := by
  intro h₀ c b c'' hc h
  obtain ⟨a, c', hpc, hfc⟩ := exists_of_bind h
  obtain ⟨used, htakes⟩ := hc.takes
  obtain ⟨more, htakes'⟩ := hp c a c' (h₀.of_takes htakes).ended hpc
  have hc' := hc.trans h₀ (collects_of_takes htakes')
  rw [List.append_nil] at hc'
  exact hf a h₀ c' b c'' hc' hfc

/-- A step that reads expressions. -/
lemma Yields.bind (hp : Yields all p held) (hf : ∀ a, Gathers all c₀ (es ++ held a) (f a) Q) :
    Gathers all c₀ es (p >>= f) Q := by
  intro h₀ c b c'' hc h
  obtain ⟨a, c', hpc, hfc⟩ := exists_of_bind h
  obtain ⟨used, htakes⟩ := hc.takes
  exact hf a h₀ c' b c'' (hc.trans h₀ (hp c a c' (h₀.of_takes htakes) hpc)) hfc

/-- The postcondition may be replaced by one that follows from it. -/
lemma Gathers.imp {p : Parser β} {Q' : β → Cursor → Prop} (hp : Gathers all c₀ es p Q)
    (h : ∀ b c, Q b c → Q' b c) : Gathers all c₀ es p Q' :=
  fun h₀ c b c' hc hb => h b c' (hp h₀ c b c' hc hb)

/-- A choice of steps comes to the postcondition where both of them do. -/
lemma Gathers.ite {cond : Prop} [Decidable cond] {p q : Parser β}
    (hp : cond → Gathers all c₀ es p Q) (hq : ¬cond → Gathers all c₀ es q Q) :
    Gathers all c₀ es (if cond then p else q) Q := by
  split_ifs with h
  · exact hp h
  · exact hq h

/-- An error comes to nothing. -/
lemma gathers_unexpected (wanted : Expectation) : Gathers all c₀ es (unexpected wanted) Q :=
  fun _ _ _ _ _ h => by cases h

/-- A failure comes to nothing, whatever follows it. -/
lemma gathers_fail_bind (offset : Nat) (fault : SyntaxFault) :
    Gathers all c₀ es (failAt offset fault >>= f) Q :=
  fun _ _ _ _ _ h => by cases h

/-- A value comes to what holds of it behind what has been collected. -/
lemma gathers_pure {b : β} (h : ∀ c, Collects all c₀ es c → Q b c) :
    Gathers all c₀ es (pure b) Q := by
  rintro - c _ _ hc ⟨⟩
  exact h c hc

/-- What has been collected is what the result holds. -/
lemma gathers_held {b : β} {held : β → List (Expr Span)} (h : held b = es) :
    Gathers all c₀ es (pure b) fun b => Collects all c₀ (held b) :=
  gathers_pure fun c hc => by rwa [h]

/-- What has been collected are the parts of a node. -/
lemma gathers_node {e : Span → Expr Span} (hnote : ∀ span, (e span).note = span)
    (hparts : ∀ span, (e span).children = es) :
    Gathers all c₀ es (do return e (← spanFrom c₀.here)) (Spans all c₀) := by
  rintro - c _ _ hc ⟨⟩
  exact ⟨by rwa [hparts], hnote _⟩

/-- A step that collects its result from every cursor yields it. -/
lemma yields_of_gathers {p : Parser β} {held : β → List (Expr Span)}
    (h : ∀ c₀, Gathers all c₀ [] p fun b => Collects all c₀ (held b)) : Yields all p held :=
  fun c b c' hc => h c hc c b c' (collects_of_takes hc.ended.takes)

/-- Nothing has been collected where a step starts. -/
lemma Gathers.start {p : Parser β} (h : Gathers all c [] p Q) (hc : c.Of all) {b : β}
    (hp : p c = .ok (b, c')) : Q b c' :=
  h hc c b c' (collects_of_takes hc.ended.takes) hp

end Rules

/-- The expression has been collected, or it has been built of what has been collected. -/
def Built (all : List Token) (c₀ : Cursor) (e : Expr Span) (c : Cursor) : Prop :=
  Collects all c₀ [e] c ∨ Spans all c₀ e c

/-- An expression with the span from the first cursor is built of what has been collected. -/
lemma gathers_built {e : Span → Expr Span} (hnote : ∀ span, (e span).note = span)
    (hparts : ∀ span, (e span).children = es) :
    Gathers all c₀ es (do return e (← spanFrom c₀.here)) (Built all c₀) :=
  (gathers_node hnote hparts).imp fun _ _ => .inr

/-- A step that reads an expression at the same place. -/
lemma Yields.gathers {p : Parser (Expr Span)} (hp : Yields all p ([·])) :
    Gathers all c₀ [] p (Built all c₀) := by
  intro h₀ c e c' hc h
  obtain ⟨used, htakes⟩ := hc.takes
  exact .inl (hc.trans h₀ (hp c e c' (h₀.of_takes htakes) h))

/-- An expression that has been collected is returned. -/
lemma gathers_same : Gathers all c₀ [e] (pure e) (Built all c₀) := gathers_pure fun _ hc => .inl hc

/-- Where a stage has read it whole, an expression is faithful if its parts are. -/
lemma collects_of_first (s : Stage) (hc : c.Of all) (h : s.first n c = .ok (e, c'))
    (he : Built all c e c') : Collects all c [e] c' := by
  obtain hcollects | hspans := he
  · exact hcollects
  · obtain ⟨used, hreached⟩ := Stage.exists_reached_of_first hc.ended h
    exact hspans.collects hc hreached

/-! ## The steps of the grammar -/

/-- What every step of the grammar collects. -/
structure GrammarYields (all : List Token) (n : Nat) : Prop where
  expression : Yields all (expression n) ([·])
  resume {s : Stage} {c₀ c c' : Cursor} {used : List Token} {v e : Expr Span} : c₀.Of all →
    s.Reached c₀ used v c → Collects all c₀ [v] c → s.resume n c₀.here v c = .ok (e, c') →
      Collects all c₀ [e] c'
  candidates : Yields all (candidates n) id
  binary (level : Level) : Yields all (binary n level) ([·])
  operand (level : Level) : Yields all (operand n level) ([·])
  power : Yields all (power n) ([·])
  unary : Yields all (unary n) ([·])
  chain : Yields all (chain n) ([·])
  primary : Yields all (primary n) ([·])
  items (close : Punct) : Yields all (items n close) id
  fields (seen : List String) : Yields all (fields n seen) (·.map Prod.snd)
  bindings : Yields all (bindings n) (·.map Prod.snd)
  condition : Yields all (condition n) ([·.test])
  conditions : Yields all (conditions n) (·.map Condition.test)
  guarded (c₀ : Cursor) (kind : GuardKind) :
    Gathers all c₀ [] (guarded n c₀.here kind) (Spans all c₀)
  constraints : Yields all (constraints n) (·.map Condition.test)
  selector (c₀ : Cursor) (typeName : String) :
    Gathers all c₀ [] (selector n c₀.here typeName) (Spans all c₀)

/-- An error collects nothing. -/
lemma yields_unexpected {held : α → List (Expr Span)} (wanted : Expectation) :
    Yields all (unexpected wanted) held :=
  fun _ _ _ _ h => by cases h

/-- Without fuel nothing is collected. -/
lemma grammarYields_zero : GrammarYields all 0 := by
  constructor
  case resume =>
    intro s c₀ c c' used v e _ _ hv h
    cases s with
    | power | unary =>
      cases h
      exact hv
    | _ => cases h
  case guarded => intros; exact gathers_unexpected _
  case selector => intros; exact gathers_unexpected _
  all_goals intros; exact yields_unexpected _

section Grammar

variable (ih : GrammarYields all n)

include ih

/-- One operator more.

**Proof sketch.** By cases on the stage, along the steps of the parser: the operands are collected
as they are read, and the new node has the left operand first among its parts. -/
lemma gathers_grow (s : Stage) (v : Expr Span) :
    Gathers all c₀ [v] (s.grow n c₀.here v) (Spans all c₀) := by
  cases s with
  | whole =>
    refine (moves_eat _).bind fun _ => .ite (fun _ => ?_) fun _ => ?_
    · exact ih.candidates.bind fun more => gathers_node (fun _ => rfl) fun _ => rfl
    · refine (moves_expect _).bind fun _ => moves_identifier.bind fun function => ?_
      refine (moves_eat _).bind fun _ => .ite (fun _ => ?_) fun _ => ?_
      · exact (ih.items _).bind fun args => gathers_node (fun _ => rfl) fun _ => rfl
      · exact gathers_node (e := (.pipe · v function [])) (fun _ => rfl) fun _ => rfl
  | level l =>
    refine moves_peek.bind fun t => ?_
    split
    · exact gathers_unexpected _
    · refine moves_advance.bind fun _ => (ih.operand l).bind fun rhs => ?_
      exact gathers_node (fun _ => rfl) fun _ => rfl
  | power => exact gathers_unexpected _
  | unary => exact gathers_unexpected _
  | chain =>
    refine (moves_eat _).bind fun _ => .ite (fun _ => ?_) fun _ => ?_
    · exact moves_identifier.bind fun field => gathers_node (fun _ => rfl) fun _ => rfl
    · refine (moves_expect _).bind fun _ => (ih.items _).bind fun args => ?_
      exact gathers_node (fun _ => rfl) fun _ => rfl

/-- All operators behind an expression. -/
lemma collects_resume {s : Stage} {used : List Token} (h₀ : c₀.Of all)
    (hreached : s.Reached c₀ used v c) (hv : Collects all c₀ [v] c)
    (h : s.resume (n + 1) c₀.here v c = .ok (e, c')) : Collects all c₀ [e] c' := by
  by_cases hkind : s.Continues (c.kindAt 0)
  · rw [Stage.resume_of_continues hkind] at h
    obtain ⟨v', c₁, hgrow, hresume⟩ := exists_of_bind h
    have hended := (h₀.of_takes hreached.takes).ended
    obtain ⟨used', hreached'⟩ := hreached.grow hended hkind hgrow
    have hv' := gathers_grow ih s v h₀ c v' c₁ hv hgrow
    exact ih.resume h₀ hreached' (hv'.collects h₀ hreached') hresume
  · rw [Stage.resume_of_not hkind] at h
    cases h
    exact hv

/-- The first operand and all operators behind it. -/
lemma yields_step (s : Stage) (hfirst : Yields all (s.first n) ([·])) :
    Yields all (s.step (n + 1)) ([·]) := by
  intro c e c' hc h
  rw [s.step_succ] at h
  obtain ⟨v, c₁, hv, hresume⟩ := exists_of_bind h
  obtain ⟨used, hreached⟩ := Stage.exists_reached_of_first hc.ended hv
  exact ih.resume hc hreached (hfirst c v c₁ hc hv) hresume

/-- Candidates collect their expressions. -/
lemma yields_candidates : Yields all (candidates (n + 1)) id := by
  refine yields_of_gathers fun c₀ => (ih.binary _).bind fun candidate => ?_
  refine (moves_eat _).bind fun _ => .ite (fun _ => ?_) fun _ => ?_
  · exact ih.candidates.bind fun more => gathers_held rfl
  · exact gathers_held rfl

/-- The operand of an operation collects its expression. -/
lemma yields_operand (level : Level) : Yields all (operand (n + 1) level) ([·]) := by
  rw [operand]
  split
  · exact ih.binary _
  · exact ih.power

/-- A power collects its expression. -/
lemma yields_power : Yields all (power (n + 1)) ([·]) := by
  intro c e c' hc h
  refine collects_of_first .power hc h ?_
  rw [power, bind_of_eq (here_apply c)] at h
  refine Gathers.start (Q := Built all c) (ih.unary.bind fun base => ?_) hc h
  refine (moves_eat _).bind fun _ => .ite (fun _ => ?_) fun _ => gathers_same
  exact ih.power.bind fun exponent => gathers_built (fun _ => rfl) fun _ => rfl

/-- An operation with one operand collects its expression. -/
lemma yields_unary : Yields all (unary (n + 1)) ([·]) := by
  intro c e c' hc h
  refine collects_of_first .unary hc h ?_
  rw [unary, bind_of_eq (here_apply c)] at h
  refine Gathers.start (Q := Built all c) (moves_peek.bind fun t => ?_) hc h
  split
  · exact ih.chain.gathers
  · refine moves_advance.bind fun _ => ih.unary.bind fun inner => ?_
    exact gathers_built (fun _ => rfl) fun _ => rfl

/-- The items up to a closing mark collect their expressions. -/
lemma yields_items (close : Punct) : Yields all (items (n + 1) close) id := by
  refine yields_of_gathers fun c₀ => (moves_eat _).bind fun _ =>
    .ite (fun _ => gathers_held rfl) fun _ => ?_
  refine ih.expression.bind fun item => (moves_eat _).bind fun _ => .ite (fun _ => ?_) fun _ => ?_
  · exact (ih.items close).bind fun rest => gathers_held rfl
  · exact (moves_expect _).bind fun _ => gathers_held rfl

/-- The fields of a record collect their values. -/
lemma yields_fields (seen : List String) : Yields all (fields (n + 1) seen) (·.map Prod.snd) := by
  refine yields_of_gathers fun c₀ => (moves_eat _).bind fun _ =>
    .ite (fun _ => gathers_held rfl) fun _ => ?_
  refine moves_here.bind fun start => moves_fieldName.bind fun name => ?_
  refine .ite (fun _ => gathers_fail_bind _ _) fun _ => (moves_expect _).bind fun _ => ?_
  refine ih.expression.bind fun value => (moves_eat _).bind fun _ => .ite (fun _ => ?_) fun _ => ?_
  · exact (ih.fields _).bind fun rest => gathers_held rfl
  · exact (moves_expect _).bind fun _ => gathers_held rfl

/-- The bindings of a `let` collect their values. -/
lemma yields_bindings : Yields all (bindings (n + 1)) (·.map Prod.snd) := by
  refine yields_of_gathers fun c₀ => moves_identifier.bind fun name => ?_
  refine (moves_expect _).bind fun _ => ih.expression.bind fun value => ?_
  refine (moves_eat _).bind fun _ => .ite (fun _ => ?_) fun _ => gathers_held rfl
  exact ih.bindings.bind fun rest => gathers_held rfl

/-- A condition collects its test. -/
lemma yields_condition : Yields all (condition (n + 1)) ([·.test]) :=
  yields_of_gathers fun _ => moves_label.bind fun _ => ih.expression.bind fun _ => gathers_held rfl

/-- Conditions collect their tests. -/
lemma yields_conditions : Yields all (conditions (n + 1)) (·.map Condition.test) := by
  refine yields_of_gathers fun c₀ => ih.condition.bind fun first => ?_
  refine (moves_eat _).bind fun _ => .ite (fun _ => ?_) fun _ => gathers_held rfl
  exact ih.conditions.bind fun rest => gathers_held rfl

/-- A guard or a check spans its conditions and its body. -/
lemma gathers_guarded (kind : GuardKind) :
    Gathers all c₀ [] (guarded (n + 1) c₀.here kind) (Spans all c₀) := by
  refine ih.conditions.bind fun tests => (moves_expectKeyword _).bind fun _ => ?_
  exact ih.expression.bind fun body => gathers_node (fun _ => rfl) fun _ => rfl

/-- The constraints of a selector collect their tests. -/
lemma yields_constraints : Yields all (constraints (n + 1)) (·.map Condition.test) := by
  refine yields_of_gathers fun c₀ => (moves_eat _).bind fun _ =>
    .ite (fun _ => gathers_held rfl) fun _ => ?_
  refine ih.condition.bind fun first => (moves_eat _).bind fun _ => .ite (fun _ => ?_) fun _ => ?_
  · exact ih.constraints.bind fun rest => gathers_held rfl
  · exact (moves_expect _).bind fun _ => gathers_held rfl

/-- A selector spans its constraints and its arguments. -/
lemma gathers_selector (typeName : String) :
    Gathers all c₀ [] (selector (n + 1) c₀.here typeName) (Spans all c₀) := by
  have harguments (tests : List (Condition (Expr Span))) :
      Gathers all c₀ ([] ++ tests.map Condition.test) (do
        let mark ← policy
        let opening ← here
        expect .openParen
        let args ← items n .closeParen
        if !arityFits mark args.length then failAt opening (.selectorArity typeName args.length)
        return .select (← spanFrom c₀.here) typeName mark tests args) (Spans all c₀) := by
    refine moves_policy.bind fun mark => moves_here.bind fun opening => ?_
    refine (moves_expect _).bind fun _ => (ih.items _).bind fun args => ?_
    refine .ite (fun _ => gathers_fail_bind _ _) fun _ => ?_
    exact gathers_node (fun _ => rfl) fun _ => rfl
  refine (moves_eat _).bind fun _ => .ite (fun _ => ?_) fun _ => harguments []
  exact ih.constraints.bind harguments

/-- A primary expression collects itself.

**Proof sketch.** The steps of the parser are followed one by one. A step that takes tokens only
moves on, a part is collected by the lemma of the step that reads it, and every branch ends with a
node whose span begins where the primary expression does. -/
lemma yields_primary : Yields all (primary (n + 1)) ([·]) := by
  intro c e c' hc h
  refine collects_of_first (n := n + 1) .chain hc h ?_
  rw [primary, bind_of_eq (here_apply c)] at h
  refine Gathers.start (Q := Built all c) (moves_peek.bind fun t => ?_) hc h
  have hliteral (value : Literal) : Gathers all c []
      (do advance; return .literal (← spanFrom c.here) value) (Built all c) :=
    moves_advance.bind fun _ => gathers_built (fun _ => rfl) fun _ => rfl
  split
  · exact hliteral _
  · exact hliteral _
  · exact hliteral _
  · exact hliteral _
  · refine moves_advance.bind fun _ => ih.bindings.bind fun bound => ?_
    refine (moves_expectKeyword _).bind fun _ => ih.expression.bind fun body => ?_
    exact gathers_built (fun _ => rfl) fun _ => rfl
  · refine moves_advance.bind fun _ => ih.expression.bind fun test => ?_
    refine (moves_expectKeyword _).bind fun _ => ih.expression.bind fun yes => ?_
    refine (moves_expectKeyword _).bind fun _ => ih.expression.bind fun no => ?_
    exact gathers_built (fun _ => rfl) fun _ => rfl
  · refine moves_advance.bind fun _ => (moves_expect _).bind fun _ => ?_
    refine (moves_params n []).bind fun names => ih.expression.bind fun body => ?_
    exact (moves_expect _).bind fun _ => gathers_built (fun _ => rfl) fun _ => rfl
  · exact moves_advance.bind fun _ => (ih.guarded c _).imp fun _ _ => .inr
  · exact moves_advance.bind fun _ => (ih.guarded c _).imp fun _ _ => .inr
  · rename_i name _
    refine (moves_peekKind _).bind fun next => (moves_peekKind _).bind fun afterNext => ?_
    refine moves_advance.bind fun _ => .ite (fun _ => ?_) fun _ => .ite (fun _ => ?_) fun _ => ?_
    · refine moves_advance.bind fun _ => ih.expression.bind fun body => ?_
      exact gathers_built (fun _ => rfl) fun _ => rfl
    · exact (ih.selector c name).imp fun _ _ => .inr
    · exact gathers_built (fun _ => rfl) fun _ => rfl
  · refine moves_advance.bind fun _ => ih.expression.bind fun inner => ?_
    exact (moves_expect _).bind fun _ => gathers_same
  · refine moves_advance.bind fun _ => (ih.items _).bind fun elements => ?_
    exact gathers_built (fun _ => rfl) fun _ => rfl
  · refine moves_advance.bind fun _ => (ih.fields _).bind fun named => ?_
    exact gathers_built (fun _ => rfl) fun _ => rfl
  · exact gathers_unexpected _

end Grammar

/-- Every step of the grammar collects what it reads, and the nodes that it builds are faithful.

**Proof sketch.** By induction on the number of steps; each field has its lemma. -/
lemma grammarYields (all : List Token) (n : Nat) : GrammarYields all n := by
  induction n with
  | zero => exact grammarYields_zero
  | succ n ih =>
    exact
      { expression := yields_step ih .whole (ih.binary _)
        resume := collects_resume ih
        candidates := yields_candidates ih
        binary := fun level => yields_step ih (.level level) (ih.operand level)
        operand := yields_operand ih
        power := yields_power ih
        unary := yields_unary ih
        chain := yields_step ih .chain ih.primary
        primary := yields_primary ih
        items := yields_items ih
        fields := yields_fields ih
        bindings := yields_bindings ih
        condition := yields_condition ih
        conditions := yields_conditions ih
        guarded := fun c₀ => gathers_guarded ih
        constraints := yields_constraints ih
        selector := fun c₀ => gathers_selector ih }

end Parser

/-! ## Parsed sources -/

/-- The tokens of a source are in order. -/
lemma of_tokenize {source : String} {ts : List Token} (h : tokenize source = .ok ts) :
    (⟨ts, 0⟩ : Cursor).Of ts := by
  have hlexes := tokenize_eq_ok_iff.mp h
  obtain ⟨init, rfl, hinit⟩ := hlexes.exists_init
  refine ⟨List.suffix_refl _, ⟨_, List.getLast?_concat, rfl⟩, fun _ _ => Nat.zero_le _,
    hlexes.pairwise.2, fun t ht => ?_⟩
  rw [List.dropLast_concat] at ht
  exact (hinit t ht).1

/-- All nodes of parsed tokens are faithful. -/
lemma faithful_of_parseTokens {ts : List Token} {e n : Expr Span} (hts : (⟨ts, 0⟩ : Cursor).Of ts)
    (h : parseTokens ts = .ok e) (hnode : e.Node n) : n.Faithful ts := by
  obtain ⟨c, hexpression⟩ := exists_expression_of_parseTokens h
  have hcollects := (Parser.grammarYields ts _).expression _ e c hts hexpression
  exact hcollects.faithful e List.mem_cons_self n hnode

/-- The tokens of a part of a source are those of a text of its own.

**Proof sketch.** The text starts where the first token does (`Lexes.behind`) and ends where the
last one does (`Lexes.upTo`). Its tokens are the same ones, moved back by the offset at which it
starts. -/
lemma exists_text_of_tokens {source : String} {before us after : List Token} {t : Token}
    (h : tokenize source = .ok (before ++ (t :: us ++ after))) (hafter : after ≠ []) :
    ∃ front text rest size, source = front ++ text ++ rest ∧ front.utf8ByteSize = t.start ∧
      (front ++ text).utf8ByteSize = ((t :: us).getLast (List.cons_ne_nil _ _)).stop ∧
      tokenize text = .ok ((t :: us).map (Token.back t.start) ++ [Token.atEnd size]) := by
  have hlexes := tokenize_eq_ok_iff.mp h
  rw [List.cons_append] at hlexes
  obtain ⟨cs, gap, ds, hsource, -, hstart, -, -, hrest⟩ := hlexes.behind
  obtain ⟨init, last, hlast⟩ : ∃ init last, t :: us = init ++ [last] :=
    ⟨_, _, (List.dropLast_append_getLast (List.cons_ne_nil t us)).symm⟩
  have hlast' : (t :: us).getLast (List.cons_ne_nil _ _) = last := by simp [hlast]
  rw [← List.cons_append, hlast, List.append_assoc] at hrest
  obtain ⟨text, rest, hds, hstop, htext⟩ := hrest.upTo hafter
  have htext' := htext.back (Nat.le_refl t.start)
  refine ⟨String.ofList (cs ++ gap), String.ofList text, String.ofList rest, last.stop - t.start,
    ?_, ?_, ?_, ?_⟩
  · rw [← String.ofList_append, ← String.ofList_append, ← String.ofList_toList (s := source),
      hsource, hds]
    simp
  · rw [utf8ByteSize_ofList, byteLength_append]
    omega
  · rw [← String.ofList_append, utf8ByteSize_ofList, hlast', byteLength_append, byteLength_append]
    omega
  · rw [tokenize_eq_ok_iff, String.toList_ofList, hlast]
    have hend : (Token.atEnd last.stop).back t.start = Token.atEnd (last.stop - t.start) := rfl
    simpa [hend] using htext'

/-- A node holds the spans of all nodes below it. -/
lemma within_of_node {ts : List Token} {n m : Expr Span} (hnode : n.Node m)
    (h : ∀ m, n.Node m → m.Faithful ts) :
    n.note.start ≤ m.note.start ∧ m.note.stop ≤ n.note.stop := by
  induction hnode with
  | self => exact ⟨Nat.le_refl _, Nat.le_refl _⟩
  | @child n c m hmem _ ih =>
    obtain ⟨hstart, hstop⟩ := (h n (.self n)).within c hmem
    obtain ⟨hstart', hstop'⟩ := ih fun m hm => h m (.child hmem hm)
    exact ⟨Nat.le_trans hstart hstart', Nat.le_trans hstop' hstop⟩

/-- **Spans are faithful.** The span of a node is a part of the source that is not empty; it holds
the spans of its children and of all nodes below them; those of its children lie one behind the
other; and on its own that part is parsed as the same node, with all spans moved back by its
start.

**Proof sketch.** Every node is faithful to the tokens of the source (`faithful_of_parseTokens`):
its span is that of a row of tokens which alone are parsed as the node. These tokens are those of a
text of their own (`exists_text_of_tokens`), moved back by its start. -/
theorem parse_span {source : String} {e n : Expr Span} (h : parse source = .ok e)
    (hnode : e.Node n) :
    ∃ front text rest, source = front ++ text ++ rest ∧
      n.note = ⟨front.utf8ByteSize, (front ++ text).utf8ByteSize⟩ ∧
      n.note.start < n.note.stop ∧
      (∀ m, n.Node m → n.note.start ≤ m.note.start ∧ m.note.stop ≤ n.note.stop) ∧
      (n.children.map Expr.note).Pairwise (fun a b => a.stop ≤ b.start) ∧
      parse text = .ok (n.mapNotes (Span.back n.note.start)) := by
  obtain ⟨ts, htokens, hparse⟩ := exists_tokens_of_parse h
  have hnodes (m : Expr Span) (hm : n.Node m) : m.Faithful ts :=
    faithful_of_parseTokens (of_tokenize htokens) hparse (hnode.trans hm)
  have hfaithful := hnodes n (.self n)
  obtain ⟨before, t, us, after, rfl, hafter, hnote, halone⟩ := hfaithful.alone
  obtain ⟨front, text, rest, size, hsource, hstart, hstop, htext⟩ :=
    exists_text_of_tokens htokens hafter
  refine ⟨front, text, rest, hsource, by rw [hnote, hstart, hstop], hfaithful.nonempty,
    fun m hm => within_of_node hm hnodes, hfaithful.apart, ?_⟩
  have hstart' : n.note.start = t.start := by rw [hnote]
  rw [hstart']
  exact parse_eq_ok (by rw [htext]; rfl) (halone size)

/-- The tokens of differences in parentheses, behind a text of two bytes. -/
def nestedDifferenceTokens : List Token :=
  [⟨.literal (.string "é"), "'é'", 0⟩, ⟨.punct .plus, "+", 5⟩, ⟨.punct .openParen, "(", 7⟩,
   ⟨.ident "a", "a", 8⟩, ⟨.punct .minus, "-", 10⟩, ⟨.ident "b", "b", 12⟩,
   ⟨.punct .minus, "-", 14⟩, ⟨.ident "c", "c", 16⟩, ⟨.punct .closeParen, ")", 17⟩,
   Token.atEnd 18]

/-- The inner difference. -/
def innerDifference : Expr Span := .binary ⟨8, 13⟩ .sub (.var ⟨8, 9⟩ "a") (.var ⟨12, 13⟩ "b")

/-- The sum with the outer difference. -/
def nestedDifference : Expr Span :=
  .binary ⟨0, 18⟩ .add (.literal ⟨0, 4⟩ (.string "é"))
    (.binary ⟨8, 17⟩ .sub innerDifference (.var ⟨16, 17⟩ "c"))

/-- Neither the parentheses nor what the outer difference takes away belong to the inner one. -/
theorem parse_span_innerDifference :
    parse "'é' + (a - b - c)" = .ok nestedDifference ∧ nestedDifference.Node innerDifference ∧
      ∃ front text rest, "'é' + (a - b - c)" = front ++ text ++ rest ∧
        innerDifference.note = ⟨front.utf8ByteSize, (front ++ text).utf8ByteSize⟩ ∧
        innerDifference.note.start < innerDifference.note.stop ∧
        (∀ m, innerDifference.Node m → innerDifference.note.start ≤ m.note.start ∧
          m.note.stop ≤ innerDifference.note.stop) ∧
        (innerDifference.children.map Expr.note).Pairwise (fun a b => a.stop ≤ b.start) ∧
        parse text = .ok (innerDifference.mapNotes (Span.back innerDifference.note.start)) := by
  have htokens : (tokenize "'é' + (a - b - c)").toOption = some nestedDifferenceTokens := by cbv
  have hparse : parse "'é' + (a - b - c)" = .ok nestedDifference := parse_eq_ok htokens rfl
  have hnode : nestedDifference.Node innerDifference :=
    .child (List.mem_cons_of_mem _ List.mem_cons_self) (.child List.mem_cons_self (.self _))
  exact ⟨hparse, hnode, parse_span hparse hnode⟩

end Retarget
