import Mathlib.Data.List.Nodup
import Retarget.Expr.Parser

set_option autoImplicit false

/-!
# What the parser builds

Whatever tokens it is given, the parser builds expressions of a certain shape: the names of a
record and of a function's parameters are distinct, no row that needs an entry is empty, and a
selector has the arguments of its policy. Names and constants are those of the tokens.

## Main definitions

* `Retarget.Expr.WellFormed` — the shape, with names and constants of tokens of given kinds.
* `Retarget.Parser.Keeps` — what a step of the parser returns, from tokens of these kinds.

## Main results

* `Retarget.wellFormed_of_parse` — parsed sources are well-formed.
-/

namespace Retarget

variable {α : Type}

/-! ## Well-formed expressions -/

/-- The constant that a token of the kind stands for. -/
def Token.Kind.literal? : Token.Kind → Option Literal
  | .literal value => some value
  | .keyword .true => some (.bool true)
  | .keyword .false => some (.bool false)
  | .keyword .null => some .null
  | _ => none

/-- The expression is one that tokens of the kinds `K` can give: its names and constants are those
of such tokens, and every construct has the parts that its syntax asks for. -/
inductive Expr.WellFormed (K : Token.Kind → Prop) : Expr α → Prop
  | literal {note : α} {kind : Token.Kind} {value : Literal} : K kind →
      kind.literal? = some value → WellFormed K (.literal note value)
  | array {note : α} {items : List (Expr α)} : (∀ e ∈ items, WellFormed K e) →
      WellFormed K (.array note items)
  | record {note : α} {fields : List (String × Expr α)} : (fields.map Prod.fst).Nodup →
      (∀ p ∈ fields, WellFormed K p.2) → WellFormed K (.record note fields)
  | var {note : α} {name : String} : K (.ident name) → WellFormed K (.var note name)
  | unary {note : α} {op : UnaryOp} {e : Expr α} : WellFormed K e → WellFormed K (.unary note op e)
  | binary {note : α} {op : BinaryOp} {a b : Expr α} : WellFormed K a → WellFormed K b →
      WellFormed K (.binary note op a b)
  | cond {note : α} {test yes no : Expr α} : WellFormed K test → WellFormed K yes →
      WellFormed K no → WellFormed K (.cond note test yes no)
  | letIn {note : α} {bindings : List (String × Expr α)} {body : Expr α} : bindings ≠ [] →
      (∀ p ∈ bindings, K (.ident p.1)) → (∀ p ∈ bindings, WellFormed K p.2) →
      WellFormed K body → WellFormed K (.letIn note bindings body)
  | lambda {note : α} {params : List String} {body : Expr α} : params.Nodup →
      (∀ p ∈ params, K (.ident p)) → WellFormed K body → WellFormed K (.lambda note params body)
  | call {note : α} {callee : Expr α} {args : List (Expr α)} : WellFormed K callee →
      (∀ e ∈ args, WellFormed K e) → WellFormed K (.call note callee args)
  | member {note : α} {object : Expr α} {field : String} : K (.ident field) →
      WellFormed K object → WellFormed K (.member note object field)
  | pipe {note : α} {value : Expr α} {function : String} {args : List (Expr α)} :
      K (.ident function) → WellFormed K value → (∀ e ∈ args, WellFormed K e) →
      WellFormed K (.pipe note value function args)
  | alternative {note : α} {candidates : List (Expr α)} : 2 ≤ candidates.length →
      (∀ e ∈ candidates, WellFormed K e) → WellFormed K (.alternative note candidates)
  | select {note : α} {typeName : String} {policy : SelectPolicy}
      {constraints : List (Condition (Expr α))} {args : List (Expr α)} : K (.ident typeName) →
      Parser.isCapitalized typeName = true → Parser.arityFits policy args.length = true →
      (∀ c ∈ constraints, WellFormed K c.test) → (∀ e ∈ args, WellFormed K e) →
      WellFormed K (.select note typeName policy constraints args)
  | guarded {note : α} {kind : GuardKind} {conditions : List (Condition (Expr α))}
      {body : Expr α} : conditions ≠ [] → (∀ c ∈ conditions, WellFormed K c.test) →
      WellFormed K body → WellFormed K (.guarded note kind conditions body)

/-- All tokens that are left are of the kinds `K`. -/
def Cursor.Holds (K : Token.Kind → Prop) (c : Cursor) : Prop := ∀ t ∈ c.rest, K t.kind

/-! ## Steps of the parser -/

namespace Parser

variable {β : Type} {K : Token.Kind → Prop}

/-- What two steps one after another have come to. -/
lemma exists_of_bind {p : Parser α} {f : α → Parser β} {c c'' : Cursor} {b : β}
    (h : (p >>= f) c = .ok (b, c'')) : ∃ a c', p c = .ok (a, c') ∧ f a c' = .ok (b, c'') := by
  change (p c >>= fun x => f x.1 x.2) = .ok (b, c'') at h
  cases hpc : p c with
  | error e =>
    rw [hpc] at h
    cases h
  | ok x =>
    rw [hpc] at h
    exact ⟨x.1, x.2, rfl, h⟩

/-- A step that returns goes on with what it returned. -/
lemma bind_of_eq {p : Parser α} {f : α → Parser β} {c c' : Cursor} {a : α}
    (h : p c = .ok (a, c')) : (p >>= f) c = f a c' := by
  change (p c >>= fun x => f x.1 x.2) = f a c'
  rw [h]
  rfl

/-- From tokens of the kinds `K` the step returns what satisfies the predicate, and it leaves such
tokens. -/
def Keeps (K : Token.Kind → Prop) (p : Parser α) (P : α → Prop) : Prop :=
  ∀ c a c', c.Holds K → p c = .ok (a, c') → P a ∧ c'.Holds K

section Steps

variable {P : α → Prop} {Q : β → Prop}

/-- A value takes no token. -/
lemma keeps_pure {a : α} (h : P a) : Keeps K (pure a) P := by
  rintro c a c' hc ⟨⟩
  exact ⟨h, hc⟩

/-- One step after another. -/
lemma Keeps.bind {p : Parser α} {f : α → Parser β} (hp : Keeps K p P)
    (hf : ∀ a, P a → Keeps K (f a) Q) : Keeps K (p >>= f) Q := by
  intro c b c'' hc h
  obtain ⟨a, c', hpc, hfc⟩ := exists_of_bind h
  obtain ⟨ha, hc'⟩ := hp c a c' hc hpc
  exact hf a ha c' b c'' hc' hfc

/-- A choice keeps the tokens where both of its steps do. -/
lemma Keeps.ite {p q : Parser α} {cond : Prop} [Decidable cond] (hp : cond → Keeps K p P)
    (hq : ¬cond → Keeps K q P) : Keeps K (if cond then p else q) P := by
  split_ifs with h
  · exact hp h
  · exact hq h

/-- A failure returns nothing. -/
lemma keeps_fail (offset : Nat) (fault : SyntaxFault) : Keeps K (failAt offset fault) P := by
  rintro c a c' hc ⟨⟩

/-- Nothing follows a fault. -/
lemma keeps_fail_bind (offset : Nat) (fault : SyntaxFault) (f : α → Parser β) :
    Keeps K (failAt offset fault >>= f) Q := by
  rintro c a c' hc ⟨⟩

/-- The token to come is of one of the kinds, unless nothing is left. -/
lemma keeps_peek : Keeps K peek fun t => t.kind ≠ .eof → K t.kind := by
  rintro ⟨rest, stop⟩ t c' hc ⟨⟩
  refine ⟨fun heof => ?_, hc⟩
  cases rest with
  | nil => exact absurd rfl heof
  | cons t ts => exact hc t (by simp)

/-- A step that only looks at the tokens. -/
lemma keeps_of_get {p : Parser α} (h : ∀ c, ∃ a, p c = .ok (a, c)) :
    Keeps K p fun _ => True := by
  intro c a c' hc heq
  obtain ⟨b, hb⟩ := h c
  rw [hb] at heq
  cases heq
  exact ⟨trivial, hc⟩

/-- Looking at the kind of a token ahead keeps the tokens. -/
lemma keeps_peekKind (n : Nat) : Keeps K (peekKind n) fun _ => True :=
  keeps_of_get fun _ => ⟨_, rfl⟩

/-- Asking for the position keeps the tokens. -/
lemma keeps_here : Keeps K here fun _ => True := keeps_of_get fun _ => ⟨_, rfl⟩

/-- Asking for a span keeps the tokens. -/
lemma keeps_spanFrom (start : Nat) : Keeps K (spanFrom start) fun _ => True :=
  keeps_of_get fun _ => ⟨_, rfl⟩

/-- A step ahead keeps the tokens behind it. -/
lemma keeps_advance : Keeps K advance fun _ => True := by
  rintro ⟨rest, stop⟩ a c' hc h
  rcases rest with - | ⟨t, - | ⟨u, us⟩⟩
  · cases h
    exact ⟨trivial, hc⟩
  · cases h
    exact ⟨trivial, hc⟩
  · cases h
    exact ⟨trivial, fun t ht => hc t (List.mem_cons_of_mem _ ht)⟩

/-- An error returns nothing. -/
lemma keeps_unexpected (wanted : Expectation) : Keeps K (unexpected wanted) P :=
  keeps_peek.bind fun _ _ => keeps_fail _ _

/-- Taking a token of a kind, or none, keeps the others. -/
lemma keeps_eatKind (kind : Token.Kind) : Keeps K (eatKind kind) fun _ => True :=
  keeps_peek.bind fun _ _ => .ite (fun _ => keeps_advance.bind fun _ _ => keeps_pure trivial)
    fun _ => keeps_pure trivial

/-- Taking a mark, or none, keeps the other tokens. -/
lemma keeps_eat (p : Punct) : Keeps K (eat p) fun _ => True := keeps_eatKind _

/-- Asking for a mark keeps the tokens behind it. -/
lemma keeps_expect (p : Punct) : Keeps K (expect p) fun _ => True :=
  (keeps_eat p).bind fun _ _ => .ite (fun _ => keeps_unexpected _) fun _ => keeps_pure trivial

/-- Asking for a keyword keeps the tokens behind it. -/
lemma keeps_expectKeyword (k : Keyword) : Keeps K (expectKeyword k) fun _ => True :=
  (keeps_eatKind _).bind fun _ _ =>
    .ite (fun _ => keeps_unexpected _) fun _ => keeps_pure trivial

/-- A name that is read is that of a token. -/
lemma keeps_identifier : Keeps K identifier fun name => K (.ident name) := by
  refine keeps_peek.bind fun t ht => ?_
  split
  · rename_i name hkind
    rw [hkind] at ht
    exact keeps_advance.bind fun _ _ => keeps_pure (ht nofun)
  · exact keeps_unexpected _

/-- The name of a field keeps the tokens behind it. -/
lemma keeps_fieldName : Keeps K fieldName fun _ => True := by
  refine keeps_peek.bind fun t _ => ?_
  split
  · exact keeps_advance.bind fun _ _ => keeps_pure trivial
  · exact keeps_advance.bind fun _ _ => keeps_pure trivial
  · exact keeps_advance.bind fun _ _ => keeps_pure trivial
  · exact keeps_unexpected _

/-- A label keeps the tokens behind it. -/
lemma keeps_label : Keeps K label fun _ => True := by
  refine keeps_peek.bind fun t _ => (keeps_peekKind 1).bind fun next _ => ?_
  split
  · exact keeps_advance.bind fun _ _ => keeps_advance.bind fun _ _ => keeps_pure trivial
  · exact keeps_advance.bind fun _ _ => keeps_advance.bind fun _ _ => keeps_pure trivial
  · exact keeps_pure trivial

/-- The mark of a selector keeps the tokens behind it. -/
lemma keeps_policy : Keeps K policy fun _ => True :=
  (keeps_eat _).bind fun _ _ => .ite (fun _ => keeps_pure trivial) fun _ =>
    (keeps_eat _).bind fun _ _ => .ite (fun _ => keeps_pure trivial) fun _ =>
      (keeps_eat _).bind fun _ _ => .ite (fun _ => keeps_pure trivial) fun _ => keeps_pure trivial

/-- The names are distinct, and none of them was seen before. -/
def Fresh (seen names : List String) : Prop := names.Nodup ∧ names.Disjoint seen

/-- No names are fresh. -/
lemma fresh_nil (seen : List String) : Fresh seen [] :=
  ⟨List.nodup_nil, List.disjoint_nil_left seen⟩

/-- A name that was not seen before others that are fresh behind it. -/
lemma Fresh.cons {seen names : List String} {name : String} (hname : name ∉ seen)
    (h : Fresh (name :: seen) names) : Fresh seen (name :: names) := by
  obtain ⟨hnodup, hdisjoint⟩ := h
  rw [List.disjoint_cons_right] at hdisjoint
  exact ⟨List.nodup_cons.mpr ⟨hdisjoint.1, hnodup⟩,
    List.disjoint_cons_left.mpr ⟨hname, hdisjoint.2⟩⟩

/-- Parameters are distinct names of tokens. -/
lemma keeps_params (fuel : Nat) (seen : List String) :
    Keeps K (params fuel seen) fun names => Fresh seen names ∧ ∀ name ∈ names, K (.ident name) := by
  induction fuel generalizing seen with
  | zero => exact keeps_unexpected _
  | succ fuel ih =>
    refine (keeps_eat _).bind fun _ _ =>
      .ite (fun _ => keeps_pure ⟨fresh_nil _, List.forall_mem_nil _⟩) fun _ => ?_
    refine keeps_here.bind fun _ _ => keeps_identifier.bind fun name hname => ?_
    refine .ite (fun _ => keeps_fail_bind _ _ _) fun hseen => ?_
    refine (keeps_eat _).bind fun _ _ => .ite (fun _ => ?_) fun _ => ?_
    · refine (ih _).bind fun rest hrest => ?_
      exact keeps_pure ⟨hrest.1.cons hseen, List.forall_mem_cons.mpr ⟨hname, hrest.2⟩⟩
    · refine (keeps_expect _).bind fun _ _ => ?_
      exact keeps_pure ⟨(fresh_nil _).cons hseen, List.forall_mem_singleton.mpr hname⟩

end Steps

/-! ## The grammar -/

/-- Every step of the grammar, with the given fuel, returns well-formed expressions. -/
structure GrammarKeeps (K : Token.Kind → Prop) (fuel : Nat) : Prop where
  expression : Keeps K (expression fuel) (Expr.WellFormed K)
  pipeline {value : Expr Span} (start : Nat) : value.WellFormed K →
    Keeps K (pipeline fuel start value) (Expr.WellFormed K)
  candidates : Keeps K (candidates fuel) fun es => es ≠ [] ∧ ∀ e ∈ es, e.WellFormed K
  binary (level : Level) : Keeps K (binary fuel level) (Expr.WellFormed K)
  binaryTail {lhs : Expr Span} (level : Level) (start : Nat) : lhs.WellFormed K →
    Keeps K (binaryTail fuel level start lhs) (Expr.WellFormed K)
  operand (level : Level) : Keeps K (operand fuel level) (Expr.WellFormed K)
  power : Keeps K (power fuel) (Expr.WellFormed K)
  unary : Keeps K (unary fuel) (Expr.WellFormed K)
  chain : Keeps K (chain fuel) (Expr.WellFormed K)
  chainTail {value : Expr Span} (start : Nat) : value.WellFormed K →
    Keeps K (chainTail fuel start value) (Expr.WellFormed K)
  primary : Keeps K (primary fuel) (Expr.WellFormed K)
  items (close : Punct) : Keeps K (items fuel close) fun es => ∀ e ∈ es, e.WellFormed K
  fields (seen : List String) : Keeps K (fields fuel seen) fun ps =>
    Fresh seen (ps.map Prod.fst) ∧ ∀ p ∈ ps, p.2.WellFormed K
  bindings : Keeps K (bindings fuel) fun ps =>
    ps ≠ [] ∧ ∀ p ∈ ps, K (.ident p.1) ∧ p.2.WellFormed K
  condition : Keeps K (condition fuel) fun c => c.test.WellFormed K
  conditions : Keeps K (conditions fuel) fun cs => cs ≠ [] ∧ ∀ c ∈ cs, c.test.WellFormed K
  guarded (start : Nat) (kind : GuardKind) : Keeps K (guarded fuel start kind) (Expr.WellFormed K)
  constraints : Keeps K (constraints fuel) fun cs => ∀ c ∈ cs, c.test.WellFormed K
  selector {typeName : String} (start : Nat) : K (.ident typeName) →
    isCapitalized typeName = true → Keeps K (selector fuel start typeName) (Expr.WellFormed K)

/-- Without fuel nothing is returned. -/
lemma grammarKeeps_zero : GrammarKeeps K 0 := by
  constructor <;> intros <;> exact keeps_unexpected _

section Grammar

variable {fuel : Nat} (ih : GrammarKeeps K fuel)

include ih

/-- A whole expression that is read is well formed. -/
lemma keeps_expression : Keeps K (expression (fuel + 1)) (Expr.WellFormed K) :=
  keeps_here.bind fun start _ => (ih.binary _).bind fun _ hfirst => ih.pipeline start hfirst

/-- The pipes behind a well-formed expression make up a well-formed one. -/
lemma keeps_pipeline {value : Expr Span} (start : Nat) (hvalue : value.WellFormed K) :
    Keeps K (pipeline (fuel + 1) start value) (Expr.WellFormed K) := by
  refine (keeps_eat _).bind fun _ _ => .ite (fun _ => ?_) fun _ =>
    (keeps_eat _).bind fun _ _ => .ite (fun _ => ?_) fun _ => keeps_pure hvalue
  · refine ih.candidates.bind fun more hmore => (keeps_spanFrom start).bind fun _ _ => ?_
    have htwo : 2 ≤ (value :: more).length := by
      have := List.length_pos_iff.mpr hmore.1
      rw [List.length_cons]
      omega
    exact ih.pipeline start (.alternative htwo (List.forall_mem_cons.mpr ⟨hvalue, hmore.2⟩))
  · refine keeps_identifier.bind fun function hname => (keeps_eat _).bind fun _ _ => ?_
    have hpipe {args : List (Expr Span)} (hargs : ∀ e ∈ args, e.WellFormed K) :
        Keeps K (do pipeline fuel start (.pipe (← spanFrom start) value function args))
          (Expr.WellFormed K) :=
      (keeps_spanFrom start).bind fun _ _ => ih.pipeline start (.pipe hname hvalue hargs)
    exact .ite (fun _ => (ih.items _).bind fun args hargs => hpipe hargs)
      fun _ => (keeps_pure (List.forall_mem_nil _)).bind fun args hargs => hpipe hargs

/-- Candidates are well formed, and there is one at least. -/
lemma keeps_candidates :
    Keeps K (candidates (fuel + 1)) fun es => es ≠ [] ∧ ∀ e ∈ es, e.WellFormed K := by
  refine (ih.binary _).bind fun e he => (keeps_eat _).bind fun _ _ => .ite (fun _ => ?_) fun _ => ?_
  · exact ih.candidates.bind fun es hes =>
      keeps_pure ⟨List.cons_ne_nil _ _, List.forall_mem_cons.mpr ⟨he, hes.2⟩⟩
  · exact keeps_pure ⟨List.cons_ne_nil _ _, List.forall_mem_singleton.mpr he⟩

/-- The operations of a level are well formed. -/
lemma keeps_binary (level : Level) : Keeps K (binary (fuel + 1) level) (Expr.WellFormed K) :=
  keeps_here.bind fun start _ => (ih.operand level).bind fun _ hfirst =>
    ih.binaryTail level start hfirst

/-- The operations behind a well-formed operand are well formed. -/
lemma keeps_binaryTail {lhs : Expr Span} (level : Level) (start : Nat) (hlhs : lhs.WellFormed K) :
    Keeps K (binaryTail (fuel + 1) level start lhs) (Expr.WellFormed K) := by
  refine keeps_peek.bind fun t _ => ?_
  split
  · exact keeps_pure hlhs
  · refine keeps_advance.bind fun _ _ => (ih.operand level).bind fun rhs hrhs => ?_
    exact (keeps_spanFrom start).bind fun _ _ => ih.binaryTail level start (.binary hlhs hrhs)

/-- The operand of an operation is well formed. -/
lemma keeps_operand (level : Level) : Keeps K (operand (fuel + 1) level) (Expr.WellFormed K) := by
  rw [operand]
  split
  · exact ih.binary _
  · exact ih.power

/-- A power is well formed. -/
lemma keeps_power : Keeps K (power (fuel + 1)) (Expr.WellFormed K) := by
  refine keeps_here.bind fun start _ => ih.unary.bind fun base hbase => ?_
  refine (keeps_eat _).bind fun _ _ => .ite (fun _ => ?_) fun _ => keeps_pure hbase
  refine ih.power.bind fun exponent hexponent => (keeps_spanFrom start).bind fun _ _ => ?_
  exact keeps_pure (.binary hbase hexponent)

/-- An operation with one operand is well formed. -/
lemma keeps_unary : Keeps K (unary (fuel + 1)) (Expr.WellFormed K) := by
  refine keeps_here.bind fun start _ => keeps_peek.bind fun t _ => ?_
  split
  · exact ih.chain
  · refine keeps_advance.bind fun _ _ => ih.unary.bind fun inner hinner => ?_
    exact (keeps_spanFrom start).bind fun _ _ => keeps_pure (.unary hinner)

/-- Calls and member reads are well formed. -/
lemma keeps_chain : Keeps K (chain (fuel + 1)) (Expr.WellFormed K) :=
  keeps_here.bind fun start _ => ih.primary.bind fun _ hfirst => ih.chainTail start hfirst

/-- The calls and member reads behind a well-formed expression are well formed. -/
lemma keeps_chainTail {value : Expr Span} (start : Nat) (hvalue : value.WellFormed K) :
    Keeps K (chainTail (fuel + 1) start value) (Expr.WellFormed K) := by
  refine (keeps_eat _).bind fun _ _ => .ite (fun _ => ?_) fun _ =>
    (keeps_eat _).bind fun _ _ => .ite (fun _ => ?_) fun _ => keeps_pure hvalue
  · refine keeps_identifier.bind fun _ hname => (keeps_spanFrom start).bind fun _ _ => ?_
    exact ih.chainTail start (.member hname hvalue)
  · refine (ih.items _).bind fun args hargs => (keeps_spanFrom start).bind fun _ _ => ?_
    exact ih.chainTail start (.call hvalue hargs)

/-- The items up to a closing mark are well formed. -/
lemma keeps_items (close : Punct) :
    Keeps K (items (fuel + 1) close) fun es => ∀ e ∈ es, e.WellFormed K := by
  refine (keeps_eat _).bind fun _ _ =>
    .ite (fun _ => keeps_pure (List.forall_mem_nil _)) fun _ => ?_
  refine ih.expression.bind fun e he => (keeps_eat _).bind fun _ _ =>
    .ite (fun _ => ?_) fun _ => ?_
  · exact (ih.items close).bind fun es hes => keeps_pure (List.forall_mem_cons.mpr ⟨he, hes⟩)
  · exact (keeps_expect _).bind fun _ _ => keeps_pure (List.forall_mem_singleton.mpr he)

/-- The fields of a record have fresh names and well-formed values. -/
lemma keeps_fields (seen : List String) : Keeps K (fields (fuel + 1) seen) fun ps =>
    Fresh seen (ps.map Prod.fst) ∧ ∀ p ∈ ps, p.2.WellFormed K := by
  refine (keeps_eat _).bind fun _ _ =>
    .ite (fun _ => keeps_pure ⟨fresh_nil _, List.forall_mem_nil _⟩) fun _ => ?_
  refine keeps_here.bind fun _ _ => keeps_fieldName.bind fun name _ => ?_
  refine .ite (fun _ => keeps_fail_bind _ _ _) fun hseen => (keeps_expect _).bind fun _ _ => ?_
  refine ih.expression.bind fun e he => (keeps_eat _).bind fun _ _ =>
    .ite (fun _ => ?_) fun _ => ?_
  · refine (ih.fields _).bind fun ps hps => ?_
    exact keeps_pure ⟨hps.1.cons hseen, List.forall_mem_cons.mpr ⟨he, hps.2⟩⟩
  · refine (keeps_expect _).bind fun _ _ => ?_
    exact keeps_pure ⟨(fresh_nil _).cons hseen, List.forall_mem_singleton.mpr he⟩

/-- The bindings of a `let` have names of tokens and well-formed values, and there is one at least.
-/
lemma keeps_bindings : Keeps K (bindings (fuel + 1)) fun ps =>
    ps ≠ [] ∧ ∀ p ∈ ps, K (.ident p.1) ∧ p.2.WellFormed K := by
  refine keeps_identifier.bind fun name hname => (keeps_expect _).bind fun _ _ => ?_
  refine ih.expression.bind fun e he => (keeps_eat _).bind fun _ _ =>
    .ite (fun _ => ?_) fun _ => ?_
  · exact ih.bindings.bind fun ps hps =>
      keeps_pure ⟨List.cons_ne_nil _ _, List.forall_mem_cons.mpr ⟨⟨hname, he⟩, hps.2⟩⟩
  · exact keeps_pure ⟨List.cons_ne_nil _ _, List.forall_mem_singleton.mpr ⟨hname, he⟩⟩

/-- A condition is well formed. -/
lemma keeps_condition : Keeps K (condition (fuel + 1)) fun c => c.test.WellFormed K :=
  keeps_label.bind fun _ _ => ih.expression.bind fun _ he => keeps_pure he

/-- Conditions are well formed, and there is one at least. -/
lemma keeps_conditions :
    Keeps K (conditions (fuel + 1)) fun cs => cs ≠ [] ∧ ∀ c ∈ cs, c.test.WellFormed K := by
  refine ih.condition.bind fun c hc => (keeps_eat _).bind fun _ _ => .ite (fun _ => ?_) fun _ => ?_
  · exact ih.conditions.bind fun cs hcs =>
      keeps_pure ⟨List.cons_ne_nil _ _, List.forall_mem_cons.mpr ⟨hc, hcs.2⟩⟩
  · exact keeps_pure ⟨List.cons_ne_nil _ _, List.forall_mem_singleton.mpr hc⟩

/-- A guard or a check is well formed. -/
lemma keeps_guarded (start : Nat) (kind : GuardKind) :
    Keeps K (guarded (fuel + 1) start kind) (Expr.WellFormed K) := by
  refine ih.conditions.bind fun tests htests => (keeps_expectKeyword _).bind fun _ _ => ?_
  refine ih.expression.bind fun body hbody => (keeps_spanFrom start).bind fun _ _ => ?_
  exact keeps_pure (.guarded htests.1 htests.2 hbody)

/-- The constraints of a selector are well formed. -/
lemma keeps_constraints :
    Keeps K (constraints (fuel + 1)) fun cs => ∀ c ∈ cs, c.test.WellFormed K := by
  refine (keeps_eat _).bind fun _ _ =>
    .ite (fun _ => keeps_pure (List.forall_mem_nil _)) fun _ => ?_
  refine ih.condition.bind fun c hc => (keeps_eat _).bind fun _ _ => .ite (fun _ => ?_) fun _ => ?_
  · exact ih.constraints.bind fun cs hcs => keeps_pure (List.forall_mem_cons.mpr ⟨hc, hcs⟩)
  · exact (keeps_expect _).bind fun _ _ => keeps_pure (List.forall_mem_singleton.mpr hc)

/-- A selector of a capitalized name is well formed. -/
lemma keeps_selector {typeName : String} (start : Nat) (hname : K (.ident typeName))
    (hcapital : isCapitalized typeName = true) :
    Keeps K (selector (fuel + 1) start typeName) (Expr.WellFormed K) := by
  have hrest {tests : List (Condition (Expr Span))} (htests : ∀ c ∈ tests, c.test.WellFormed K) :
      Keeps K (do
        let mark ← policy
        let opening ← here
        expect .openParen
        let args ← items fuel .closeParen
        if !arityFits mark args.length then failAt opening (.selectorArity typeName args.length)
        return .select (← spanFrom start) typeName mark tests args) (Expr.WellFormed K) := by
    refine keeps_policy.bind fun mark _ => keeps_here.bind fun _ _ => ?_
    refine (keeps_expect _).bind fun _ _ => (ih.items _).bind fun args hargs => ?_
    refine .ite (fun _ => keeps_fail_bind _ _ _) fun harity => ?_
    have hfits : arityFits mark args.length = true := by simpa using harity
    exact (keeps_spanFrom start).bind fun _ _ =>
      keeps_pure (.select hname hcapital hfits htests hargs)
  exact (keeps_eat _).bind fun _ _ => .ite (fun _ => ih.constraints.bind fun _ h => hrest h)
    fun _ => (keeps_pure (List.forall_mem_nil _)).bind fun _ h => hrest h

/-- A primary expression is well formed.

**Proof sketch.** One case for each token that a primary expression can start with. What it is made
of comes from steps that keep their tokens, and its own names and constants are those of tokens that
were taken. -/
lemma keeps_primary : Keeps K (primary (fuel + 1)) (Expr.WellFormed K) := by
  refine keeps_here.bind fun start _ => keeps_peek.bind fun t ht => ?_
  have hdone {e : Span → Expr Span} (he : ∀ span, (e span).WellFormed K) :
      Keeps K (do return e (← spanFrom start)) (Expr.WellFormed K) :=
    (keeps_spanFrom start).bind fun span _ => keeps_pure (he span)
  have hliteral {kind : Token.Kind} {value : Literal} (hkind : t.kind = kind)
      (hvalue : kind.literal? = some value) :
      Keeps K (do advance; return .literal (← spanFrom start) value) (Expr.WellFormed K) := by
    have hne : kind ≠ .eof := by
      rintro rfl
      cases hvalue
    rw [hkind] at ht
    exact keeps_advance.bind fun _ _ => hdone fun _ => .literal (ht hne) hvalue
  split
  · exact hliteral ‹_› rfl
  · exact hliteral ‹_› rfl
  · exact hliteral ‹_› rfl
  · exact hliteral ‹_› rfl
  · refine keeps_advance.bind fun _ _ => ih.bindings.bind fun bound hbound => ?_
    refine (keeps_expectKeyword _).bind fun _ _ => ih.expression.bind fun body hbody => ?_
    exact hdone fun _ => .letIn hbound.1 (fun p hp => (hbound.2 p hp).1)
      (fun p hp => (hbound.2 p hp).2) hbody
  · refine keeps_advance.bind fun _ _ => ih.expression.bind fun test htest => ?_
    refine (keeps_expectKeyword _).bind fun _ _ => ih.expression.bind fun yes hyes => ?_
    refine (keeps_expectKeyword _).bind fun _ _ => ih.expression.bind fun no hno => ?_
    exact hdone fun _ => .cond htest hyes hno
  · refine keeps_advance.bind fun _ _ => (keeps_expect _).bind fun _ _ => ?_
    refine (keeps_params _ _).bind fun names hnames => ih.expression.bind fun body hbody => ?_
    exact (keeps_expect _).bind fun _ _ => hdone fun _ => .lambda hnames.1.1 hnames.2 hbody
  · exact keeps_advance.bind fun _ _ => ih.guarded _ _
  · exact keeps_advance.bind fun _ _ => ih.guarded _ _
  · rename_i name hkind
    rw [hkind] at ht
    -- A name is a parameter before an arrow, opens a selector, or stands for itself.
    refine (keeps_peekKind _).bind fun next _ => (keeps_peekKind _).bind fun afterNext _ => ?_
    refine keeps_advance.bind fun _ _ => .ite (fun _ => ?_) fun _ =>
      .ite (fun hselector => ?_) fun _ => ?_
    · refine keeps_advance.bind fun _ _ => ih.expression.bind fun body hbody => ?_
      exact hdone fun _ => .lambda (List.nodup_singleton _)
        (List.forall_mem_singleton.mpr (ht nofun)) hbody
    · rw [Bool.and_eq_true] at hselector
      exact ih.selector _ (ht nofun) hselector.1
    · exact hdone fun _ => .var (ht nofun)
  · refine keeps_advance.bind fun _ _ => ih.expression.bind fun inner hinner => ?_
    exact (keeps_expect _).bind fun _ _ => keeps_pure hinner
  · refine keeps_advance.bind fun _ _ => (ih.items _).bind fun elements helements => ?_
    exact hdone fun _ => .array helements
  · refine keeps_advance.bind fun _ _ => (ih.fields _).bind fun named hnamed => ?_
    exact hdone fun _ => .record hnamed.1.1 hnamed.2
  · exact keeps_unexpected _

end Grammar

/-- Every step of the grammar returns well-formed expressions. -/
lemma grammarKeeps (fuel : Nat) : GrammarKeeps K fuel := by
  induction fuel with
  | zero => exact grammarKeeps_zero
  | succ fuel ih =>
    exact
      { expression := keeps_expression ih
        pipeline := keeps_pipeline ih
        candidates := keeps_candidates ih
        binary := keeps_binary ih
        binaryTail := keeps_binaryTail ih
        operand := keeps_operand ih
        power := keeps_power ih
        unary := keeps_unary ih
        chain := keeps_chain ih
        chainTail := keeps_chainTail ih
        primary := keeps_primary ih
        items := keeps_items ih
        fields := keeps_fields ih
        bindings := keeps_bindings ih
        condition := keeps_condition ih
        conditions := keeps_conditions ih
        guarded := keeps_guarded ih
        constraints := keeps_constraints ih
        selector := keeps_selector ih }

end Parser

/-- The expression of a source by its tokens. -/
lemma parse_eq_ok {source : String} {tokens : List Token} {e : Expr Span}
    (htokens : (tokenize source).toOption = some tokens) (hparse : parseTokens tokens = .ok e) :
    parse source = .ok e := by
  cases htokenize : tokenize source with
  | error failure =>
    rw [htokenize] at htokens
    cases htokens
  | ok found =>
    rw [htokenize] at htokens
    cases htokens
    simp only [parse, htokenize, hparse, Except.mapError]

/-- A source that is parsed has tokens, and they are parsed. -/
lemma exists_tokens_of_parse {source : String} {e : Expr Span} (h : parse source = .ok e) :
    ∃ tokens, tokenize source = .ok tokens ∧ parseTokens tokens = .ok e := by
  unfold parse at h
  split at h
  · cases h
  · rename_i tokens htokens
    refine ⟨tokens, htokens, ?_⟩
    cases hparse : parseTokens tokens with
    | error failure =>
      rw [hparse] at h
      cases h
    | ok e' =>
      rw [hparse] at h
      cases h
      rfl

/-- Tokens that are parsed are read as an expression. -/
lemma exists_expression_of_parseTokens {tokens : List Token} {e : Expr Span}
    (h : parseTokens tokens = .ok e) :
    ∃ c, Parser.expression (24 * (tokens.length + 1)) ⟨tokens, 0⟩ = .ok (e, c) := by
  unfold parseTokens at h
  cases hrun : (Parser.whole (24 * (tokens.length + 1))).run ⟨tokens, 0⟩ with
  | error failure =>
    rw [hrun] at h
    cases h
  | ok result =>
    rw [hrun] at h
    cases h
    obtain ⟨e', c, hexpression, hend⟩ := Parser.exists_of_bind hrun
    obtain ⟨t, c', -, hend⟩ := Parser.exists_of_bind hend
    split_ifs at hend
    · cases hend
      exact ⟨c, hexpression⟩
    · cases hend

/-- Whatever the kinds of its tokens, a parsed source is well-formed. -/
theorem wellFormed_of_parse {K : Token.Kind → Prop} {source : String} {e : Expr Span}
    (hkinds : ∀ tokens, tokenize source = .ok tokens → ∀ t ∈ tokens, K t.kind)
    (h : parse source = .ok e) : e.WellFormed K := by
  obtain ⟨tokens, htokens, hparse⟩ := exists_tokens_of_parse h
  obtain ⟨c, hexpression⟩ := exists_expression_of_parseTokens hparse
  exact ((Parser.grammarKeeps _).expression ⟨tokens, 0⟩ e c (hkinds tokens htokens) hexpression).1

end Retarget
