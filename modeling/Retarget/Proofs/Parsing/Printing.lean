import Retarget.Proofs.Parsing.WellFormed

set_option autoImplicit false

/-!
# Printed expressions

The tokens of an expression, with parentheses only where they are needed. Every expression has a
rank and every place where one can stand asks for a rank: what has too low a rank for its place
stands in parentheses.

| rank | expressions                                      | token behind the left operand |
|------|--------------------------------------------------|-------------------------------|
| 0    | `let`, `if`, `fn`, `x ~>`, `guard`, `check`      |                               |
| 1    | alternatives                                     | `\|>`                         |
| 2    | pipes                                            | `\|`                          |
| 3–8  | `or`, `and`, equality, comparison, sum, product  | the operators of the rank     |
| 9    | powers                                           |                               |
| 10   | unary operators                                  | `^`                           |
| 11   | variables that start with a capital              | `.`                           |
| 12   | all others                                       | `(`                           |

A token that stands behind a place of rank `r` has a reach of at most `r`; this keeps it from
becoming a part of what stands there.

## Main definitions

* `Retarget.Expr.rank`, `Retarget.Token.Kind.reach` — the ranks.
* `Retarget.Expr.kinds`, `Retarget.Expr.kindsAt` — the tokens of an expression, and of one at a place.
* `Retarget.Expr.plain` — the expression without its notes.

## Main results

* `Retarget.Expr.WellFormed.opening` — how the tokens of an expression start.
-/

namespace Retarget

/-! ## Tokens and ranks -/

/-- The token that a constant is written as. -/
def Literal.kind : Literal → Token.Kind
  | .bool true => .keyword .true
  | .bool false => .keyword .false
  | .null => .keyword .null
  | value => .literal value

/-- The token of the operator. -/
def UnaryOp.kind : UnaryOp → Token.Kind
  | .neg => .punct .minus
  | .pos => .punct .plus
  | .not => .keyword .not

namespace BinaryOp

/-- The token of the operator. -/
def kind : BinaryOp → Token.Kind
  | .add => .punct .plus
  | .sub => .punct .minus
  | .mul => .punct .star
  | .div => .punct .slash
  | .mod => .punct .percent
  | .pow => .punct .caret
  | .eq => .punct .equal
  | .neq => .punct .notEqual
  | .lt => .punct .less
  | .lte => .punct .lessEqual
  | .gt => .punct .greater
  | .gte => .punct .greaterEqual
  | .and => .keyword .and
  | .or => .keyword .or

/-- The rank of an operation. -/
def rank : BinaryOp → Nat
  | .or => 3
  | .and => 4
  | .eq | .neq => 5
  | .lt | .lte | .gt | .gte => 6
  | .add | .sub => 7
  | .mul | .div | .mod => 8
  | .pow => 9

/-- The rank that the left operand needs. Only powers group to the right. -/
def leftRank : BinaryOp → Nat
  | .pow => 10
  | op => op.rank

/-- The rank that the right operand needs. -/
def rightRank : BinaryOp → Nat
  | .pow => 9
  | op => op.rank + 1

end BinaryOp

/-- The mark of the policy. -/
def SelectPolicy.kinds : SelectPolicy → List Token.Kind
  | .raise => []
  | .orNull => [.punct .doubleQuestion]
  | .check => [.punct .question]
  | .assert => [.punct .bang]

/-- The keyword of the guard. -/
def GuardKind.keyword : GuardKind → Keyword
  | .guard => .guard
  | .check => .check

/-- The least rank of a place behind which the token can stand: zero for those that end every
expression. -/
def Token.Kind.reach : Token.Kind → Nat
  | .eof | .keyword .in | .keyword .then | .keyword .else | .punct .comma | .punct .closeParen
  | .punct .closeBracket | .punct .closeBrace => 0
  | .punct .pipe => 1
  | .punct .bar => 2
  | .keyword .or => 3
  | .keyword .and => 4
  | .punct .equal | .punct .notEqual => 5
  | .punct .less | .punct .lessEqual | .punct .greater | .punct .greaterEqual => 6
  | .punct .plus | .punct .minus => 7
  | .punct .star | .punct .slash | .punct .percent => 8
  | .punct .caret => 10
  | .punct .dot => 11
  | .punct .openParen => 12
  | _ => 13

namespace Level

/-- The rank of the operations of a level. -/
def rank : Level → Nat
  | .disjunction => 3
  | .conjunction => 4
  | .equality => 5
  | .comparison => 6
  | .sum => 7
  | .product => 8

/-- An operator of a level can stand behind the places of its rank. -/
lemma operator?_eq_some {l : Level} {x : Token.Kind} {op : BinaryOp}
    (h : l.operator? x = some op) : x.reach = l.rank := by
  unfold operator? at h
  split at h <;> first | rfl | cases h

/-- An operator is found at its level. -/
lemma operator?_kind {l : Level} {op : BinaryOp} (h : op.rank = l.rank) :
    l.operator? op.kind = some op := by
  cases l <;> cases op <;> first | rfl | cases h

end Level

namespace Expr

variable {α : Type}

/-- The rank of an expression. -/
def rank : Expr α → Nat
  | .cond _ _ _ _ | .letIn _ _ _ | .lambda _ _ _ | .guarded _ _ _ _ => 0
  | .alternative _ _ => 1
  | .pipe _ _ _ _ => 2
  | .binary _ op _ _ => op.rank
  | .unary _ _ _ => 10
  | .var _ name => if Parser.isCapitalized name then 11 else 12
  | .literal _ _ | .array _ _ | .record _ _ | .call _ _ _ | .member _ _ _ | .select _ _ _ _ _ => 12

/-! ## Rows of tokens -/

/-- Rows of tokens with a mark between them. -/
def separated (mark : Punct) : List (List Token.Kind) → List Token.Kind
  | [] => []
  | [row] => row
  | row :: next :: rows => row ++ .punct mark :: separated mark (next :: rows)

/-- The row between two marks. -/
def between (opening : Punct) (row : List Token.Kind) (closing : Punct) : List Token.Kind :=
  .punct opening :: (row ++ [.punct closing])

/-- What has the given rank, at a place: in parentheses if the place needs a higher one. -/
def grouped (place rank : Nat) (row : List Token.Kind) : List Token.Kind :=
  if rank < place then between .openParen row .closeParen else row

/-- The label of a condition. -/
def labelKinds : Option String → List Token.Kind
  | none => []
  | some name => [.literal (.string name), .punct .colon]

/-- The tokens before the value of a field. -/
def fieldKinds (name : String) : List Token.Kind := [.literal (.string name), .punct .colon]

/-- The tokens before the value of a binding. -/
def bindingKinds (name : String) : List Token.Kind := [.ident name, .punct .assign]

/-- Rows of arguments in parentheses. -/
def argumentKinds (rows : List (List Token.Kind)) : List Token.Kind :=
  between .openParen (separated .comma rows) .closeParen

/-- A function, in short if it has one parameter. -/
def lambdaKinds : Bool → List String → List Token.Kind → List Token.Kind
  | true, [param], body => .ident param :: .punct .arrow :: body
  | _, params, body =>
    .keyword .fn :: between .openParen
      (separated .comma (params.map fun p => [.ident p]) ++ .punct .arrow :: body) .closeParen

/-- The arguments of a pipe, in short if there are none. -/
def pipeKinds : Bool → List (List Token.Kind) → List Token.Kind
  | true, [] => []
  | _, rows => argumentKinds rows

/-- The constraints of a selector, if there are any. -/
def constraintKinds : List (List Token.Kind) → List Token.Kind
  | [] => []
  | rows => between .openBrace (separated .comma rows) .closeBrace

/-- The tokens of a selector behind its type name. -/
def selectorKinds (policy : SelectPolicy) (constraints args : List (List Token.Kind)) :
    List Token.Kind :=
  constraintKinds constraints ++ (policy.kinds ++ argumentKinds args)

mutual

/-- The tokens of an expression. The note tells whether a node is written in its short form, if it
has one: a function of one parameter without `fn`, and a pipe to a function without arguments. -/
def kinds : Expr Bool → List Token.Kind
  | .literal _ value => [value.kind]
  | .array _ items => between .openBracket (separated .comma (rows 0 0 items)) .closeBracket
  | .record _ fields =>
    between .openBrace (separated .comma (namedRows fieldKinds fields)) .closeBrace
  | .var _ name => [.ident name]
  | .unary _ op operand => op.kind :: grouped 10 operand.rank operand.kinds
  | .binary _ op lhs rhs =>
    grouped op.leftRank lhs.rank lhs.kinds ++ op.kind :: grouped op.rightRank rhs.rank rhs.kinds
  | .cond _ test yes no =>
    .keyword .if :: (test.kinds ++ .keyword .then :: (yes.kinds ++ .keyword .else :: no.kinds))
  | .letIn _ bindings body =>
    .keyword .let :: (separated .comma (namedRows bindingKinds bindings) ++
      .keyword .in :: body.kinds)
  | .lambda short params body => lambdaKinds short params body.kinds
  | .call _ callee args =>
    grouped 12 callee.rank callee.kinds ++ argumentKinds (rows 0 0 args)
  | .member _ object field => grouped 11 object.rank object.kinds ++ [.punct .dot, .ident field]
  | .pipe short value function args =>
    grouped 1 value.rank value.kinds ++ .punct .pipe :: .ident function ::
      pipeKinds short (rows 0 0 args)
  | .alternative _ candidates => separated .bar (rows 2 3 candidates)
  | .select _ typeName policy constraints args =>
    .ident typeName :: selectorKinds policy (conditionRows constraints) (rows 0 0 args)
  | .guarded _ kind conditions body =>
    .keyword kind.keyword :: (separated .comma (conditionRows conditions) ++
      .keyword .in :: body.kinds)

/-- The tokens of each of a row of expressions, the first of them at one place and the others at
another. -/
def rows (first others : Nat) : List (Expr Bool) → List (List Token.Kind)
  | [] => []
  | e :: es => grouped first e.rank e.kinds :: rows others others es

/-- The tokens of each of a row of named expressions. -/
def namedRows (before : String → List Token.Kind) :
    List (String × Expr Bool) → List (List Token.Kind)
  | [] => []
  | (name, e) :: rest => (before name ++ e.kinds) :: namedRows before rest

/-- The tokens of each of a row of conditions. -/
def conditionRows : List (Condition (Expr Bool)) → List (List Token.Kind)
  | [] => []
  | ⟨label, test⟩ :: rest => (labelKinds label ++ test.kinds) :: conditionRows rest

end

section Kinds

variable {note : Bool}

/-- The tokens of an array. -/
lemma kinds_array (items : List (Expr Bool)) : (array note items).kinds =
    between .openBracket (separated .comma (rows 0 0 items)) .closeBracket :=
  rfl

/-- The tokens of a record. -/
lemma kinds_record (fields : List (String × Expr Bool)) : (record note fields).kinds =
    between .openBrace (separated .comma (namedRows fieldKinds fields)) .closeBrace :=
  rfl

/-- The tokens of a conditional. -/
lemma kinds_cond (test yes no : Expr Bool) : (cond note test yes no).kinds =
    .keyword .if :: (test.kinds ++ .keyword .then :: (yes.kinds ++ .keyword .else :: no.kinds)) :=
  rfl

/-- The tokens of a `let`. -/
lemma kinds_letIn (bindings : List (String × Expr Bool)) (body : Expr Bool) :
    (letIn note bindings body).kinds =
      .keyword .let :: (separated .comma (namedRows bindingKinds bindings) ++
        .keyword .in :: body.kinds) :=
  rfl

/-- The tokens of a selector. -/
lemma kinds_select (typeName : String) (policy : SelectPolicy)
    (constraints : List (Condition (Expr Bool))) (args : List (Expr Bool)) :
    (select note typeName policy constraints args).kinds =
      .ident typeName :: selectorKinds policy (conditionRows constraints) (rows 0 0 args) :=
  rfl

/-- The tokens of a guard or a check. -/
lemma kinds_guarded (kind : GuardKind) (conditions : List (Condition (Expr Bool)))
    (body : Expr Bool) : (guarded note kind conditions body).kinds =
      .keyword kind.keyword :: (separated .comma (conditionRows conditions) ++
        .keyword .in :: body.kinds) :=
  rfl

end Kinds

/-- The tokens of an expression at a place of the given rank. -/
def kindsAt (place : Nat) (e : Expr Bool) : List Token.Kind := grouped place e.rank e.kinds

/-- At a place that its rank suffices for an expression has its bare tokens. -/
lemma kindsAt_of_le {place : Nat} {e : Expr Bool} (h : place ≤ e.rank) : e.kindsAt place = e.kinds :=
  if_neg (Nat.not_lt.mpr h)

/-- At a place that needs a higher rank an expression has parentheses. -/
lemma kindsAt_of_lt {place : Nat} {e : Expr Bool} (h : e.rank < place) :
    e.kindsAt place = between .openParen e.kinds .closeParen :=
  if_pos h

/-- At a place of rank zero an expression has its bare tokens. -/
lemma kindsAt_zero (e : Expr Bool) : e.kindsAt 0 = e.kinds := kindsAt_of_le (Nat.zero_le _)

/-- Expressions at places of one rank have their tokens one by one. -/
lemma rows_eq_map (place : Nat) (es : List (Expr Bool)) :
    rows place place es = es.map (kindsAt place) := by
  induction es with
  | nil => rfl
  | cons e es ih => exact congrArg _ ih

/-- Named expressions have their tokens one by one. -/
lemma namedRows_eq_map (before : String → List Token.Kind) (named : List (String × Expr Bool)) :
    namedRows before named = named.map fun p => before p.1 ++ p.2.kinds := by
  induction named with
  | nil => rfl
  | cons p named ih => exact congrArg _ ih

/-- Conditions have their tokens one by one. -/
lemma conditionRows_eq_map (conditions : List (Condition (Expr Bool))) :
    conditionRows conditions = conditions.map fun c => labelKinds c.label ++ c.test.kinds := by
  induction conditions with
  | nil => rfl
  | cons c conditions ih => exact congrArg _ ih

/-- The first of two rows, the mark and the others. -/
lemma separated_cons_cons (mark : Punct) (row next : List Token.Kind)
    (rows : List (List Token.Kind)) :
    separated mark (row :: next :: rows) = row ++ .punct mark :: separated mark (next :: rows) :=
  rfl

/-! ## Notes -/

mutual

/-- The expression without its notes. -/
def plain : Expr α → Expr Unit
  | .literal _ value => .literal () value
  | .array _ items => .array () (plains items)
  | .record _ fields => .record () (plainNamed fields)
  | .var _ name => .var () name
  | .unary _ op operand => .unary () op operand.plain
  | .binary _ op lhs rhs => .binary () op lhs.plain rhs.plain
  | .cond _ test yes no => .cond () test.plain yes.plain no.plain
  | .letIn _ bindings body => .letIn () (plainNamed bindings) body.plain
  | .lambda _ params body => .lambda () params body.plain
  | .call _ callee args => .call () callee.plain (plains args)
  | .member _ object field => .member () object.plain field
  | .pipe _ value function args => .pipe () value.plain function (plains args)
  | .alternative _ candidates => .alternative () (plains candidates)
  | .select _ typeName policy constraints args =>
    .select () typeName policy (plainConditions constraints) (plains args)
  | .guarded _ kind conditions body => .guarded () kind (plainConditions conditions) body.plain

/-- Expressions without their notes. -/
def plains : List (Expr α) → List (Expr Unit)
  | [] => []
  | e :: es => e.plain :: plains es

/-- Named expressions without their notes. -/
def plainNamed : List (String × Expr α) → List (String × Expr Unit)
  | [] => []
  | (name, e) :: rest => (name, e.plain) :: plainNamed rest

/-- Conditions without their notes. -/
def plainConditions : List (Condition (Expr α)) → List (Condition (Expr Unit))
  | [] => []
  | ⟨label, test⟩ :: rest => ⟨label, test.plain⟩ :: plainConditions rest

end

/-- Expressions lose their notes one by one. -/
lemma plains_eq_map (es : List (Expr α)) : plains es = es.map plain := by
  induction es with
  | nil => rfl
  | cons e es ih => exact congrArg _ ih

/-! ## How tokens start -/

/-- A label is such a token with a colon behind it. -/
def isLabel : Token.Kind → Bool
  | .ident _ | .literal (.string _) => true
  | _ => false

/-- The tokens start with a label. -/
def isLabelled : List Token.Kind → Bool
  | [] => false
  | x :: xs => isLabel x && xs.head? == some (.punct .colon)

/-- The tokens start like those of an expression; with no operator in front if there may be none. -/
structure Opens (bare : Prop) (ks : List Token.Kind) : Prop where
  cons : ∃ x xs, ks = x :: xs ∧ 0 < x.reach ∧ (bare → UnaryOp.ofToken? x = none)
  unlabelled : ∀ k, k.head? ≠ some (.punct .colon) → isLabelled (ks ++ k) = false

section Opening

variable {bare bare' : Prop} {ks more : List Token.Kind} {x : Token.Kind}

/-- Tokens that start an expression without an operator in front start one where there may be one.
-/
lemma Opens.mono (h : Opens bare ks) (hbare : bare' → bare) : Opens bare' ks := by
  obtain ⟨⟨x, xs, heq, hreach, hunary⟩, hlabel⟩ := h
  exact ⟨⟨x, xs, heq, hreach, fun hb => hunary (hbare hb)⟩, hlabel⟩

/-- Tokens that start an expression do so with more behind them, unless a label comes of it. -/
lemma Opens.append (h : Opens bare ks) (hmore : more.head? ≠ some (.punct .colon)) :
    Opens bare (ks ++ more) := by
  obtain ⟨⟨x, xs, rfl, hreach, hunary⟩, hlabel⟩ := h
  refine ⟨⟨x, xs ++ more, rfl, hreach, hunary⟩, fun k hk => ?_⟩
  rw [List.append_assoc]
  refine hlabel _ ?_
  cases more with
  | nil => exact hk
  | cons y ys => exact hmore

/-- A token starts an expression where it can stand there and starts no label. -/
lemma opens_cons (hreach : 0 < x.reach) (hunary : bare → UnaryOp.ofToken? x = none)
    (hlabel : isLabel x = false ∨ ks.head? ≠ some (.punct .colon)) : Opens bare (x :: ks) := by
  refine ⟨⟨x, ks, rfl, hreach, hunary⟩, fun k hk => ?_⟩
  rcases hlabel with hlabel | hlabel
  · simp [isLabelled, hlabel]
  · cases ks <;> simp_all [isLabelled]

/-- Parentheses start an expression. -/
lemma opens_parens : Opens bare (between .openParen ks .closeParen) :=
  opens_cons (by decide) (fun _ => rfl) (.inl rfl)

variable {e : Expr Bool}

/-- At a place of a high rank no operator stands in front. -/
lemma Opens.at (h : Opens (e.rank = 0 ∨ 11 ≤ e.rank) e.kinds) (place : Nat) :
    Opens (11 ≤ place) (e.kindsAt place) := by
  by_cases hrank : e.rank < place
  · rw [kindsAt_of_lt hrank]
    exact opens_parens
  · have hle := Nat.not_lt.mp hrank
    rw [kindsAt_of_le hle]
    exact h.mono fun hplace => .inr (Nat.le_trans hplace hle)

/-- How the tokens of an expression start.

**Proof sketch.** Induction over the expression. Most constructs start with a token of their own.
Operations, calls, member reads, pipes and alternatives start with the tokens of their first
operand, with something other than a colon behind them. -/
theorem WellFormed.opening {K : Token.Kind → Prop} (h : e.WellFormed K) :
    Opens (e.rank = 0 ∨ 11 ≤ e.rank) e.kinds := by
  induction h with
  | @literal _ _ value _ _ =>
    have hkind : 0 < value.kind.reach ∧ UnaryOp.ofToken? value.kind = none := by
      cases value with
      | bool b => cases b <;> decide
      | _ => exact ⟨Nat.succ_pos 12, rfl⟩
    exact opens_cons hkind.1 (fun _ => hkind.2) (.inr (by simp))
  | array => exact opens_cons (by decide) (fun _ => rfl) (.inl rfl)
  | record => exact opens_cons (by decide) (fun _ => rfl) (.inl rfl)
  | var => exact opens_cons (Nat.succ_pos 12) (fun _ => rfl) (.inr (by simp))
  | @unary _ op _ _ _ =>
    have hbare : ¬(10 = 0 ∨ 11 ≤ 10) := by omega
    cases op <;> exact opens_cons (by decide) (fun h => absurd h hbare) (.inl rfl)
  | @binary _ op _ _ _ _ iha _ =>
    have hbare : ¬(op.rank = 0 ∨ 11 ≤ op.rank) := by cases op <;> decide
    have hop : op.kind ≠ .punct .colon := by cases op <;> decide
    exact ((iha.at op.leftRank).append (by simpa using hop)).mono fun h => absurd h hbare
  | cond => exact opens_cons (by decide) (fun _ => rfl) (.inl rfl)
  | letIn => exact opens_cons (by decide) (fun _ => rfl) (.inl rfl)
  | @lambda short params _ _ _ _ _ =>
    change Opens _ (lambdaKinds short params _)
    unfold lambdaKinds
    split
    · exact opens_cons (Nat.succ_pos 12) (fun _ => rfl) (.inr (by simp))
    · exact opens_cons (by decide) (fun _ => rfl) (.inl rfl)
  | call _ _ ihcallee _ =>
    exact ((ihcallee.at 12).append (by simp [argumentKinds, between])).mono fun _ => by omega
  | member _ _ ih => exact ((ih.at 11).append (by simp)).mono fun _ => by omega
  | pipe _ _ _ ihvalue _ =>
    exact ((ihvalue.at 1).append (by simp)).mono fun h => absurd h (by simp [rank])
  | @alternative _ candidates hlength _ ih =>
    rcases candidates with - | ⟨c, - | ⟨d, ds⟩⟩
    · simp at hlength
    · simp at hlength
    · exact (((ih c (by simp)).at 2).append (by simp)).mono fun h => absurd h (by simp [rank])
  | @select _ _ policy constraints _ _ _ _ _ _ _ _ =>
    refine opens_cons (Nat.succ_pos 12) (fun _ => rfl) (.inr ?_)
    cases constraints with
    | nil => cases policy <;> simp [selectorKinds, conditionRows, constraintKinds,
        SelectPolicy.kinds, argumentKinds, between]
    | cons c cs => simp [selectorKinds, conditionRows, constraintKinds, between]
  | @guarded _ kind _ _ _ _ _ _ _ =>
    cases kind <;> exact opens_cons (by decide) (fun _ => rfl) (.inl rfl)

end Opening

end Expr

end Retarget
