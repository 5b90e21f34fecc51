import Retarget.Proofs.Grouping.Sql
import Retarget.Proofs.Quoting.Occurrence

set_option autoImplicit false

/-!
# Expressions of SQL

The code of a lowered form as an expression of SQL: calls, operators, casts, conditionals and member
reads with their operands. Code whose type its operator settles stays text.

## Main definitions

* `Retarget.Sql.Expression` — an expression of SQL, and `Expression.text`, its code.
* `Retarget.Sql.Argument` — a lowered form with its expression, and the conversions of it.
* `Retarget.Sql.expression` — the expression of a lowered form.
* `Retarget.Sql.scopeExpressions` — the expressions that names stand for.

## Main results

* `Retarget.Sql.spells_expression` — the expression spells the code that is written.
-/

namespace Retarget.Sql

open Quoting

/-! ## Expressions -/

/-- An expression of SQL. -/
inductive Expression
  /-- Code of which the text is known and the operator at its top level. -/
  | code (text : String) (op : Option String)
  /-- A name that stands for no other expression. -/
  | input (name : String)
  | constant (value : Literal)
  /-- Fixed code with its operator. -/
  | fixed (text : String) (op : Option String)
  | operation (op : String) (lhs rhs : Expression)
  | negated (operand : Expression)
  /-- A call of a function by its name. -/
  | call (function : String) (args : List Expression)
  /-- A call of the helper that stands for a call of the name. -/
  | helper (name : String) (args : List Expression)
  /-- A call of the failure helper with the type of the value that it stands for. -/
  | failure (ty : Ty) (message : String)
  | coalesce (parts : List Expression)
  | cast (inner : Expression) (column : Column)
  /-- A member of a `jsonb` value. -/
  | member (object key : String)
  /-- A member of a `jsonb` value as text. -/
  | memberText (object key : String)
  | array (items : List Expression)
  | parens (inner : Expression)
  /-- The first item of an array. -/
  | firstItem (items : Expression)
  | lastItem (items : Expression)
  | choice (test : String) (yes no : Expression)

namespace Expression

mutual

/-- The code of the expression. -/
def text : Expression → String
  | .code text _ | .fixed text _ => text
  | .input name => identifier name
  | .constant value => literalCode value
  | .operation op lhs rhs => lhs.text ++ " " ++ op ++ " " ++ rhs.text
  | .negated operand => "-" ++ operand.text
  | .call function args => function ++ "(" ++ commaSeparated (texts args) ++ ")"
  | .helper name args => Helper.snake name ++ "(" ++ commaSeparated (texts args) ++ ")"
  | .failure ty message => failureCode ty message
  | .coalesce parts => "COALESCE(" ++ commaSeparated (texts parts) ++ ")"
  | .cast inner column => Sql.cast inner.text column
  | .member object key => "(" ++ object ++ " -> " ++ key ++ ")"
  | .memberText object key => "(" ++ object ++ " ->> " ++ key ++ ")"
  | .array items => "ARRAY[" ++ commaSeparated (texts items) ++ "]"
  | .parens inner => "(" ++ inner.text ++ ")"
  | .firstItem items => "(" ++ items.text ++ ")[1]"
  | .lastItem items => "(" ++ items.text ++ ")[cardinality(" ++ items.text ++ ")]"
  | .choice test yes no =>
    "CASE WHEN " ++ test ++ " THEN " ++ yes.text ++ " ELSE " ++ no.text ++ " END"

/-- The codes of a row of expressions. -/
def texts : List Expression → List String
  | [] => []
  | e :: es => e.text :: texts es

end

/-- The operator at the top level of the code. -/
def op : Expression → Option String
  | .code _ op | .fixed _ op => op
  | .operation op _ _ => some op
  | .negated _ => some "u-"
  | _ => none

/-- The code as a piece of other code. -/
def fragment (e : Expression) : Fragment := ⟨e.text, e.op⟩

/-- The expression on a side of an operator. -/
def wrapped (e : Expression) (outer : String) (side : Side) : Expression :=
  if precedence.needsParens e.op outer side then e.parens else e

/-- An operator between two operands. -/
def infixed (op : String) (lhs rhs : Expression) : Expression :=
  .operation op (lhs.wrapped op .left) (rhs.wrapped op .right)

/-- The expression where a name stands for it. -/
def substituted (value : Ir) (e : Expression) : Expression :=
  if isNarrow value then .cast e .bigint else if e.op.isSome then e.parens else e

/-- The codes of a row of expressions are those of each of them. -/
lemma texts_eq_map (es : List Expression) : texts es = es.map text := by
  induction es with
  | nil => rfl
  | cons e es ih => exact congrArg _ ih

/-- The code on a side of an operator has parentheses where the precedence table asks for them. -/
lemma text_wrapped (e : Expression) (outer : String) (side : Side) :
    (e.wrapped outer side).text = precedence.wrap e.fragment outer side := by
  unfold wrapped PrecedenceTable.wrap
  change (if precedence.needsParens e.fragment.op outer side = true then _ else _ : Expression).text = _
  split_ifs
  · simp only [text]
    rfl
  · rfl

/-- What stands for a name is written as SQL substitutes it. -/
lemma fragment_substituted (value : Ir) (e : Expression) :
    (e.substituted value).fragment = Sql.substituted value e.fragment := by
  unfold substituted Sql.substituted
  change (if _ then _ else if e.fragment.op.isSome = true then _ else _ : Expression).fragment = _
  split_ifs <;> rfl

end Expression

/-! ## Arguments -/

/-- A lowered form with its expression. -/
abbrev Argument := Ir × Expression

namespace Argument

/-- The argument as a `jsonb` value. -/
def jsonb (a : Argument) : Expression :=
  match a.1.ty with
  | .any | .record _ => a.2
  | .null => .cast (.constant .null) .jsonb
  | _ => .call "to_jsonb" [if isStringLiteral a.1.literal? then .cast a.2 .text else a.2]

/-- The argument read as a column type. -/
def coerced (column : Column) (a : Argument) : Expression :=
  if a.1.ty.isAny then .code (readAs column a.2.fragment) none else a.2

/-- The argument as a branch of a conditional or alternative of a type. -/
def branch (ty : Ty) (a : Argument) : Expression := if ty.isAny then a.jsonb else a.2

end Argument

/-- The argument at a place. -/
def argumentAt (args : List Argument) (i : Nat) : Argument :=
  args.getD i (.ofLiteral .null, .code "" none)

/-! ## Calls -/

/-- The functions that forms name by the code in front of their arguments. -/
def sequenceFunctions : List String := ["ABS", "LENGTH", "cardinality", "jsonb_build_object"]

/-- The column type of the code behind what is cast. -/
def castColumn? (closing : String) : Option Column :=
  columns.find? fun column => castEnd column == closing

/-- Arguments with commas between them, between two pieces of code. -/
def sequenced (opening closing : String) (args : List Expression) : Option Expression :=
  if opening = "ARRAY[" ∧ closing = "]" then some (.array args)
  else if closing = ")" then
    (sequenceFunctions.find? (· ++ "(" == opening)).map (.call · args)
  else none

/-- An expression between two pieces of code. -/
def enclosed (opening closing : String) (inner : Expression) : Option Expression :=
  if opening = "(" ∧ closing = ")[1]" then some (.firstItem inner)
  else if opening = "CAST(" then (castColumn? closing).map (.cast inner)
  else if opening = "make_interval(days => " ∧ closing = ")" then
    some (.call "make_interval" [.code ("days => " ++ inner.text) none])
  else none

/-- The expression of a call in a form that all targets share. -/
def sharedExpression (args : List Argument) : Form → Option Expression
  | .constant code op => some (.fixed code op)
  | .identity => some (argumentAt args 0).2
  | .infixOp op => some (.infixed op (argumentAt args 0).2 (argumentAt args 1).2)
  | .sequence opening closing => sequenced opening closing (args.map Prod.snd)
  | .enclosed opening inner closing none => (sharedExpression args inner).bind (enclosed opening closing)
  | _ => none

/-- A date shifted by a duration. -/
def shifted (op : String) (date duration : Argument) : Expression :=
  match duration.1.literal?.bind Temporal.literalDays? with
  | some days => .operation op (date.2.wrapped op .left) (.constant (.int days))
  | none => .cast (.infixed op date.2 duration.2) .date

/-- A member read of a type. -/
def memberRead (result : Ty) (object key : String) : Expression :=
  match column? result with
  | none | some .jsonb => .member object key
  | some .text => .memberText object key
  | some column => .cast (.code (object ++ " ->> " ++ key) (some "->>")) column

/-- What a part of a point in time is taken from. -/
def extractSource (ty : Ty) (value : Expression) : String :=
  match ty with
  | .dateTime => precedence.wrap value.fragment "AT" .left ++ " AT TIME ZONE 'UTC'"
  | _ => value.text

/-- The expression of a call in a form. -/
def callExpression (name : String) (argTypes : List Ty) (result : Ty) (args : List Argument) :
    CallForm → Expression
  | .shared form => (sharedExpression args form).getD (.code "" none)
  | .untyped => .helper name (args.map Argument.jsonb)
  | .operator op =>
    if argTypes.any Ty.isAny then .helper name (args.map Argument.jsonb)
    else .infixed op (argumentAt args 0).2 (argumentAt args 1).2
  | .wide op =>
    let a := argumentAt args 0
    let b := argumentAt args 1
    .operation op
      (if isNarrow a.1 && isNarrow b.1 then .cast a.2 .bigint else a.2.wrapped op .left)
      (b.2.wrapped op .right)
  | .negation =>
    if (argTypes.getD 0 .any).isAny then .helper name (args.map Argument.jsonb)
    else .negated ((argumentAt args 0).2.wrapped "u-" .right)
  | .connective op =>
    .infixed op ((argumentAt args 0).coerced .boolean) ((argumentAt args 1).coerced .boolean)
  | .complement =>
    .code ("NOT " ++ (((argumentAt args 0).coerced .boolean).wrapped "NOT" .right).text) (some "NOT")
  | .nullTest place test =>
    if (argTypes.getD place .any).isAny then .helper name (args.map Argument.jsonb)
    else .code (((argumentAt args place).2.wrapped "IS" .left).text ++ " " ++ test) (some "IS")
  | .dateShift dateFirst op =>
    shifted op (argumentAt args (if dateFirst then 0 else 1))
      (argumentAt args (if dateFirst then 1 else 0))
  | .asserted =>
    .helper name [(argumentAt args 0).jsonb, (argumentAt args 1).coerced .text]
  | .coerced function column => .call function (args.map (Argument.coerced column))
  | .integerOf function => .cast (.call function [(argumentAt args 0).coerced .numeric]) .bigint
  | .extract part =>
    let source := extractSource (argTypes.getD 0 .any) ((argumentAt args 0).coerced .timestamp)
    .cast (.code ("EXTRACT(" ++ part ++ " FROM " ++ source ++ ")") none) .bigint
  | .endsWith =>
    let ending := ((argumentAt args 1).coerced .text).text
    .code
      ("RIGHT(" ++ ((argumentAt args 0).coerced .text).text ++ ", LENGTH(" ++ ending ++ ")) = " ++
        ending) (some "=")
  | .containsText =>
    .code
      ("POSITION(" ++ ((argumentAt args 1).coerced .text).text ++ " IN " ++
        (argumentAt args 0).2.text ++ ") > 0") (some ">")
  | .containsItem =>
    .code
      (((argumentAt args 1).2.wrapped "=" .left).text ++ " = ANY(" ++ (argumentAt args 0).2.text ++
        ")") (some "=")
  | .joined => .call "array_to_string" [(argumentAt args 0).2, (argumentAt args 1).coerced .text]
  | .lastItem => .lastItem (argumentAt args 0).2
  | .field =>
    memberRead result ((argumentAt args 0).2.wrapped "->" .left).text (argumentAt args 1).2.text
  | .fail => .failure result ((argumentAt args 0).coerced .text).text

/-! ## Lowered forms -/

/-- The names with the expressions that they stand for. -/
abbrev Expressions := List (String × Expression)

/-- The codes that the names stand for. -/
def Expressions.names (env : Expressions) : Bindings := env.map fun p => (p.1, p.2.fragment)

mutual

/-- The expression of a lowered form, where the names stand for expressions. -/
def expression (env : Expressions) : Ir → Expression
  | .literal value _ => .constant value
  | .var name _ => (env.lookup name).getD (.input name)
  | .letIn bindings body _ => expression (boundExpressions env bindings) body
  | .lambda _ _ _ => .code "" none
  | .cond test yes no ty =>
    .choice (Argument.coerced .boolean (test, expression env test)).text
      (Argument.branch ty (yes, expression env yes)) (Argument.branch ty (no, expression env no))
  | .alternative candidates ty =>
    .coalesce ((arguments env candidates).map (Argument.branch ty) ++
      [.failure ty (quote "no alternative matched")])
  | .call name args argTypes ty =>
    match registry.lookup name (argTypes.map Ty.tag) with
    | .ok form => callExpression name argTypes ty (arguments env args) form
    | .error _ => .code "" none

/-- Lowered forms with their expressions. -/
def arguments (env : Expressions) : List Ir → List Argument
  | [] => []
  | ir :: irs => (ir, expression env ir) :: arguments env irs

/-- The names with those of the bindings, each of which sees those before it. -/
def boundExpressions (env : Expressions) : List (String × Ir) → Expressions
  | [] => env
  | (name, value) :: rest =>
    boundExpressions ((name, (expression env value).substituted value) :: env) rest

end

/-- The expressions of the values of names, each of which sees the names behind it. -/
def scopeExpressions : List (String × Ir) → Expressions
  | [] => []
  | (name, value) :: env =>
    (name, (expression (scopeExpressions env) value).substituted value) :: scopeExpressions env

/-- A row of lowered forms has its expressions one by one. -/
lemma arguments_eq_map (env : Expressions) (irs : List Ir) :
    arguments env irs = irs.map fun ir => (ir, expression env ir) := by
  induction irs with
  | nil => rfl
  | cons ir irs ih =>
    rw [arguments, ih]
    rfl

/-! ## Expressions spell code -/

/-- The argument is the operand, and its expression spells what is written for it. -/
def Spelled (names : Bindings) (o : Operand) (a : Argument) : Prop :=
  o.ir = a.1 ∧ ∀ fragment, o.fragment.Succeeds names fragment → a.2.fragment = fragment

section Spelled

variable {names : Bindings} {o : Operand} {a : Argument}

/-- A spelled argument has the code of its expression. -/
lemma Spelled.code (h : Spelled names o a) {code : String} (hcode : o.code.Succeeds names code) :
    a.2.text = code := by
  simp only [Operand.code, Emit.succeeds_bind, Emit.succeeds_pure] at hcode
  obtain ⟨fragment, hfragment, rfl⟩ := hcode
  exact congrArg Fragment.code (h.2 fragment hfragment)

/-- A spelled argument has the code of its expression on a side of an operator. -/
lemma Spelled.wrapped (h : Spelled names o a) {outer code : String} {side : Side}
    (hcode : (o.wrapped precedence outer side).Succeeds names code) :
    (a.2.wrapped outer side).text = code := by
  simp only [Operand.wrapped, Emit.succeeds_bind, Emit.succeeds_pure] at hcode
  obtain ⟨fragment, hfragment, rfl⟩ := hcode
  rw [Expression.text_wrapped, h.2 fragment hfragment]

/-- A spelled argument has the code of its expression as a `jsonb` value. -/
lemma Spelled.jsonb (h : Spelled names o a) {code : String}
    (hcode : (Sql.jsonb o).Succeeds names code) : a.jsonb.text = code := by
  unfold Sql.jsonb at hcode
  rw [h.1] at hcode
  rw [Argument.jsonb]
  cases hty : a.1.ty with
  | any | record =>
    rw [hty] at hcode
    exact h.code hcode
  | null =>
    rw [hty] at hcode
    exact Emit.succeeds_pure.mp hcode
  | int | float | bool | string | date | dateTime | duration | array | function =>
    simp only [hty, Emit.succeeds_bind] at hcode
    obtain ⟨inner, hinner, hcode⟩ := hcode
    have htext := h.code hinner
    dsimp only
    split_ifs at hcode ⊢ <;> simpa [Expression.text, Expression.texts, htext] using hcode

/-- A spelled argument has the code of its expression where it is read as a column type. -/
lemma Spelled.coerced (h : Spelled names o a) {column : Column} {fragment : Fragment}
    (hfragment : (coerce o column).Succeeds names fragment) :
    (a.coerced column).fragment = fragment := by
  simp only [coerce, Emit.succeeds_bind, h.1] at hfragment
  obtain ⟨inner, hinner, hfragment⟩ := hfragment
  have htext := h.2 inner hinner
  unfold Argument.coerced
  split_ifs at hfragment ⊢
  · rw [htext]
    exact Emit.succeeds_pure.mp hfragment
  · exact htext.trans (Emit.succeeds_pure.mp hfragment)

/-- A spelled argument has the code of its expression as a branch. -/
lemma Spelled.branch (h : Spelled names o a) {ty : Ty} {code : String}
    (hcode : (Sql.branch ty o).Succeeds names code) : (a.branch ty).text = code := by
  unfold Sql.branch at hcode
  unfold Argument.branch
  split_ifs at hcode ⊢
  · exact h.jsonb hcode
  · exact h.code hcode

variable {os : List Operand} {args : List Argument}

/-- The argument at a place is the operand there; an operand that the call does not have is never
written. -/
lemma spelled_at (h : List.Forall₂ (Spelled names) os args) (name : String) (argTypes : List Ty)
    (ty : Ty) (i : Nat) :
    Spelled names (Site.operand ⟨name, os, argTypes, ty⟩ i) (argumentAt args i) := by
  unfold Site.operand argumentAt
  induction h generalizing i with
  | nil => exact ⟨rfl, fun fragment hfragment => (Emit.succeeds_fail.mp hfragment).elim⟩
  | cons hhead _ ih =>
    cases i with
    | zero => exact hhead
    | succ i => exact ih i

/-- Spelled arguments have the codes of their expressions. -/
lemma texts_of_codes (h : List.Forall₂ (Spelled names) os args) {cs : List String}
    (hcs : (codes os).Succeeds names cs) : Expression.texts (args.map Prod.snd) = cs := by
  induction h generalizing cs with
  | nil => exact Emit.succeeds_pure.mp hcs
  | cons hhead _ ih =>
    simp only [codes, Emit.succeeds_bind, Emit.succeeds_pure] at hcs
    obtain ⟨c, hc, cs, hrest, rfl⟩ := hcs
    rw [List.map_cons, Expression.texts, hhead.code hc, ih hrest]

/-- Spelled arguments have the codes of their expressions as `jsonb` values. -/
lemma texts_of_jsonbs (h : List.Forall₂ (Spelled names) os args) {cs : List String}
    (hcs : (jsonbs os).Succeeds names cs) : Expression.texts (args.map Argument.jsonb) = cs := by
  induction h generalizing cs with
  | nil => exact Emit.succeeds_pure.mp hcs
  | cons hhead _ ih =>
    simp only [jsonbs, Emit.succeeds_bind, Emit.succeeds_pure] at hcs
    obtain ⟨c, hc, cs, hrest, rfl⟩ := hcs
    rw [List.map_cons, Expression.texts, hhead.jsonb hc, ih hrest]

/-- Spelled arguments have the codes of their expressions where they are read as a column type. -/
lemma texts_of_coerceAll (h : List.Forall₂ (Spelled names) os args) {column : Column}
    {cs : List String} (hcs : (coerceAll column os).Succeeds names cs) :
    Expression.texts (args.map (Argument.coerced column)) = cs := by
  induction h generalizing cs with
  | nil => exact Emit.succeeds_pure.mp hcs
  | cons hhead _ ih =>
    simp only [coerceAll, Emit.succeeds_bind, Emit.succeeds_pure] at hcs
    obtain ⟨fragment, hfragment, cs, hrest, rfl⟩ := hcs
    rw [List.map_cons, Expression.texts, ih hrest, ← hhead.coerced hfragment]
    rfl

/-- Spelled arguments have the codes of their expressions as branches. -/
lemma texts_of_branches (h : List.Forall₂ (Spelled names) os args) {ty : Ty} {cs : List String}
    (hcs : (branches ty os).Succeeds names cs) :
    (args.map (Argument.branch ty)).map Expression.text = cs := by
  induction h generalizing cs with
  | nil => exact Emit.succeeds_pure.mp hcs
  | cons hhead _ ih =>
    simp only [branches, Emit.succeeds_bind, Emit.succeeds_pure] at hcs
    obtain ⟨c, hc, cs, hrest, rfl⟩ := hcs
    rw [List.map_cons, List.map_cons, hhead.branch hc, ih hrest]

end Spelled

/-! ### Calls -/

section Calls

variable {names : Bindings} {fragment : Fragment} {os : List Operand} {args : List Argument}
  {name : String} {argTypes : List Ty} {ty : Ty}

/-- An expression over arguments between two pieces of code is written so. -/
lemma fragment_sequenced (h : List.Forall₂ (Spelled names) os args) {opening closing code : String}
    {e : Expression} (he : sequenced opening closing (args.map Prod.snd) = some e)
    (hcode : (codeList os).Succeeds names code) :
    e.fragment = .atom (opening ++ code ++ closing) := by
  simp only [codeList, Emit.succeeds_bind, Emit.succeeds_pure] at hcode
  obtain ⟨cs, hcs, rfl⟩ := hcode
  have htexts := texts_of_codes h hcs
  unfold sequenced at he
  split_ifs at he with harray hclosing
  · obtain ⟨rfl, rfl⟩ := harray
    cases he
    rw [Expression.fragment, Expression.text, htexts]
    rfl
  · obtain ⟨function, hfound, rfl⟩ := Option.map_eq_some_iff.mp he
    have hopening : function ++ "(" = opening := by simpa using List.find?_some hfound
    rw [Expression.fragment, Expression.text, htexts, hopening, hclosing]
    rfl

/-- An expression between two pieces of code is written so. -/
lemma fragment_enclosed {opening closing : String} {inner e : Expression}
    (he : enclosed opening closing inner = some e) :
    e.fragment = .atom (opening ++ inner.text ++ closing) := by
  unfold enclosed at he
  split_ifs at he with hfirst hcast hinterval
  · obtain ⟨rfl, rfl⟩ := hfirst
    cases he
    rfl
  · obtain ⟨column, hfound, rfl⟩ := Option.map_eq_some_iff.mp he
    have hclosing : castEnd column = closing := by simpa using List.find?_some hfound
    rw [hcast, ← hclosing, castEnd, Expression.fragment, Expression.text, cast]
    simp only [String.append_assoc]
    rfl
  · obtain ⟨rfl, rfl⟩ := hinterval
    cases he
    simp only [Expression.fragment, Expression.text, Expression.texts, commaSeparated_singleton,
      ← String.append_assoc]
    rfl

/-- An operation is written as the form of its operator. -/
lemma fragment_infixOp (h : List.Forall₂ (Spelled names) os args) {op : String}
    (hform : ((Form.infixOp op).emit precedence ⟨name, os, argTypes, ty⟩).Succeeds names fragment) :
    (Expression.infixed op (argumentAt args 0).2 (argumentAt args 1).2).fragment = fragment := by
  have hat := spelled_at h name argTypes ty
  simp only [Form.emit, Emit.succeeds_bind, Emit.succeeds_pure] at hform
  obtain ⟨lhs, hlhs, rhs, hrhs, rfl⟩ := hform
  rw [Expression.infixed, Expression.fragment, Expression.text, (hat 0).wrapped hlhs,
    (hat 1).wrapped hrhs]
  rfl

/-- The expression of a call in a shared form spells what the form writes.

**Proof sketch.** By induction on the form; forms for which there is no expression leave nothing to
show. -/
lemma fragment_sharedExpression (h : List.Forall₂ (Spelled names) os args) {form : Form}
    {e : Expression} (he : sharedExpression args form = some e)
    (hform : (form.emit precedence ⟨name, os, argTypes, ty⟩).Succeeds names fragment) :
    e.fragment = fragment := by
  induction form generalizing e fragment with
  | constant code op =>
    cases he
    exact Emit.succeeds_pure.mp hform
  | identity =>
    cases he
    exact (spelled_at h name argTypes ty 0).2 fragment hform
  | infixOp op =>
    cases he
    exact fragment_infixOp h hform
  | sequence opening closing =>
    simp only [Form.emit, Emit.succeeds_bind, Emit.succeeds_pure] at hform
    obtain ⟨code, hcode, rfl⟩ := hform
    exact fragment_sequenced h he hcode
  | enclosed opening inner closing op ih =>
    cases op with
    | some op => cases he
    | none =>
      obtain ⟨middle, hmiddle, he⟩ := Option.bind_eq_some_iff.mp he
      simp only [Form.emit, Emit.succeeds_bind, Emit.succeeds_pure] at hform
      obtain ⟨piece, hpiece, rfl⟩ := hform
      rw [fragment_enclosed he, ← ih hmiddle hpiece]
      rfl
  | prefixOp | helper | method | suffix | exchanged | record => cases he

/-- A call of a helper over `jsonb` values. -/
lemma fragment_untyped (h : List.Forall₂ (Spelled names) os args)
    (hform : (untyped ⟨name, os, argTypes, ty⟩).Succeeds names fragment) :
    (Expression.helper name (args.map Argument.jsonb)).fragment = fragment := by
  simp only [untyped, Emit.succeeds_bind, Emit.succeeds_pure, Emit.succeeds_require] at hform
  obtain ⟨-, -, cs, hcs, rfl⟩ := hform
  rw [Expression.fragment, Expression.text, texts_of_jsonbs h hcs]
  rfl

/-- A date shifted by a duration is written so. -/
lemma fragment_shifted {date duration : Operand} {a b : Argument} (ha : Spelled names date a)
    (hb : Spelled names duration b) {op : String}
    (hform : (do
      let lhs ← date.wrapped precedence op .left
      match duration.ir.literal?.bind Temporal.literalDays? with
      | some days => return .operation (lhs ++ " " ++ op ++ " " ++ toString days) op
      | none =>
        let rhs ← duration.wrapped precedence op .right
        return .atom (cast (lhs ++ " " ++ op ++ " " ++ rhs) .date) : Emit Fragment).Succeeds names
          fragment) : (shifted op a b).fragment = fragment := by
  simp only [Emit.succeeds_bind] at hform
  obtain ⟨lhs, hlhs, hform⟩ := hform
  unfold shifted
  rw [hb.1] at hform
  split at hform
  · rw [Expression.fragment, Expression.text, ha.wrapped hlhs]
    exact Emit.succeeds_pure.mp hform
  · simp only [Emit.succeeds_bind, Emit.succeeds_pure] at hform
    obtain ⟨rhs, hrhs, rfl⟩ := hform
    rw [Expression.fragment, Expression.text, Expression.infixed, Expression.text,
      ha.wrapped hlhs, hb.wrapped hrhs]
    rfl

/-- A member read is written as the code of a field. -/
lemma fragment_memberRead (result : Ty) (object key : String) :
    (memberRead result object key).fragment = .atom (fieldCode result object key) := by
  unfold memberRead fieldCode
  cases column? result with
  | none => rfl
  | some column => cases column <;> rfl

/-- Whether code around an expression is covered does not depend on the expression. -/
lemma isSome_enclosed (opening closing : String) (inner inner' : Expression) :
    (enclosed opening closing inner).isSome = (enclosed opening closing inner').isSome := by
  unfold enclosed
  split_ifs <;> simp

/-- A form that the expressions of calls cover. -/
def CallForm.isCovered : CallForm → Bool
  | .shared form => (sharedExpression [] form).isSome
  | _ => true

/-- Whether a shared form is covered does not depend on the arguments. -/
lemma isSome_sharedExpression (args args' : List Argument) (form : Form) :
    (sharedExpression args form).isSome = (sharedExpression args' form).isSome := by
  induction form with
  | constant | identity | infixOp | prefixOp | helper | method | suffix | exchanged | record => rfl
  | sequence opening closing =>
    simp only [sharedExpression, sequenced]
    split_ifs <;> simp
  | enclosed opening inner closing op ih =>
    cases op with
    | some op => rfl
    | none =>
      simp only [sharedExpression]
      revert ih
      cases sharedExpression args inner <;> cases sharedExpression args' inner <;> intro ih
      · rfl
      · cases ih
      · cases ih
      · exact isSome_enclosed opening closing _ _

/-- The expression of a call spells what its form writes.

**Proof sketch.** By cases on the form. What the form writes is read off as the codes of its
arguments joined by fixed text; `spelled_at` turns each code into the text of the expression of that
argument, wrapped, coerced or as it stands, and both sides are then the same text. A form that falls
back to the untyped function is split on the type that decides this, on both sides alike. -/
lemma fragment_callExpression (h : List.Forall₂ (Spelled names) os args) {form : CallForm}
    (hcovered : form.isCovered = true)
    (hform : (form.emit ⟨name, os, argTypes, ty⟩).Succeeds names fragment) :
    (callExpression name argTypes ty args form).fragment = fragment := by
  -- The operand at a place spells the argument at that place.
  have hat := spelled_at h name argTypes ty
  cases form with
  | shared form =>
    have hsome : (sharedExpression args form).isSome = true :=
      (isSome_sharedExpression args [] form).trans hcovered
    obtain ⟨e, he⟩ := Option.isSome_iff_exists.mp hsome
    rw [callExpression, he]
    exact fragment_sharedExpression h he hform
  | untyped => exact fragment_untyped h hform
  | operator op =>
    simp only [CallForm.emit] at hform
    rw [callExpression]
    split_ifs at hform ⊢
    · exact fragment_untyped h hform
    · exact fragment_infixOp h hform
  | wide op =>
    simp only [CallForm.emit, (hat 0).1, (hat 1).1] at hform
    rw [callExpression]
    split_ifs at hform ⊢
    · simp only [Emit.succeeds_bind, Emit.succeeds_pure, exists_eq_left'] at hform
      obtain ⟨lhs, hlhs, rhs, hrhs, rfl⟩ := hform
      simp only [Expression.fragment, Expression.text, (hat 0).code hlhs, (hat 1).wrapped hrhs]
      rfl
    · simp only [Emit.succeeds_bind, Emit.succeeds_pure] at hform
      obtain ⟨lhs, hlhs, rhs, hrhs, rfl⟩ := hform
      simp only [Expression.fragment, Expression.text, (hat 0).wrapped hlhs, (hat 1).wrapped hrhs]
      rfl
  | negation =>
    simp only [CallForm.emit] at hform
    rw [callExpression]
    split_ifs at hform with hsite
    · have hany : (argTypes.getD 0 .any).isAny = true := hsite
      rw [if_pos hany]
      exact fragment_untyped h hform
    · have hany : ¬(argTypes.getD 0 .any).isAny = true := hsite
      rw [if_neg hany]
      simp only [Form.emit, Emit.succeeds_bind, Emit.succeeds_pure] at hform
      obtain ⟨operand, hoperand, rfl⟩ := hform
      rw [Expression.fragment, Expression.text, (hat 0).wrapped hoperand]
      rfl
  | connective op =>
    simp only [CallForm.emit, Emit.succeeds_bind, Emit.succeeds_pure] at hform
    obtain ⟨lhs, hlhs, rhs, hrhs, rfl⟩ := hform
    rw [callExpression, Expression.infixed, Expression.fragment, Expression.text,
      Expression.text_wrapped, Expression.text_wrapped, (hat 0).coerced hlhs, (hat 1).coerced hrhs]
    rfl
  | complement =>
    simp only [CallForm.emit, Emit.succeeds_bind, Emit.succeeds_pure] at hform
    obtain ⟨operand, hoperand, rfl⟩ := hform
    rw [callExpression, Expression.fragment, Expression.text, Expression.text_wrapped,
      (hat 0).coerced hoperand]
    rfl
  | nullTest place test =>
    simp only [CallForm.emit] at hform
    rw [callExpression]
    split_ifs at hform with hsite
    · have hany : (argTypes.getD place .any).isAny = true := hsite
      rw [if_pos hany]
      exact fragment_untyped h hform
    · have hany : ¬(argTypes.getD place .any).isAny = true := hsite
      rw [if_neg hany]
      simp only [Emit.succeeds_bind, Emit.succeeds_pure] at hform
      obtain ⟨value, hvalue, rfl⟩ := hform
      rw [Expression.fragment, Expression.text, (hat place).wrapped hvalue]
      rfl
  | dateShift dateFirst op => exact fragment_shifted (hat _) (hat _) hform
  | asserted =>
    simp only [CallForm.emit, Emit.succeeds_bind, Emit.succeeds_pure, Emit.succeeds_require] at hform
    obtain ⟨-, -, value, hvalue, message, hmessage, rfl⟩ := hform
    have hword := congrArg Fragment.code ((hat 1).coerced hmessage)
    simp only [callExpression, Expression.fragment, Expression.text, Expression.texts,
      (hat 0).jsonb hvalue, commaSeparated_cons_cons, commaSeparated_singleton]
    -- The message is wanted as text here, where `coerced` speaks of fragments.
    rw [show ((argumentAt args 1).coerced .text).text = message.code from hword]
    simp only [String.append_assoc]
    rfl
  | coerced function column =>
    simp only [CallForm.emit, Emit.succeeds_bind, Emit.succeeds_pure] at hform
    obtain ⟨cs, hcs, rfl⟩ := hform
    rw [callExpression, Expression.fragment, Expression.text, texts_of_coerceAll h hcs]
    rfl
  | integerOf function =>
    simp only [CallForm.emit, Emit.succeeds_bind, Emit.succeeds_pure] at hform
    obtain ⟨value, hvalue, rfl⟩ := hform
    rw [← (hat 0).coerced hvalue]
    simp only [callExpression, Expression.fragment, Expression.text, Expression.texts,
      commaSeparated_singleton]
    rfl
  | extract part =>
    simp only [CallForm.emit, Emit.succeeds_bind, Emit.succeeds_pure] at hform
    obtain ⟨value, hvalue, rfl⟩ := hform
    rw [← (hat 0).coerced hvalue]
    simp only [callExpression, Expression.fragment, Expression.text, extractSource, Site.argType]
    split <;> simp_all <;> rfl
  | endsWith =>
    simp only [CallForm.emit, Emit.succeeds_bind, Emit.succeeds_pure] at hform
    obtain ⟨text, htext, ending, hending, rfl⟩ := hform
    rw [← (hat 0).coerced htext, ← (hat 1).coerced hending]
    rfl
  | containsText =>
    simp only [CallForm.emit, Emit.succeeds_bind, Emit.succeeds_pure] at hform
    obtain ⟨text, htext, part, hpart, rfl⟩ := hform
    rw [← (hat 0).code htext, ← (hat 1).coerced hpart]
    rfl
  | containsItem =>
    simp only [CallForm.emit, Emit.succeeds_bind, Emit.succeeds_pure] at hform
    obtain ⟨item, hitem, items, hitems, rfl⟩ := hform
    rw [← (hat 0).code hitems, ← (hat 1).wrapped hitem]
    rfl
  | joined =>
    simp only [CallForm.emit, Emit.succeeds_bind, Emit.succeeds_pure] at hform
    obtain ⟨items, hitems, separator, hseparator, rfl⟩ := hform
    rw [← (hat 0).code hitems, ← (hat 1).coerced hseparator]
    simp only [callExpression, Expression.fragment, Expression.text, Expression.texts,
      commaSeparated_cons_cons, commaSeparated_singleton, String.append_assoc]
    rfl
  | lastItem =>
    simp only [CallForm.emit, Emit.succeeds_bind, Emit.succeeds_pure] at hform
    obtain ⟨items, hitems, rfl⟩ := hform
    rw [← (hat 0).code hitems]
    rfl
  | field =>
    simp only [CallForm.emit, Emit.succeeds_bind, Emit.succeeds_pure] at hform
    obtain ⟨object, hobject, key, hkey, rfl⟩ := hform
    rw [← (hat 0).wrapped hobject, ← (hat 1).code hkey]
    exact fragment_memberRead ty _ _
  | fail =>
    simp only [CallForm.emit, Emit.succeeds_bind, Emit.succeeds_pure, succeeds_failure] at hform
    obtain ⟨message, hmessage, code, rfl, rfl⟩ := hform
    rw [← (hat 0).coerced hmessage]
    rfl

end Calls

/-! ### Lowered forms -/

set_option maxRecDepth 4000 in
/-- The expressions of calls cover all forms of the registry. -/
lemma checks_covered : registry.checks (fun _ form => form.isCovered) = true := by
  decide

/-- A name stands for the code of its expression. -/
lemma Expressions.lookup_names (env : Expressions) (name : String) :
    env.names.lookup name = (env.lookup name).map Expression.fragment := by
  induction env with
  | nil => rfl
  | cons p env ih =>
    rw [Expressions.names, List.map_cons, List.lookup_cons, List.lookup_cons]
    cases name == p.1 with
    | true => rfl
    | false => exact ih

mutual

/-- The expression of a lowered form spells the code that is written for it.

**Proof sketch.** By recursion on the form. A name spells what it stands for, and every other form
is put together from its parts: the branches of a condition and of an alternative by `branch`, the
bindings by `spells_boundExpressions`, a call by `fragment_callExpression`, which needs that the
form found in the registry is one that expressions cover. -/
theorem spells_expression : ∀ (ir : Ir) (env : Expressions),
    Spelled env.names (target.operand ir) (ir, expression env ir)
  | .literal _ _, _ => ⟨rfl, fun _ h => Emit.succeeds_pure.mp h⟩
  | .var name ty, env => by
    refine ⟨rfl, fun fragment h => ?_⟩
    have hlookup : (TargetKind.sql.target.fragment (.var name ty)).Succeeds env.names fragment := h
    rw [TargetKind.fragment_var, Expressions.lookup_names] at hlookup
    rw [expression]
    cases hname : env.lookup name with
    | none =>
      rw [hname] at hlookup
      exact hlookup
    | some e =>
      rw [hname] at hlookup
      exact hlookup
  | .letIn bindings body _, env => by
    refine ⟨rfl, fun fragment h => ?_⟩
    rw [expression]
    exact spells_boundExpressions bindings env (spells_expression body) h
  | .lambda _ _ _, _ => ⟨rfl, fun _ h => (Emit.succeeds_fail.mp h).elim⟩
  | .cond test yes no ty, env => by
    refine ⟨rfl, fun fragment h => ?_⟩
    have hwritten : (target.conditional (target.operand test) (target.operand yes)
        (target.operand no) ty).Succeeds env.names fragment := h
    simp only [target, Emit.succeeds_bind, Emit.succeeds_pure] at hwritten
    obtain ⟨condition, hcondition, y, hy, n, hn, rfl⟩ := hwritten
    rw [← (spells_expression test env).coerced hcondition, ← (spells_expression yes env).branch hy,
      ← (spells_expression no env).branch hn]
    rfl
  | .alternative candidates ty, env => by
    refine ⟨rfl, fun fragment h => ?_⟩
    have hwritten : (target.alternative (Target.operands target candidates) ty).Succeeds env.names
        fragment := h
    simp only [target] at hwritten
    split_ifs at hwritten
    · exact (Emit.succeeds_fail.mp hwritten).elim
    · simp only [Emit.succeeds_bind, Emit.succeeds_pure, succeeds_failure] at hwritten
      obtain ⟨cs, hcs, last, rfl, rfl⟩ := hwritten
      rw [expression, Expression.fragment, Expression.text, Expression.texts_eq_map, List.map_append,
        texts_of_branches (spells_arguments candidates env) hcs]
      rfl
  | .call name args argTypes ty, env => by
    refine ⟨rfl, fun fragment h => ?_⟩
    obtain ⟨form, hlookup, hform⟩ := Registry.exists_of_call h
    have hcovered := Registry.of_checks rfl checks_covered hlookup
    simp only [Site.tags] at hlookup
    rw [expression]
    simp only [hlookup]
    exact fragment_callExpression (spells_arguments args env) hcovered hform

/-- The expressions of a row of lowered forms spell their codes. -/
theorem spells_arguments : ∀ (irs : List Ir) (env : Expressions),
    List.Forall₂ (Spelled env.names) (Target.operands target irs) (arguments env irs)
  | [], _ => .nil
  | ir :: irs, env => .cons (spells_expression ir env) (spells_arguments irs env)

/-- The names of bindings stand for the codes of their values. -/
theorem spells_boundExpressions : ∀ (bindings : List (String × Ir)) {body : Ir} (env : Expressions),
    (∀ env : Expressions, Spelled env.names (target.operand body) (body, expression env body)) →
      ∀ {fragment : Fragment},
        (bindIn (Target.boundOperands target bindings) (target.operand body)).Succeeds env.names
          fragment → (expression (boundExpressions env bindings) body).fragment = fragment
  | [], _, env, hbody, fragment, h => (hbody env).2 fragment h
  | (name, value) :: rest, _, env, hbody, fragment, h => by
    simp only [Target.boundOperands, bindIn, Emit.succeeds_bind, Emit.succeeds_binding] at h
    obtain ⟨inner, hinner, h⟩ := h
    have hvalue := (spells_expression value env).2 inner hinner
    rw [boundExpressions]
    refine spells_boundExpressions rest _ hbody ?_
    rw [Expressions.names, List.map_cons, Expression.fragment_substituted, hvalue]
    exact h

end

/-- What names stand for in the code, their expressions spell. -/
lemma names_scopeExpressions {env : List (String × Ir)} {names : Bindings}
    (h : TargetKind.sql.Bound env names) : (scopeExpressions env).names = names := by
  induction h with
  | nil => rfl
  | @cons env names name value fragment _ _ _ _ hfragment ih =>
    have hspelled := spells_expression value (scopeExpressions env)
    rw [ih] at hspelled
    have hvalue := hspelled.2 fragment hfragment
    rw [scopeExpressions, Expressions.names, List.map_cons, Expression.fragment_substituted, hvalue]
    exact congrArg _ ih

end Retarget.Sql
