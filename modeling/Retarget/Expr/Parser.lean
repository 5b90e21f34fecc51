import Retarget.Expr
import Retarget.Token.Lexer

set_option autoImplicit false

/-!
# From tokens to expressions

A recursive-descent parser with one step per level of the grammar, loosest first: pipes and
alternatives, `or`, `and`, equality, comparison, sums, products, powers (which group to the right),
unary operators, then calls and member reads. The forms that start with a keyword, and `x ~> body`,
extend as far to the right as they can.

Steps call each other on a smaller `fuel`. Between two tokens no more than twenty steps are taken,
so twenty-four for every token always suffice.

## Main definitions

* `Retarget.Level` — the levels of the operators that group to the left.
* `Retarget.Parser` — a step over the tokens that are left.
* `Retarget.parse` — the expression that a source denotes, with the bytes that each node takes.
-/

namespace Retarget

/-- The levels of the operators that group to the left, loosest first. -/
inductive Level
  | disjunction | conjunction | equality | comparison | sum | product
deriving DecidableEq, Repr

namespace Level

/-- The next tighter level, if that is one of operators that group to the left. -/
def tighter? : Level → Option Level
  | .disjunction => some .conjunction
  | .conjunction => some .equality
  | .equality => some .comparison
  | .comparison => some .sum
  | .sum => some .product
  | .product => none

/-- The operator of the level that a token is. -/
def operator? : Level → Token.Kind → Option BinaryOp
  | .disjunction, .keyword .or => some .or
  | .conjunction, .keyword .and => some .and
  | .equality, .punct .equal => some .eq
  | .equality, .punct .notEqual => some .neq
  | .comparison, .punct .lessEqual => some .lte
  | .comparison, .punct .greaterEqual => some .gte
  | .comparison, .punct .less => some .lt
  | .comparison, .punct .greater => some .gt
  | .sum, .punct .plus => some .add
  | .sum, .punct .minus => some .sub
  | .product, .punct .star => some .mul
  | .product, .punct .slash => some .div
  | .product, .punct .percent => some .mod
  | _, _ => none

end Level

/-- The operator in front of an operand that a token is. -/
def UnaryOp.ofToken? : Token.Kind → Option UnaryOp
  | .punct .minus => some .neg
  | .punct .plus => some .pos
  | .keyword .not => some .not
  | _ => none

/-- The tokens that are left, and the byte offset behind the last one that was taken. -/
structure Cursor where
  rest : List Token
  stop : Nat
deriving Repr

/-- A step over the tokens that are left. -/
abbrev Parser := StateT Cursor (Except Failure)

namespace Parser

/-! ## Single tokens -/

/-- The token to come; the last token of a source marks its end and is never taken. -/
def peek : Parser Token := do
  let cursor ← get
  return cursor.rest.headD (Token.atEnd cursor.stop)

/-- The kind of the token `n` places behind the one to come. -/
def peekKind (n : Nat) : Parser Token.Kind := do
  return ((← get).rest[n]?.map Token.kind).getD .eof

/-- Take the token to come. -/
def advance : Parser Unit := fun cursor =>
  match cursor.rest with
  | t :: next :: more => .ok ((), ⟨next :: more, t.stop⟩)
  | _ => .ok ((), cursor)

/-- The byte offset of the token to come. -/
def here : Parser Nat := do return (← peek).start

/-- The bytes from an offset up to the last token that was taken. -/
def spanFrom (start : Nat) : Parser Span := do return ⟨start, (← get).stop⟩

/-- A fault at a byte offset. -/
def failAt {α : Type} (offset : Nat) (fault : SyntaxFault) : Parser α :=
  throw ⟨offset, fault⟩

/-- The token to come is not what the grammar wants. -/
def unexpected {α : Type} (wanted : Expectation) : Parser α := do
  let t ← peek
  failAt t.start (.unexpected wanted (if t.kind = .eof then none else some t.text))

/-- Take the token to come if it is of the given kind, and tell whether it was. -/
def eatKind (kind : Token.Kind) : Parser Bool := do
  if (← peek).kind = kind then
    advance
    return true
  else return false

/-- Take a punctuator if it is there. -/
def eat (p : Punct) : Parser Bool := eatKind (.punct p)

/-- Take a punctuator. -/
def expect (p : Punct) : Parser Unit := do
  if !(← eat p) then unexpected (.word p.text)

/-- Take a keyword. -/
def expectKeyword (k : Keyword) : Parser Unit := do
  if !(← eatKind (.keyword k)) then unexpected (.word k.text)

/-- Take a name. -/
def identifier : Parser String := do
  match (← peek).kind with
  | .ident name =>
    advance
    return name
  | _ => unexpected .identifier

/-- Take the name of a field: a name, a string or a keyword. -/
def fieldName : Parser String := do
  match (← peek).kind with
  | .ident name | .literal (.string name) =>
    advance
    return name
  | .keyword k =>
    advance
    return k.text
  | _ => unexpected .fieldName

/-- Take the label of a condition if there is one: a name or a string before a colon. -/
def label : Parser (Option String) := do
  match (← peek).kind, ← peekKind 1 with
  | .ident name, .punct .colon | .literal (.string name), .punct .colon =>
    advance
    advance
    return some name
  | _, _ => return none

/-- Take the mark of a selector's policy. -/
def policy : Parser SelectPolicy := do
  if ← eat .doubleQuestion then return .orNull
  else if ← eat .question then return .check
  else if ← eat .bang then return .assert
  else return .raise

/-- The two tokens behind a name make it a selector if it starts with a capital: an opening
parenthesis or brace, or a policy mark and an opening parenthesis. -/
def opensSelector : Token.Kind → Token.Kind → Bool
  | .punct .openParen, _ | .punct .openBrace, _ => true
  | .punct .question, .punct .openParen | .punct .doubleQuestion, .punct .openParen
  | .punct .bang, .punct .openParen => true
  | _, _ => false

/-- A name that starts with an ASCII capital. -/
def isCapitalized (name : String) : Bool := name.toList.head?.any Char.isUpper

/-- How many arguments a selector may have. -/
def arityFits : SelectPolicy → Nat → Bool
  | .assert, n => n == 1 || n == 2
  | _, n => n == 1

/-- The parameters of a function up to the arrow, which is taken; `seen` are those before. -/
def params : Nat → List String → Parser (List String)
  | 0, _ => unexpected .identifier
  | fuel + 1, seen => do
    if ← eat .arrow then return []
    let start ← here
    let name ← identifier
    if name ∈ seen then failAt start (.duplicateParameter name)
    if ← eat .comma then return name :: (← params fuel (name :: seen))
    expect .arrow
    return [name]

/-! ## The grammar -/

mutual

/-- An expression: pipes and alternatives over disjunctions. -/
def expression : Nat → Parser (Expr Span)
  | 0 => unexpected .expression
  | fuel + 1 => do
    let start ← here
    let first ← binary fuel .disjunction
    pipeline fuel start first
termination_by structural n => n

/-- The pipes and alternatives behind what has been read. A row of candidates is one alternative. -/
def pipeline : Nat → Nat → Expr Span → Parser (Expr Span)
  | 0, _, _ => unexpected .expression
  | fuel + 1, start, value => do
    if ← eat .bar then
      let more ← candidates fuel
      pipeline fuel start (.alternative (← spanFrom start) (value :: more))
    else if ← eat .pipe then
      let function ← identifier
      let args ← if ← eat .openParen then items fuel .closeParen else pure []
      pipeline fuel start (.pipe (← spanFrom start) value function args)
    else return value
termination_by structural n => n

/-- The candidates behind the first `|`. -/
def candidates : Nat → Parser (List (Expr Span))
  | 0 => unexpected .expression
  | fuel + 1 => do
    let candidate ← binary fuel .disjunction
    if ← eat .bar then return candidate :: (← candidates fuel)
    return [candidate]
termination_by structural n => n

/-- Operands and operators of one level. -/
def binary : Nat → Level → Parser (Expr Span)
  | 0, _ => unexpected .expression
  | fuel + 1, level => do
    let start ← here
    let first ← operand fuel level
    binaryTail fuel level start first
termination_by structural n => n

/-- The operators of one level behind the operand that has been read, grouping to the left. -/
def binaryTail : Nat → Level → Nat → Expr Span → Parser (Expr Span)
  | 0, _, _, _ => unexpected .expression
  | fuel + 1, level, start, lhs => do
    match level.operator? (← peek).kind with
    | none => return lhs
    | some op =>
      advance
      let rhs ← operand fuel level
      binaryTail fuel level start (.binary (← spanFrom start) op lhs rhs)
termination_by structural n => n

/-- An operand of a level: an expression of the next tighter one. -/
def operand : Nat → Level → Parser (Expr Span)
  | 0, _ => unexpected .expression
  | fuel + 1, level =>
    match level.tighter? with
    | some tighter => binary fuel tighter
    | none => power fuel
termination_by structural n => n

/-- A power; powers group to the right. -/
def power : Nat → Parser (Expr Span)
  | 0 => unexpected .expression
  | fuel + 1 => do
    let start ← here
    let base ← unary fuel
    if ← eat .caret then
      let exponent ← power fuel
      return .binary (← spanFrom start) .pow base exponent
    return base
termination_by structural n => n

/-- An operand with the operators in front of it. -/
def unary : Nat → Parser (Expr Span)
  | 0 => unexpected .expression
  | fuel + 1 => do
    let start ← here
    match UnaryOp.ofToken? (← peek).kind with
    | none => chain fuel
    | some op =>
      advance
      let inner ← unary fuel
      return .unary (← spanFrom start) op inner
termination_by structural n => n

/-- A primary expression with the member reads and calls behind it. -/
def chain : Nat → Parser (Expr Span)
  | 0 => unexpected .expression
  | fuel + 1 => do
    let start ← here
    let first ← primary fuel
    chainTail fuel start first
termination_by structural n => n

/-- The member reads and calls behind what has been read. -/
def chainTail : Nat → Nat → Expr Span → Parser (Expr Span)
  | 0, _, _ => unexpected .expression
  | fuel + 1, start, value => do
    if ← eat .dot then
      let field ← identifier
      chainTail fuel start (.member (← spanFrom start) value field)
    else if ← eat .openParen then
      let args ← items fuel .closeParen
      chainTail fuel start (.call (← spanFrom start) value args)
    else return value
termination_by structural n => n

/-- A literal, a name, a bracketed form or a form that starts with a keyword. What stands in
parentheses is the expression itself. -/
def primary : Nat → Parser (Expr Span)
  | 0 => unexpected .expression
  | fuel + 1 => do
    let start ← here
    match (← peek).kind with
    | .literal value =>
      advance
      return .literal (← spanFrom start) value
    | .keyword .true =>
      advance
      return .literal (← spanFrom start) (.bool true)
    | .keyword .false =>
      advance
      return .literal (← spanFrom start) (.bool false)
    | .keyword .null =>
      advance
      return .literal (← spanFrom start) .null
    | .keyword .let =>
      advance
      let bound ← bindings fuel
      expectKeyword .in
      let body ← expression fuel
      return .letIn (← spanFrom start) bound body
    | .keyword .if =>
      advance
      let test ← expression fuel
      expectKeyword .then
      let yes ← expression fuel
      expectKeyword .else
      let no ← expression fuel
      return .cond (← spanFrom start) test yes no
    | .keyword .fn =>
      advance
      expect .openParen
      let names ← params fuel []
      let body ← expression fuel
      expect .closeParen
      return .lambda (← spanFrom start) names body
    | .keyword .guard =>
      advance
      guarded fuel start .guard
    | .keyword .check =>
      advance
      guarded fuel start .check
    | .ident name =>
      let next ← peekKind 1
      let afterNext ← peekKind 2
      advance
      if next = .punct .arrow then
        advance
        let body ← expression fuel
        return .lambda (← spanFrom start) [name] body
      else if isCapitalized name && opensSelector next afterNext then
        selector fuel start name
      else return .var (← spanFrom start) name
    | .punct .openParen =>
      advance
      let inner ← expression fuel
      expect .closeParen
      return inner
    | .punct .openBracket =>
      advance
      let elements ← items fuel .closeBracket
      return .array (← spanFrom start) elements
    | .punct .openBrace =>
      advance
      let named ← fields fuel []
      return .record (← spanFrom start) named
    | _ => unexpected .expression
termination_by structural n => n

/-- Expressions between commas up to the closing mark, which is taken; a comma may stand before
it. -/
def items : Nat → Punct → Parser (List (Expr Span))
  | 0, _ => unexpected .expression
  | fuel + 1, close => do
    if ← eat close then return []
    let item ← expression fuel
    if ← eat .comma then return item :: (← items fuel close)
    expect close
    return [item]
termination_by structural n => n

/-- The fields of a record up to its closing brace, which is taken; `seen` are the names before. -/
def fields : Nat → List String → Parser (List (String × Expr Span))
  | 0, _ => unexpected .expression
  | fuel + 1, seen => do
    if ← eat .closeBrace then return []
    let start ← here
    let name ← fieldName
    if name ∈ seen then failAt start (.duplicateField name)
    expect .colon
    let value ← expression fuel
    if ← eat .comma then return (name, value) :: (← fields fuel (name :: seen))
    expect .closeBrace
    return [(name, value)]
termination_by structural n => n

/-- The bindings of a `let`. -/
def bindings : Nat → Parser (List (String × Expr Span))
  | 0 => unexpected .expression
  | fuel + 1 => do
    let name ← identifier
    expect .assign
    let value ← expression fuel
    if ← eat .comma then return (name, value) :: (← bindings fuel)
    return [(name, value)]
termination_by structural n => n

/-- One condition. -/
def condition : Nat → Parser (Condition (Expr Span))
  | 0 => unexpected .expression
  | fuel + 1 => do
    let name ← label
    let test ← expression fuel
    return ⟨name, test⟩
termination_by structural n => n

/-- The conditions of a guard. -/
def conditions : Nat → Parser (List (Condition (Expr Span)))
  | 0 => unexpected .expression
  | fuel + 1 => do
    let first ← condition fuel
    if ← eat .comma then return first :: (← conditions fuel)
    return [first]
termination_by structural n => n

/-- A guard or check behind its keyword. -/
def guarded : Nat → Nat → GuardKind → Parser (Expr Span)
  | 0, _, _ => unexpected .expression
  | fuel + 1, start, kind => do
    let tests ← conditions fuel
    expectKeyword .in
    let body ← expression fuel
    return .guarded (← spanFrom start) kind tests body
termination_by structural n => n

/-- The constraints of a selector up to the closing brace, which is taken. -/
def constraints : Nat → Parser (List (Condition (Expr Span)))
  | 0 => unexpected .expression
  | fuel + 1 => do
    if ← eat .closeBrace then return []
    let first ← condition fuel
    if ← eat .comma then return first :: (← constraints fuel)
    expect .closeBrace
    return [first]
termination_by structural n => n

/-- A selector behind its type name: constraints, policy mark and arguments. -/
def selector : Nat → Nat → String → Parser (Expr Span)
  | 0, _, _ => unexpected .expression
  | fuel + 1, start, typeName => do
    let tests ← if ← eat .openBrace then constraints fuel else pure []
    let mark ← policy
    let opening ← here
    expect .openParen
    let args ← items fuel .closeParen
    if !arityFits mark args.length then failAt opening (.selectorArity typeName args.length)
    return .select (← spanFrom start) typeName mark tests args
termination_by structural n => n

end

/-- An expression and nothing behind it. -/
def whole (fuel : Nat) : Parser (Expr Span) := do
  let e ← expression fuel
  if (← peek).kind = .eof then return e
  unexpected .endOfInput

end Parser

/-- The expression that a row of tokens denotes. -/
def parseTokens (tokens : List Token) : Except Failure (Expr Span) :=
  ((Parser.whole (24 * (tokens.length + 1))).run ⟨tokens, 0⟩).map Prod.fst

/-- The expression that a source denotes. -/
def parse (source : String) : Except SyntaxError (Expr Span) :=
  match tokenize source with
  | .error e => .error e
  | .ok tokens => (parseTokens tokens).mapError (Failure.locate source)

end Retarget
