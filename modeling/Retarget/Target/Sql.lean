import Retarget.Decimal.Shortest
import Retarget.Target
import Retarget.Temporal

set_option autoImplicit false

/-!
# SQL

SQL has no functions inside expressions: bindings are put in place of their names, functions are
refused, and calls that take functions have no form. A failure is a call of a helper that raises.

Values of unknown static type (the input, fields of records of unknown type, results of helpers on
such values) are `jsonb`. A value of known type that meets one is converted, and the operation goes
to a helper; library functions read such arguments back as the column type that they need.

## Main definitions

* `Retarget.Sql.Column`, `Retarget.Sql.column?` — the column types, and that of a static type.
* `Retarget.Sql.registry` — how calls are written.
* `Retarget.Sql.target` — the target.
-/

namespace Retarget.Sql

/-! ## Precedence and names -/

/-- Binding strengths of the operators. -/
def precedence : PrecedenceTable :=
  [(".", 20, .left), ("u-", 16, .none), ("^", 15, .left), ("*", 14, .left), ("/", 14, .left),
   ("%", 14, .left), ("+", 13, .left), ("-", 13, .left), ("||", 12, .left), ("->", 12, .left),
   ("->>", 12, .left), ("#>>", 12, .left), ("<", 10, .none), ("<=", 10, .none), (">", 10, .none),
   (">=", 10, .none), ("=", 10, .none), ("<>", 10, .none), ("IS", 9, .none),
   ("IS NOT DISTINCT FROM", 9, .none), ("IS DISTINCT FROM", 9, .none), ("NOT", 8, .none),
   ("AND", 6, .left), ("OR", 5, .left)]

/-- The reserved words. -/
def reserved : List String :=
  ["all", "and", "any", "array", "as", "case", "cast", "check", "date", "else", "end", "false",
   "from", "in", "interval", "is", "not", "null", "or", "select", "table", "then", "time",
   "timestamp", "true", "user", "when", "where"]

/-- A character of a name that keeps its case without quotes. -/
def isPlain (c : Char) : Bool := c.isLower || c.isDigit || c == '_'

/-- A name that can stand without quotes. -/
def isPlainName (name : String) : Bool :=
  name.toList.all isPlain && !name.toList.head?.any Char.isDigit && !reserved.contains name

/-- A text with every `mark` in it written twice. -/
def doubled (mark : Char) (s : String) : String :=
  String.ofList (s.toList.flatMap fun c => if c = mark then [c, c] else [c])

/-- A name, in double quotes where it needs them. -/
def identifier (name : String) : String :=
  if isPlainName name then name else "\x22" ++ doubled '\x22' name ++ "\x22"

/-! ## Constants -/

/-- A string in single quotes. -/
def quote (s : String) : String := "'" ++ doubled '\x27' s ++ "'"

/-- The code of a constant. -/
def literalCode : Literal → String
  | .int v => toString v
  | .float v => DecimalStyle.code.write v
  | .bool true => "TRUE"
  | .bool false => "FALSE"
  | .string s => quote s
  | .date s => "DATE " ++ quote s
  | .dateTime s => "TIMESTAMPTZ " ++ quote (Temporal.inUtc s)
  | .duration s => "INTERVAL " ++ quote s
  | .null => "NULL"

/-! ## Column types -/

/-- The column types that code names. -/
inductive Column
  | bigint | numeric | doublePrecision | boolean | text | date | timestamp | timestamptz
  | interval | jsonb
deriving DecidableEq, Repr

/-- How a column type is written. -/
def Column.code : Column → String
  | .bigint => "BIGINT"
  | .numeric => "NUMERIC"
  | .doublePrecision => "DOUBLE PRECISION"
  | .boolean => "BOOLEAN"
  | .text => "TEXT"
  | .date => "DATE"
  | .timestamp => "TIMESTAMP"
  | .timestamptz => "TIMESTAMPTZ"
  | .interval => "INTERVAL"
  | .jsonb => "JSONB"

/-- The column type of a static type that has one. -/
def column? : Ty → Option Column
  | .int => some .bigint
  | .float => some .doublePrecision
  | .bool => some .boolean
  | .string => some .text
  | .date => some .date
  | .dateTime => some .timestamptz
  | .duration => some .interval
  | .record _ => some .jsonb
  | _ => none

/-- `CAST(code AS column)` -/
def cast (code : String) (column : Column) : String :=
  "CAST(" ++ code ++ " AS " ++ column.code ++ ")"

/-! ## Values of unknown type -/

/-- A string constant, which has no type that a conversion could go by. -/
def isStringLiteral : Option Literal → Bool
  | some (.string _) => true
  | _ => false

/-- An argument as a `jsonb` value. -/
def jsonb (o : Operand) : Emit String :=
  match o.ir.ty with
  | .any => o.code
  | .record _ => o.code
  | .null => return "CAST(NULL AS JSONB)"
  | _ => do
    let code ← o.code
    if isStringLiteral o.ir.literal? then return "to_jsonb(" ++ cast code .text ++ ")"
    return "to_jsonb(" ++ code ++ ")"

/-- The arguments as `jsonb` values, from left to right. -/
def jsonbs : List Operand → Emit (List String)
  | [] => pure []
  | o :: os => do
    let code ← jsonb o
    let rest ← jsonbs os
    return code :: rest

/-- Code of `jsonb` read as text. -/
def asText (fragment : Fragment) : String :=
  precedence.wrap fragment "#>>" .left ++ " #>> '\x7b\x7d'"

/-- Code of `jsonb` read as a column type: numbers and truth values are cast, all else is read from
its text. -/
def readAs (column : Column) (fragment : Fragment) : String :=
  match column with
  | .bigint | .numeric | .doublePrecision | .boolean => cast fragment.code column
  | .text => "(" ++ asText fragment ++ ")"
  | _ => cast (asText fragment) column

/-- An argument read as a column type; only one of unknown type changes. -/
def coerce (o : Operand) (column : Column) : Emit Fragment := do
  let fragment ← o.fragment
  if o.ir.ty.isAny then return .atom (readAs column fragment)
  return fragment

/-- The codes of arguments read as a column type. -/
def coerceAll (column : Column) : List Operand → Emit (List String)
  | [] => pure []
  | o :: os => do
    let fragment ← coerce o column
    let rest ← coerceAll column os
    return fragment.code :: rest

/-- The helper of a call over `jsonb` arguments. -/
def untyped (site : Site) : Emit Fragment := do
  let name := Helper.snake site.name
  Emit.require name
  let args ← jsonbs site.operands
  return .atom (name ++ "(" ++ commaSeparated args ++ ")")

/-- A call of the failure helper, with the type of the value it stands for, so that branches
agree. -/
def failure (ty : Ty) (message : String) : Emit String := do
  let name := Helper.snake "fail"
  Emit.require name
  match column? ty with
  | some column => return name ++ "(" ++ cast "NULL" column ++ ", " ++ message ++ ")"
  | none => return name ++ "(" ++ message ++ ")"

/-- A branch of a conditional or alternative of a type; branches of unknown type are `jsonb`. -/
def branch (ty : Ty) (o : Operand) : Emit String := if ty.isAny then jsonb o else o.code

/-- The branches of an alternative of a type. -/
def branches (ty : Ty) : List Operand → Emit (List String)
  | [] => pure []
  | o :: os => do
    let code ← branch ty o
    let rest ← branches ty os
    return code :: rest

/-! ## Integers -/

mutual

/-- The database gives the code of this node its narrow integer type: small constants, lengths,
and signs in front of them. -/
def isNarrow : Ir → Bool
  | .literal (.int v) _ => -2147483648 ≤ v && v < 2147483648
  | .call name args _ _ =>
    if name = "neg" ∨ name = "pos" then allNarrow args else name == "length"
  | _ => false

/-- All of the nodes have the narrow integer type. -/
def allNarrow : List Ir → Bool
  | [] => true
  | ir :: irs => isNarrow ir && allNarrow irs

end

/-! ## Calls -/

/-- A way to write a call in SQL. -/
inductive CallForm
  | shared (form : Form)
  /-- The helper of the call over `jsonb` values. -/
  | untyped
  /-- An operator on operands of known type, else the helper: `jsonb` has no arithmetic. -/
  | operator (op : String)
  /-- An operator on integers in the wide integer type. -/
  | wide (op : String)
  /-- A minus sign. -/
  | negation
  /-- `AND` or `OR` -/
  | connective (op : String)
  | complement
  /-- A test of the argument at a place; one of unknown type may be the null of `jsonb`. -/
  | nullTest (place : Nat) (test : String)
  /-- A date shifted by a duration, the date standing first or second. A literal of whole days is
  a count; any other shift gives a timestamp. -/
  | dateShift (dateFirst : Bool) (op : String)
  /-- The helper of an asserting selector. -/
  | asserted
  /-- A function of arguments read as a column type. -/
  | coerced (function : String) (column : Column)
  /-- A numeric function with an integer result. -/
  | integerOf (function : String)
  /-- A part of a point in time, in UTC. -/
  | extract (part : String)
  | endsWith
  | containsText
  | containsItem
  | joined
  | lastItem
  | field
  | fail
deriving DecidableEq, Repr

/-- The code of a member read, whose type is the result type of the call. -/
def fieldCode (result : Ty) (object key : String) : String :=
  match column? result with
  | none | some .jsonb => "(" ++ object ++ " -> " ++ key ++ ")"
  | some .text => "(" ++ object ++ " ->> " ++ key ++ ")"
  | some column => cast (object ++ " ->> " ++ key) column

/-- The code of a call. -/
def CallForm.emit : CallForm → Site → Emit Fragment
  | .shared form, site => form.emit precedence site
  | .untyped, site => Sql.untyped site
  | .operator op, site =>
    if site.argTypes.any Ty.isAny then Sql.untyped site
    else (Form.infixOp op).emit precedence site
  | .wide op, site => do
    let a := site.operand 0
    let b := site.operand 1
    let lhs ←
      if isNarrow a.ir && isNarrow b.ir then do pure (cast (← a.code) .bigint)
      else a.wrapped precedence op .left
    let rhs ← b.wrapped precedence op .right
    return .operation (lhs ++ " " ++ op ++ " " ++ rhs) op
  | .negation, site =>
    if (site.argType 0).isAny then Sql.untyped site
    else (Form.prefixOp "u-" "-").emit precedence site
  | .connective op, site => do
    let lhs ← coerce (site.operand 0) .boolean
    let rhs ← coerce (site.operand 1) .boolean
    return .operation
      (precedence.wrap lhs op .left ++ " " ++ op ++ " " ++ precedence.wrap rhs op .right) op
  | .complement, site => do
    let operand ← coerce (site.operand 0) .boolean
    return .operation ("NOT " ++ precedence.wrap operand "NOT" .right) "NOT"
  | .nullTest place test, site =>
    if (site.argType place).isAny then Sql.untyped site
    else do
      let value ← (site.operand place).wrapped precedence "IS" .left
      return .operation (value ++ " " ++ test) "IS"
  | .dateShift dateFirst op, site => do
    let date := site.operand (if dateFirst then 0 else 1)
    let duration := site.operand (if dateFirst then 1 else 0)
    let lhs ← date.wrapped precedence op .left
    match duration.ir.literal?.bind Temporal.literalDays? with
    | some days => return .operation (lhs ++ " " ++ op ++ " " ++ toString days) op
    | none =>
      let rhs ← duration.wrapped precedence op .right
      return .atom (cast (lhs ++ " " ++ op ++ " " ++ rhs) .date)
  | .asserted, site => do
    let name := Helper.snake site.name
    Emit.require name
    let value ← jsonb (site.operand 0)
    let message ← coerce (site.operand 1) .text
    return .atom (name ++ "(" ++ value ++ ", " ++ message.code ++ ")")
  | .coerced function column, site => do
    let args ← coerceAll column site.operands
    return .atom (function ++ "(" ++ commaSeparated args ++ ")")
  | .integerOf function, site => do
    let value ← coerce (site.operand 0) .numeric
    return .atom (cast (function ++ "(" ++ value.code ++ ")") .bigint)
  | .extract part, site => do
    let value ← coerce (site.operand 0) .timestamp
    let source :=
      match site.argType 0 with
      | .dateTime => precedence.wrap value "AT" .left ++ " AT TIME ZONE 'UTC'"
      | _ => value.code
    return .atom (cast ("EXTRACT(" ++ part ++ " FROM " ++ source ++ ")") .bigint)
  | .endsWith, site => do
    let text ← coerce (site.operand 0) .text
    let ending ← coerce (site.operand 1) .text
    return .operation
      ("RIGHT(" ++ text.code ++ ", LENGTH(" ++ ending.code ++ ")) = " ++ ending.code) "="
  | .containsText, site => do
    let text ← (site.operand 0).code
    let part ← coerce (site.operand 1) .text
    return .operation ("POSITION(" ++ part.code ++ " IN " ++ text ++ ") > 0") ">"
  | .containsItem, site => do
    let item ← (site.operand 1).wrapped precedence "=" .left
    let items ← (site.operand 0).code
    return .operation (item ++ " = ANY(" ++ items ++ ")") "="
  | .joined, site => do
    let items ← (site.operand 0).code
    let separator ← coerce (site.operand 1) .text
    return .atom ("array_to_string(" ++ items ++ ", " ++ separator.code ++ ")")
  | .lastItem, site => do
    let items ← (site.operand 0).code
    return .atom ("(" ++ items ++ ")[cardinality(" ++ items ++ ")]")
  | .field, site => do
    let object ← (site.operand 0).wrapped precedence "->" .left
    let key ← (site.operand 1).code
    return .atom (fieldCode site.result object key)
  | .fail, site => do
    let message ← coerce (site.operand 0) .text
    return .atom (← failure site.result message.code)

/-- An entry in a form that all targets share. -/
def entry (name : String) (signature : List Tag) (form : Form) :
    String × List Tag × CallForm :=
  (name, signature, .shared form)

/-- A cast of the first argument. -/
def castForm (column : Column) : Form :=
  .enclosed "CAST(" .identity (" AS " ++ column.code ++ ")") none

/-- Operators. Equality that is true of two nulls, and `^` gives floats even on integers. -/
def operators : List (String × List Tag × CallForm) :=
  ([("add", "+"), ("sub", "-"), ("mul", "*"), ("div", "/"), ("mod", "%"), ("pow", "^"),
    ("lt", "<"), ("lte", "<="), ("gt", ">"), ("gte", ">="), ("eq", "IS NOT DISTINCT FROM"),
    ("neq", "IS DISTINCT FROM")].map
    fun (name, op) => (name, [.any, .any], .operator op)) ++
  ([("add", "+"), ("sub", "-"), ("mul", "*")].map
    fun (name, op) => (name, [.int, .int], .wide op)) ++
  [entry "add" [.string, .string] (.infixOp "||"), entry "add" [.array, .array] (.infixOp "||"),
   entry "pow" [.int, .int] (.enclosed "CAST(" (.infixOp "^") " AS BIGINT)" none),
   ("neg", [.any], .negation), entry "pos" [.any] .identity,
   ("and", [.any, .any], .connective "AND"), ("or", [.any, .any], .connective "OR"),
   ("not", [.any], .complement),
   ("eq", [.any, .null], .nullTest 0 "IS NULL"), ("eq", [.null, .any], .nullTest 1 "IS NULL"),
   ("neq", [.any, .null], .nullTest 0 "IS NOT NULL"),
   ("neq", [.null, .any], .nullTest 1 "IS NOT NULL")]

/-- Arithmetic on dates, which stay dates. -/
def temporals : List (String × List Tag × CallForm) :=
  [("add", [.date, .duration], .dateShift true "+"),
   ("add", [.duration, .date], .dateShift false "+"),
   ("sub", [.date, .duration], .dateShift true "-"),
   entry "sub" [.date, .date] (.enclosed "make_interval(days => " (.infixOp "-") ")" none)]

/-- The selectors of one type: nothing is to be done for a value of the type itself. -/
def selectorsOf (s : Selectable) : List (String × List Tag × CallForm) :=
  let as := "as_" ++ s.stem
  let orNull := "as_" ++ s.stem ++ "_or_null"
  let is := "is_" ++ s.stem
  let assert := "assert_" ++ s.stem
  [entry as [s.tag] .identity, entry orNull [s.tag] .identity,
   entry is [s.tag] (.constant "TRUE" none), entry assert [s.tag, .any] .identity,
   (as, [.any], .untyped), (orNull, [.any], .untyped), (is, [.any], .untyped),
   (assert, [.any, .any], .asserted)]

/-- Selectors of values whose type is known and for which there is a cast. -/
def conversions : List (String × List Tag × CallForm) :=
  [entry "as_int" [.string] (castForm .bigint),
   entry "as_float" [.string] (castForm .doublePrecision),
   entry "as_float" [.int] (castForm .doublePrecision),
   entry "as_float_or_null" [.int] (castForm .doublePrecision),
   entry "as_bool" [.string] (castForm .boolean), entry "as_date" [.string] (castForm .date),
   entry "as_datetime" [.string] (castForm .timestamptz),
   entry "as_duration" [.string] (castForm .interval),
   entry "as_string" [.int] (castForm .text), entry "as_string" [.float] (castForm .text),
   entry "as_string" [.bool] (castForm .text), entry "as_string" [.date] (castForm .text),
   entry "as_string" [.dateTime] (castForm .text),
   entry "is_float" [.int] (.constant "TRUE" none)]

/-- The first and the last day of the current period of a unit, and how long the unit is. -/
def calendarPeriod (unit length : String) : List (String × List Tag × CallForm) :=
  let first := "date_trunc('" ++ unit ++ "', CURRENT_DATE)"
  [entry ("start_of_" ++ unit) [] (.constant (cast first .date) none),
   entry ("end_of_" ++ unit) []
     (.constant (cast (first ++ " + INTERVAL '" ++ length ++ "' - INTERVAL '1 day'") .date) none)]

/-- The period constants. -/
def periodEntries : List (String × List Tag × CallForm) :=
  [entry "today" [] (.constant "CURRENT_DATE" none),
   entry "now" [] (.constant "CURRENT_TIMESTAMP" none),
   entry "tomorrow" [] (.constant "CURRENT_DATE + 1" (some "+")),
   entry "yesterday" [] (.constant "CURRENT_DATE - 1" (some "-")),
   entry "start_of_day" [] (.constant "date_trunc('day', CURRENT_TIMESTAMP)" none),
   entry "end_of_day" []
     (.constant
       "date_trunc('day', CURRENT_TIMESTAMP) + INTERVAL '1 day' - INTERVAL '1 microsecond'"
       (some "-"))] ++
  calendarPeriod "week" "1 week" ++ calendarPeriod "month" "1 month" ++
  calendarPeriod "quarter" "3 months" ++ calendarPeriod "year" "1 year"

/-- Library calls. -/
def library : List (String × List Tag × CallForm) :=
  [("trim", [.any], .coerced "TRIM" .text), ("upper", [.any], .coerced "UPPER" .text),
   ("lower", [.any], .coerced "LOWER" .text),
   ("starts_with", [.any, .any], .coerced "starts_with" .text),
   entry "abs" [.int] (.function "ABS"), entry "abs" [.float] (.function "ABS"),
   ("abs", [.any], .untyped), ("length", [.any], .untyped), ("first", [.any], .untyped),
   ("last", [.any], .untyped), ("join", [.any, .any], .untyped),
   ("contains", [.any, .any], .untyped),
   entry "length" [.string] (.function "LENGTH"),
   entry "length" [.array] (.function "cardinality"),
   ("round", [.any], .integerOf "ROUND"), ("floor", [.any], .integerOf "FLOOR"),
   ("ceil", [.any], .integerOf "CEIL"),
   ("year", [.any], .extract "YEAR"), ("month", [.any], .extract "MONTH"),
   ("day", [.any], .extract "DAY"),
   ("ends_with", [.any, .any], .endsWith), ("contains", [.string, .any], .containsText),
   ("contains", [.array, .any], .containsItem), ("join", [.array, .any], .joined),
   entry "first" [.array] (.enclosed "(" .identity ")[1]" none),
   ("last", [.array], .lastItem), ("field", [.any, .any], .field), ("fail", [.any], .fail)]

/-- How calls are written. -/
def registry : Registry CallForm :=
  ((Registry.empty.defineAll
      (operators ++ temporals ++ selectables.flatMap selectorsOf ++ conversions ++
        periodEntries ++ library)).defineVariadic
    "array" 0 (.shared (.sequence "ARRAY[" "]"))).defineVariadic
    "record" 0 (.shared (.function "jsonb_build_object"))

/-! ## The target -/

/-- The name of the target. -/
def name : String := "sql"

/-- The code that stands for a bound name: wide where it is an integer, and in parentheses where it
has an operator. -/
def substituted (value : Ir) (fragment : Fragment) : Fragment :=
  if isNarrow value then .atom (cast fragment.code .bigint)
  else if fragment.op.isSome then .atom ("(" ++ fragment.code ++ ")")
  else fragment

/-- A body in which the bound names stand for the codes of their values. -/
def bindIn : List (String × Operand) → Operand → Emit Fragment
  | [], body => body.fragment
  | (name, value) :: rest, body => do
    let fragment ← value.fragment
    Emit.binding name (substituted value.ir fragment) (bindIn rest body)

/-- The SQL target. -/
def target : Target where
  name := name
  precedence := precedence
  literal value := return .atom (literalCode value)
  variableCode name := .atom (identifier name)
  letIn := bindIn
  lambda _ _ := Emit.fail (.unsupported name .lambda)
  conditional test yes no ty := do
    let test ← coerce test .boolean
    let yes ← branch ty yes
    let no ← branch ty no
    return .atom ("CASE WHEN " ++ test.code ++ " THEN " ++ yes ++ " ELSE " ++ no ++ " END")
  alternative candidates ty := do
    if candidates.dropLast.any fun o => o.ir.mayRaise then
      Emit.fail (.unsupported name .raisingCandidate)
    else
      let parts ← branches ty candidates
      let last ← failure ty (quote "no alternative matched")
      return .atom ("COALESCE(" ++ commaSeparated (parts ++ [last]) ++ ")")
  call := registry.call CallForm.emit
  executable code := "SELECT " ++ code ++ " AS result"

/-- The helpers that SQL code may call. -/
def catalogue : List String :=
  Helper.sorted
    ((Helper.selectorFunctions ++
      ["fail", "add", "sub", "mul", "div", "mod", "pow", "eq", "neq", "lt", "lte", "gt", "gte",
       "neg", "abs", "length", "first", "last", "join", "contains"]).map Helper.snake)

end Retarget.Sql
