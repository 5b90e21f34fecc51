import Retarget.Decimal.Shortest
import Retarget.Target
import Retarget.Temporal

set_option autoImplicit false

/-!
# Ruby

Ruby overloads its operators for every type of the language once its date and duration classes are
loaded, so most calls are operators whatever the types. Entries for known types stand where Ruby
means something else (integer division, shifting a date by whole days) or can parse by itself.

## Main definitions

* `Retarget.Ruby.registry` — how calls are written.
* `Retarget.Ruby.target` — the target.
-/

namespace Retarget.Ruby

/-! ## Precedence and names -/

/-- Binding strengths of the operators. -/
def precedence : PrecedenceTable :=
  [(".", 20, .left), ("!", 16, .none), ("**", 15, .right), ("u-", 14, .none), ("u+", 14, .none),
   ("*", 12, .left), ("/", 12, .left), ("%", 12, .left), ("+", 11, .left), ("-", 11, .left),
   ("<", 9, .none), ("<=", 9, .none), (">", 9, .none), (">=", 9, .none), ("==", 8, .none),
   ("!=", 8, .none), ("&&", 6, .left), ("||", 5, .left), ("?:", 3, .right)]

/-- The reserved words. -/
def reserved : List String :=
  ["alias", "and", "begin", "break", "case", "class", "def", "defined?", "do", "else", "elsif",
   "end", "ensure", "false", "for", "if", "in", "module", "next", "nil", "not", "or", "redo",
   "rescue", "retry", "return", "self", "super", "then", "true", "undef", "unless", "until",
   "when", "while", "yield", "__FILE__", "__LINE__", "__method__"]

/-- A name as a local variable: reserved words and what would be a constant are respelled. -/
def localName (name : String) : String :=
  if name ∈ reserved then name ++ "_"
  else if name.toList.head?.any Char.isUpper then "_" ++ name
  else name

/-! ## Constants -/

/-- A character inside a single-quoted string: the quote and the backslash are escaped. -/
def escaped (c : Char) : List Char :=
  if c = '\x5c' ∨ c = '\x27' then ['\x5c', c] else [c]

/-- A string in single quotes. -/
def quote (s : String) : String :=
  "'" ++ String.ofList (s.toList.flatMap escaped) ++ "'"

/-- The code of a constant. -/
def literalCode : Literal → String
  | .int v => toString v
  | .float v => DecimalStyle.code.write v
  | .bool true => "true"
  | .bool false => "false"
  | .string s => quote s
  | .date s => "Date.iso8601(" ++ quote s ++ ")"
  | .dateTime s => "DateTime.iso8601(" ++ quote s ++ ")"
  | .duration s => "ActiveSupport::Duration.parse(" ++ quote s ++ ")"
  | .null => "nil"

/-! ## Calls -/

/-- A way to write a call in Ruby. -/
inductive CallForm
  | shared (form : Form)
  /-- A method that takes its last argument as a block: `xs.map(&f)`. -/
  | block (text : String)
  /-- A date shifted by a duration; a literal of whole days is a plain count. -/
  | dayShift (op : String)
  /-- `receiver[key]` -/
  | index
deriving DecidableEq, Repr

/-- The last of a row of arguments marked as a block. -/
def withBlock : List String → List String
  | [] => []
  | [last] => ["&" ++ last]
  | a :: b :: rest => a :: withBlock (b :: rest)

/-- The code of a call. -/
def CallForm.emit : CallForm → Site → Emit Fragment
  | .shared form, site => form.emit precedence site
  | .block text, site => do
    let receiver ← site.receiver precedence
    let rest ← codes (site.operands.drop 1)
    return .atom (receiver ++ text ++ "(" ++ commaSeparated (withBlock rest) ++ ")")
  | .dayShift op, site => do
    let lhs ← (site.operand 0).wrapped precedence op .left
    let rhs ←
      match (site.operand 1).ir.literal?.bind Temporal.literalDays? with
      | some days => pure (toString days)
      | none => (site.operand 1).wrapped precedence op .right
    return .operation (lhs ++ " " ++ op ++ " " ++ rhs) op
  | .index, site => do
    let receiver ← site.receiver precedence
    let key ← (site.operand 1).code
    return .atom (receiver ++ "[" ++ key ++ "]")

/-- An entry in a form that all targets share. -/
def entry (name : String) (signature : List Tag) (form : Form) :
    String × List Tag × CallForm :=
  (name, signature, .shared form)

/-- A helper by the name of its call. -/
def helper (function : String) : Form := .helper (Helper.snake function)

/-- Operators on any operands. -/
def operators : List (String × List Tag × CallForm) :=
  ([("add", "+"), ("sub", "-"), ("mul", "*"), ("pow", "**"), ("eq", "=="), ("neq", "!="),
    ("lt", "<"), ("lte", "<="), ("gt", ">"), ("gte", ">="), ("and", "&&"), ("or", "||")].map
    fun (name, op) => entry name [.any, .any] (.infixOp op)) ++
  [entry "neg" [.any] (.prefixOp "u-" "-"), entry "pos" [.any] (.prefixOp "u+" "+"),
   entry "not" [.any] (.prefixOp "!" "!")]

/-- Division and remainder truncate towards zero, while Ruby's own operators round down. Operands
of unknown type may be integers. -/
def divisions : List (String × List Tag × CallForm) :=
  [entry "div" [.any, .any] (helper "div"), entry "mod" [.any, .any] (helper "mod"),
   entry "div" [.int, .int] (.enclosed "" (.method ".quo") ".truncate" none),
   entry "mod" [.int, .int] (.method ".remainder"),
   entry "div" [.float, .any] (.infixOp "/"), entry "mod" [.float, .any] (.method ".remainder"),
   entry "div" [.any, .float] (.infixOp "/"), entry "mod" [.any, .float] (.method ".remainder"),
   entry "div" [.duration, .any] (.infixOp "/")]

/-- Arithmetic on points in time; a duration cannot be the receiver of a sum with a date. -/
def temporals : List (String × List Tag × CallForm) :=
  [("add", [.date, .duration], .dayShift "+"), ("sub", [.date, .duration], .dayShift "-"),
   entry "add" [.duration, .date] (.exchanged (.infixOp "+")),
   entry "add" [.duration, .dateTime] (.exchanged (.infixOp "+")),
   entry "sub" [.date, .date] (helper "date_diff"),
   entry "sub" [.dateTime, .dateTime] (helper "date_diff")]

/-- The selectors of one type: nothing is to be done for a value of the type itself. -/
def selectorsOf (s : Selectable) : List (String × List Tag × CallForm) :=
  let as := "as_" ++ s.stem
  let orNull := "as_" ++ s.stem ++ "_or_null"
  let is := "is_" ++ s.stem
  let assert := "assert_" ++ s.stem
  [entry as [s.tag] .identity, entry orNull [s.tag] .identity,
   entry is [s.tag] (.constant "true" none), entry assert [s.tag, .any] .identity,
   entry as [.any] (helper as), entry orNull [.any] (helper orNull),
   entry is [.any] (helper is), entry assert [.any, .any] (helper assert)]

/-- Selectors of values whose type is known and for which Ruby has a conversion. -/
def conversions : List (String × List Tag × CallForm) :=
  [entry "as_int" [.string] (.enclosed "Integer(" .identity ", 10)" none),
   entry "as_int_or_null" [.string]
     (.enclosed "Integer(" .identity ", 10, exception: false)" none),
   entry "as_float" [.string] (.function "Float"),
   entry "as_float_or_null" [.string] (.enclosed "Float(" .identity ", exception: false)" none),
   entry "as_float" [.int] (.suffix ".to_f" none),
   entry "as_float_or_null" [.int] (.suffix ".to_f" none),
   entry "is_float" [.int] (.constant "true" none),
   entry "as_date" [.string] (.function "Date.iso8601"),
   entry "as_datetime" [.string] (.function "DateTime.iso8601"),
   entry "as_duration" [.string] (.function "ActiveSupport::Duration.parse"),
   entry "as_string" [.int] (.suffix ".to_s" none),
   entry "as_string" [.float] (.suffix ".to_s" none)]

/-- The period constants. -/
def periodEntries : List (String × List Tag × CallForm) :=
  ([("today", "Date.today"), ("now", "DateTime.now"),
    ("start_of_day", "DateTime.now.beginning_of_day"), ("end_of_day", "DateTime.now.end_of_day"),
    ("start_of_week", "Date.today.beginning_of_week"), ("end_of_week", "Date.today.end_of_week"),
    ("start_of_month", "Date.today.beginning_of_month"),
    ("end_of_month", "Date.today.end_of_month"),
    ("start_of_quarter", "Date.today.beginning_of_quarter"),
    ("end_of_quarter", "Date.today.end_of_quarter"),
    ("start_of_year", "Date.today.beginning_of_year"),
    ("end_of_year", "Date.today.end_of_year")].map
    fun (name, code) => entry name [] (.constant code none)) ++
  [entry "tomorrow" [] (.constant "Date.today + 1" (some "+")),
   entry "yesterday" [] (.constant "Date.today - 1" (some "-"))]

/-- Library calls. -/
def library : List (String × List Tag × CallForm) :=
  ([("trim", ".strip"), ("upper", ".upcase"), ("lower", ".downcase"), ("length", ".length"),
    ("abs", ".abs"), ("round", ".round"), ("floor", ".floor"), ("ceil", ".ceil"),
    ("year", ".year"), ("month", ".month"), ("day", ".day"), ("first", ".first"),
    ("last", ".last")].map
    fun (name, text) => entry name [.any] (.suffix text none)) ++
  ([("starts_with", ".start_with?"), ("ends_with", ".end_with?"), ("contains", ".include?"),
    ("join", ".join")].map
    fun (name, text) => entry name [.any, .any] (.method text)) ++
  ([("map", ".map"), ("filter", ".select"), ("any", ".any?"), ("all", ".all?")].map
    fun (name, text) => (name, [.any, .any], .block text)) ++
  [("reduce", [.any, .any, .any], .block ".reduce"),
   ("field", [.any, .any], .index), entry "fail" [.any] (.function "raise")]

/-- How calls are written. -/
def registry : Registry CallForm :=
  ((((Registry.empty.defineAll
      (operators ++ divisions ++ temporals ++ selectables.flatMap selectorsOf ++ conversions ++
        periodEntries ++ library)).defineVariadic
    "array" 0 (.shared (.sequence "[" "]"))).defineVariadic
    "record" 0 (.shared (.record " => "))).defineVariadic
    "invoke" 1 (.shared (.method ".call")))

/-! ## The target -/

/-- A function of one parameter. -/
def arrow (params body : String) : String := "->(" ++ params ++ ") \x7b " ++ body ++ " \x7d"

/-- A function without parameters. -/
def thunk (body : String) : String := "-> \x7b " ++ body ++ " \x7d"

/-- Bindings around a code, which are functions called at once. The innermost is written first. -/
def bindAround : List (String × Operand) → Emit String → Emit String
  | [], body => body
  | (name, value) :: rest, body => do
    let code ← bindAround rest body
    let value ← value.code
    return arrow (localName name) code ++ ".call(" ++ value ++ ")"

/-- The Ruby target. -/
def target : Target where
  name := "ruby"
  precedence := precedence
  literal value := return .atom (literalCode value)
  variableCode name := .atom (localName name)
  letIn bindings body := do return .atom (← bindAround bindings body.code)
  lambda params body := do
    let body ← body.code
    if params.isEmpty then return .atom (thunk body)
    return .atom (arrow (commaSeparated (params.map localName)) body)
  conditional test yes no _ := do
    let test ← test.wrapped precedence "?:" .left
    let yes ← yes.wrapped precedence "?:" .right
    let no ← no.wrapped precedence "?:" .right
    return .operation (test ++ " ? " ++ yes ++ " : " ++ no) "?:"
  alternative candidates _ := do
    let name := Helper.snake "alt"
    Emit.require name
    let parts ← codes candidates
    return .atom (name ++ "(" ++ commaSeparated (parts.map thunk) ++ ")")
  call := registry.call CallForm.emit
  executable code := arrow "_" code

/-- The helpers that Ruby code may call. -/
def catalogue : List String :=
  Helper.sorted
    ((Helper.selectorFunctions ++ ["alt", "date_diff", "div", "mod"]).map Helper.snake)

end Retarget.Ruby
