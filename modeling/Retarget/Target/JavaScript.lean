import Retarget.Decimal.Shortest
import Retarget.Target
import Retarget.Temporal
import Retarget.Text.JsonString

set_option autoImplicit false

/-!
# JavaScript

JavaScript does not overload its operators, so only operands of a known primitive type use them.
Points in time, durations and operands of unknown type go through helpers.

## Main definitions

* `Retarget.JavaScript.registry` — how calls are written.
* `Retarget.JavaScript.target` — the target.
-/

namespace Retarget.JavaScript

/-! ## Precedence and names -/

/-- Binding strengths of the operators. A power may not have a unary operator on its left, so the
two share a strength. -/
def precedence : PrecedenceTable :=
  [(".", 20, .left), ("**", 15, .right), ("u-", 15, .none), ("!", 15, .none), ("*", 12, .left),
   ("/", 12, .left), ("%", 12, .left), ("+", 11, .left), ("-", 11, .left), ("<", 9, .none),
   ("<=", 9, .none), (">", 9, .none), (">=", 9, .none), ("===", 8, .none), ("!==", 8, .none),
   ("==", 8, .none), ("!=", 8, .none), ("&&", 5, .left), ("||", 4, .left), ("?:", 2, .right),
   ("=>", 1, .right)]

/-- The reserved words. -/
def reserved : List String :=
  ["arguments", "await", "break", "case", "catch", "class", "const", "continue", "debugger",
   "default", "delete", "do", "else", "enum", "eval", "export", "extends", "false", "finally",
   "for", "function", "if", "implements", "import", "in", "instanceof", "interface", "let", "new",
   "null", "package", "private", "protected", "public", "return", "static", "super", "switch",
   "this", "throw", "true", "try", "typeof", "undefined", "var", "void", "while", "with", "yield"]

/-- A name as a variable: reserved words are respelled. -/
def localName (name : String) : String := if name ∈ reserved then name ++ "$" else name

/-- A character that a name can start with. -/
def isNameStart (c : Char) : Bool := c.isAlpha || c == '_' || c == '$'

/-- A character that a name can go on with. -/
def isNamePart (c : Char) : Bool := c.isAlphanum || c == '_' || c == '$'

/-- A text that can be read as a member by its bare name. -/
def isName (s : String) : Bool :=
  match s.toList with
  | [] => false
  | c :: cs => isNameStart c && cs.all isNamePart

/-! ## Constants -/

/-- The code of a constant. A date without a time is in UTC already, a datetime without an offset
would be local. -/
def literalCode : Literal → String
  | .int v => toString v
  | .float v => DecimalStyle.code.write v
  | .bool true => "true"
  | .bool false => "false"
  | .string s => JsonString.quote s
  | .date s => "new Date(" ++ JsonString.quote s ++ ")"
  | .dateTime s => "new Date(" ++ JsonString.quote (Temporal.inUtc s) ++ ")"
  | .duration s => Helper.camel "duration" ++ "(" ++ JsonString.quote s ++ ")"
  | .null => "null"

/-- The helpers that the code of a constant calls. -/
def literalHelpers : Literal → List String
  | .duration _ => [Helper.camel "duration"]
  | _ => []

/-! ## Calls -/

/-- A way to write a call in JavaScript. -/
inductive CallForm
  | shared (form : Form)
  /-- A comparison of points in time by their timestamps. -/
  | byTime (op : String)
  /-- A comparison of the argument at a place with null. -/
  | nullTest (place : Nat) (op : String)
  /-- A fold; the function comes before the start value. -/
  | reduce
  /-- A member read, by its bare name where it can be. -/
  | field
deriving DecidableEq, Repr

/-- The code of a call. -/
def CallForm.emit : CallForm → Site → Emit Fragment
  | .shared form, site => form.emit precedence site
  | .byTime op, site => do
    let a ← site.receiver precedence
    let b ← (site.operand 1).wrapped precedence memberOp .left
    return .operation (a ++ ".getTime() " ++ op ++ " " ++ b ++ ".getTime()") op
  | .nullTest place op, site => do
    let value ← (site.operand place).wrapped precedence op .left
    return .operation (value ++ " " ++ op ++ " null") op
  | .reduce, site => do
    let receiver ← site.receiver precedence
    let start ← (site.operand 1).code
    let function ← (site.operand 2).code
    return .atom (receiver ++ ".reduce(" ++ function ++ ", " ++ start ++ ")")
  | .field, site => do
    let receiver ← site.receiver precedence
    match (site.operand 1).ir.string?.filter isName with
    | some key => return .atom (receiver ++ "." ++ key)
    | none => return .atom (receiver ++ "[" ++ (← (site.operand 1).code) ++ "]")

/-- An entry in a form that all targets share. -/
def entry (name : String) (signature : List Tag) (form : Form) :
    String × List Tag × CallForm :=
  (name, signature, .shared form)

/-- A helper by the name of its call. -/
def helper (function : String) : Form := .helper (Helper.camel function)

/-- The tags of numbers. -/
def numeric : List Tag := [.int, .float]

/-- The pairs of tags of numbers. -/
def numericPairs : List (List Tag) := numeric.flatMap fun a => numeric.map fun b => [a, b]

/-- The tags of points in time. -/
def pointsInTime : List Tag := [.date, .dateTime]

/-- Arithmetic on numbers, strings and arrays. -/
def arithmetic : List (String × List Tag × CallForm) :=
  ([("add", "+"), ("sub", "-"), ("mul", "*"), ("div", "/"), ("mod", "%"), ("pow", "**")].flatMap
    fun (name, op) =>
      (numericPairs.map fun pair => entry name pair (.infixOp op)) ++
        [entry name [.any, .any] (helper name)]) ++
  [entry "add" [.string, .string] (.infixOp "+"),
   entry "add" [.array, .array] (.method ".concat"),
   entry "div" [.int, .int] (.enclosed "Math.trunc(" (.infixOp "/") ")" none)]

/-- Arithmetic on points in time and durations. -/
def temporals : List (String × List Tag × CallForm) :=
  (pointsInTime.flatMap fun t =>
    [entry "add" [t, .duration] (helper "add_duration"),
     entry "add" [.duration, t] (.exchanged (helper "add_duration")),
     entry "sub" [t, .duration] (helper "sub_duration"),
     entry "sub" [t, t] (helper "date_diff")]) ++
  [entry "add" [.duration, .duration] (helper "add_duration"),
   entry "sub" [.duration, .duration] (helper "sub_duration")] ++
  (numeric.flatMap fun n =>
    [entry "mul" [.duration, n] (helper "mul_duration"),
     entry "mul" [n, .duration] (.exchanged (helper "mul_duration")),
     entry "div" [.duration, n] (helper "div_duration")])

/-- Signs. -/
def signs : List (String × List Tag × CallForm) :=
  [entry "neg" [.int] (.prefixOp "u-" "-"), entry "neg" [.float] (.prefixOp "u-" "-"),
   entry "neg" [.any] (helper "neg"), entry "pos" [.any] .identity]

/-- The pairs of tags of primitive values that `===` compares. -/
def comparablePairs : List (List Tag) :=
  numericPairs ++ [[.bool, .bool], [.string, .string]]

/-- Comparisons and connectives. A loose comparison with null also catches missing members. -/
def comparisons : List (String × List Tag × CallForm) :=
  (comparablePairs.flatMap fun pair =>
    [entry "eq" pair (.infixOp "==="), entry "neq" pair (.infixOp "!==")]) ++
  (pointsInTime.flatMap fun t =>
    [("eq", [t, t], .byTime "==="), ("neq", [t, t], .byTime "!==")]) ++
  [("eq", [.any, .null], .nullTest 0 "=="), ("eq", [.null, .any], .nullTest 1 "=="),
   ("neq", [.any, .null], .nullTest 0 "!="), ("neq", [.null, .any], .nullTest 1 "!="),
   entry "eq" [.any, .any] (helper "eq"),
   entry "neq" [.any, .any] (.enclosed "!" (helper "eq") "" (some "!"))] ++
  ([("lt", "<"), ("lte", "<="), ("gt", ">"), ("gte", ">="), ("and", "&&"), ("or", "||")].map
    fun (name, op) => entry name [.any, .any] (.infixOp op)) ++
  [entry "not" [.any] (.prefixOp "!" "!")]

/-- The selectors of one type: nothing is to be done for a value of the type itself. -/
def selectorsOf (s : Selectable) : List (String × List Tag × CallForm) :=
  let as := "as_" ++ s.stem
  let orNull := "as_" ++ s.stem ++ "_or_null"
  let is := "is_" ++ s.stem
  let assert := "assert_" ++ s.stem
  [entry as [s.tag] .identity, entry orNull [s.tag] .identity,
   entry is [s.tag] (.constant "true" none), entry assert [s.tag, .any] .identity,
   entry as [.any] (helper as), entry orNull [.any] (helper orNull),
   entry is [.any] (helper is), entry assert [.any, .any] (helper assert)]

/-- Integers are floats already. -/
def conversions : List (String × List Tag × CallForm) :=
  [entry "as_float" [.int] .identity, entry "as_float_or_null" [.int] .identity,
   entry "is_float" [.int] (.constant "true" none)]

/-- The period constants. -/
def periodEntries : List (String × List Tag × CallForm) :=
  periods.map fun (_, function) => entry function [] (helper function)

/-- Library calls. -/
def library : List (String × List Tag × CallForm) :=
  ([("trim", ".trim"), ("upper", ".toUpperCase"), ("lower", ".toLowerCase"),
    ("year", ".getUTCFullYear"), ("day", ".getUTCDate")].map
    fun (name, text) => entry name [.any] (.method text)) ++
  [entry "month" [.any] (.suffix ".getUTCMonth() + 1" (some "+")),
   entry "length" [.any] (.suffix ".length" none), entry "first" [.any] (.suffix "[0]" none),
   entry "last" [.any] (.suffix ".at(-1)" none)] ++
  ([("abs", "Math.abs"), ("round", "Math.round"), ("floor", "Math.floor"),
    ("ceil", "Math.ceil")].map
    fun (name, function) => entry name [.any] (.function function)) ++
  ([("starts_with", ".startsWith"), ("ends_with", ".endsWith"), ("contains", ".includes"),
    ("join", ".join"), ("map", ".map"), ("filter", ".filter"), ("any", ".some"),
    ("all", ".every")].map
    fun (name, text) => entry name [.any, .any] (.method text)) ++
  [("reduce", [.any, .any, .any], .reduce), ("field", [.any, .any], .field),
   entry "fail" [.any]
     (.enclosed "(() => \x7b throw new Error(" .identity "); \x7d)()" none)]

/-- How calls are written. -/
def registry : Registry CallForm :=
  ((((Registry.empty.defineAll
      (arithmetic ++ temporals ++ signs ++ comparisons ++ selectables.flatMap selectorsOf ++
        conversions ++ periodEntries ++ library)).defineVariadic
    "array" 0 (.shared (.sequence "[" "]"))).defineVariadic
    "record" 0 (.shared (.record ": "))).defineVariadic
    "invoke" 1 (.shared (.method "")))

/-! ## The target -/

/-- The body of an arrow function; a brace in front would make it a block. -/
def arrowBody (code : String) : String :=
  if code.toList.head? = some '\x7b' then "(" ++ code ++ ")" else code

/-- An arrow function. -/
def arrow (params body : String) : String := "(" ++ params ++ ") => " ++ arrowBody body

/-- Bindings around a code, which are functions called at once. The innermost is written first. -/
def bindAround : List (String × Operand) → Emit String → Emit String
  | [], body => body
  | (name, value) :: rest, body => do
    let code ← bindAround rest body
    let value ← value.code
    return "(" ++ arrow (localName name) code ++ ")(" ++ value ++ ")"

/-- The JavaScript target. -/
def target : Target where
  name := "javascript"
  precedence := precedence
  literal value := do
    Emit.requireAll (literalHelpers value)
    return .atom (literalCode value)
  variableCode name := .atom (localName name)
  letIn bindings body := do return .atom (← bindAround bindings body.code)
  lambda params body := do
    let body ← body.code
    return .operation (arrow (commaSeparated (params.map localName)) body) "=>"
  conditional test yes no _ := do
    let test ← test.wrapped precedence "?:" .left
    let yes ← yes.wrapped precedence "?:" .right
    let no ← no.wrapped precedence "?:" .right
    return .operation (test ++ " ? " ++ yes ++ " : " ++ no) "?:"
  alternative candidates _ := do
    let name := Helper.camel "alt"
    Emit.require name
    let parts ← codes candidates
    return .atom (name ++ "(" ++ commaSeparated (parts.map (arrow "")) ++ ")")
  call := registry.call CallForm.emit
  executable code := "(function(_) \x7b return " ++ code ++ "; \x7d)"

/-- The helpers that JavaScript code may call. -/
def catalogue : List String :=
  Helper.sorted
    ((Helper.selectorFunctions ++ periods.map Prod.snd ++
      ["alt", "add", "sub", "mul", "div", "mod", "pow", "eq", "neg", "duration", "add_duration",
       "sub_duration", "mul_duration", "div_duration", "date_diff"]).map Helper.camel)

end Retarget.JavaScript
