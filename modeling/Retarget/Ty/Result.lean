import Retarget.Ty

set_option autoImplicit false

/-!
# Types of calls

The type of a call follows from its name and the types of its arguments alone. Names that are not
known and operands that do not fit give `any`: what becomes of them is settled when the code runs.

## Main definitions

* `Retarget.resultType` — the type of a call.
-/

namespace Retarget

/-- The type of arithmetic on two numbers. -/
def numericType (a b : Ty) : Ty :=
  match a, b with
  | .int, .int => .int
  | x, y => if x.isNumeric && y.isNumeric then .float else .any

/-- The type of a sum: also strings and arrays are added, and durations to points in time. -/
def sumType (a b : Ty) : Ty :=
  match a, b with
  | .string, .string => .string
  | .array _, .array _ => a.join b
  | .date, .duration | .duration, .date => .date
  | .dateTime, .duration | .duration, .dateTime => .dateTime
  | .duration, .duration => .duration
  | _, _ => numericType a b

/-- The type of a difference. -/
def differenceType (a b : Ty) : Ty :=
  match a, b with
  | .date, .duration => .date
  | .dateTime, .duration => .dateTime
  | .date, .date | .dateTime, .dateTime | .duration, .duration => .duration
  | _, _ => numericType a b

/-- The type of a product. -/
def productType (a b : Ty) : Ty :=
  match a, b with
  | .duration, .int | .duration, .float | .int, .duration | .float, .duration => .duration
  | _, _ => numericType a b

/-- The type of a quotient. -/
def quotientType (a b : Ty) : Ty :=
  match a, b with
  | .duration, .int | .duration, .float => .duration
  | _, _ => numericType a b

/-- The type of a sign in front of a value. -/
def signedType : Ty → Ty
  | .int => .int
  | .float => .float
  | .duration => .duration
  | _ => .any

/-- Calls that give a truth value, whatever their arguments. -/
def truthCalls : List String :=
  ["eq", "neq", "lt", "lte", "gt", "gte", "and", "or", "not", "starts_with", "ends_with",
   "contains", "any", "all"]

/-- Calls that give a string, whatever their arguments. -/
def stringCalls : List String := ["trim", "upper", "lower", "join"]

/-- Calls that give an integer, whatever their arguments. -/
def integerCalls : List String := ["length", "round", "floor", "ceil", "year", "month", "day"]

/-- Calls without arguments that give a date. -/
def dateCalls : List String :=
  ["today", "tomorrow", "yesterday", "start_of_week", "end_of_week", "start_of_month",
   "end_of_month", "start_of_quarter", "end_of_quarter", "start_of_year", "end_of_year"]

/-- Calls without arguments that give a datetime. -/
def dateTimeCalls : List String := ["now", "start_of_day", "end_of_day"]

/-- The type of a call without arguments. -/
def constantType (name : String) : Ty :=
  if name ∈ dateCalls then .date else if name ∈ dateTimeCalls then .dateTime else .any

/-- The type of a call of one argument. -/
def unaryType (name : String) (a : Ty) : Ty :=
  if name = "neg" ∨ name = "pos" then signedType a
  else if name = "abs" then (if a.isNumeric then a else .any)
  else if name = "first" ∨ name = "last" then a.element
  else .any

/-- The type of a call of two arguments. -/
def binaryType (name : String) (a b : Ty) : Ty :=
  if name = "add" then sumType a b
  else if name = "sub" then differenceType a b
  else if name = "mul" then productType a b
  else if name = "div" then quotientType a b
  else if name = "mod" ∨ name = "pow" then numericType a b
  else .any

/-- An array type, and `any` for all other types. -/
def arrayOrAny : Ty → Ty
  | .array item => .array item
  | _ => .any

/-- The type of a call. -/
def resultType (name : String) (args : List Ty) : Ty :=
  if name ∈ truthCalls then .bool
  else if name ∈ stringCalls then .string
  else if name ∈ integerCalls then .int
  else if name = "map" then .array none
  else
    match args with
    | [] => constantType name
    | [a] => if name = "filter" then arrayOrAny a else unaryType name a
    | [a, b] => if name = "filter" then arrayOrAny a else binaryType name a b
    | a :: _ => if name = "filter" then arrayOrAny a else .any

end Retarget
