set_option autoImplicit false

/-!
# Static types

The types that lowering gives to every node. A record type lists its fields in the order in which
they were written, but two record types with the same fields are the same type.

## Main definitions

* `Retarget.Ty`, and `Retarget.Tag`, its outermost shape.
* `Retarget.Ty.same` — sameness of types, whatever the order of record fields.
* `Retarget.Ty.join` — the least common type of two branches.
* `Retarget.selectable?` — the types that selectors name.
-/

namespace Retarget

/-- The outermost shape of a type. -/
inductive Tag
  | int | float | bool | string | date | dateTime | duration | array | record | function | null
  | any
deriving DecidableEq, Repr

/-- How a tag is written. -/
def Tag.text : Tag → String
  | .int => "Int"
  | .float => "Float"
  | .bool => "Bool"
  | .string => "String"
  | .date => "Date"
  | .dateTime => "DateTime"
  | .duration => "Duration"
  | .array => "Array"
  | .record => "Record"
  | .function => "Function"
  | .null => "Null"
  | .any => "Any"

/-- A static type. -/
inductive Ty
  | int
  | float
  | bool
  | string
  | date
  | dateTime
  | duration
  /-- An array; its items have no common type where none is given. -/
  | array (item : Option Ty)
  /-- A record with its fields in the order in which they were written. -/
  | record (fields : List (String × Ty))
  | function
  | null
  /-- The type above all others. -/
  | any
deriving Repr, Inhabited

namespace Ty

/-- The outermost shape of a type. -/
def tag : Ty → Tag
  | .int => .int
  | .float => .float
  | .bool => .bool
  | .string => .string
  | .date => .date
  | .dateTime => .dateTime
  | .duration => .duration
  | .array _ => .array
  | .record _ => .record
  | .function => .function
  | .null => .null
  | .any => .any

/-- The type above all others. -/
def isAny : Ty → Bool
  | .any => true
  | _ => false

/-- The types with arithmetic of their own. -/
def isNumeric : Ty → Bool
  | .int | .float => true
  | _ => false

/-- The types of points in time. -/
def isTemporal : Ty → Bool
  | .date | .dateTime => true
  | _ => false

/-- The type of the items of an array, `any` where it is not known. -/
def element : Ty → Ty
  | .array (some item) => item
  | _ => .any

mutual

/-- Two types are the same: equal but for the order of record fields, at any depth. -/
def same : Ty → Ty → Bool
  | .array none, .array none => true
  | .array (some a), .array (some b) => a.same b
  | .record fs, .record gs => fs.length == gs.length && sameFields fs gs
  | .array _, _ => false
  | .record _, _ => false
  | a, b => a.tag == b.tag

/-- Each of the fields stands in the other record with the same type. -/
def sameFields : List (String × Ty) → List (String × Ty) → Bool
  | [], _ => true
  | (name, a) :: fs, gs =>
    (match gs.lookup name with
     | some b => a.same b
     | none => false) && sameFields fs gs

end

/-- The least common type of two branches. The same types stay, null joins with any type into that
type, since absence is always allowed, and arrays stay arrays. -/
def join (a b : Ty) : Ty :=
  if a.same b then a
  else
    match a, b with
    | .null, t => t
    | t, .null => t
    | .array _, .array _ => .array none
    | _, _ => .any

/-- The join of a row of types from left to right, `any` for none. -/
def joinAll : List Ty → Ty
  | [] => .any
  | t :: ts => ts.foldl join t

/-- The fields with one more: a name that is there keeps its place and takes the new type. -/
def putField (fields : List (String × Ty)) (name : String) (ty : Ty) : List (String × Ty) :=
  if fields.any (·.1 == name) then
    fields.map fun (n, t) => if n == name then (n, ty) else (n, t)
  else fields ++ [(name, ty)]

/-- The record type with the given fields, of which a later one of a name replaces an earlier. -/
def recordOf (fields : List (String × Ty)) : Ty :=
  .record (fields.foldl (fun fs (n, t) => putField fs n t) [])

/-- The type of a field read from a value of the type. -/
def field (object : Ty) (name : String) : Ty :=
  match object with
  | .record fields => (fields.lookup name).getD .any
  | _ => .any

mutual

/-- How a type is written. -/
def text : Ty → String
  | .array (some item) => "Array<" ++ item.text ++ ">"
  | .record fields => "\x7b" ++ ", ".intercalate (fieldTexts fields) ++ "\x7d"
  | t => t.tag.text

/-- How the fields of a record type are written. -/
def fieldTexts : List (String × Ty) → List String
  | [] => []
  | (name, t) :: fs => (name ++ ": " ++ t.text) :: fieldTexts fs

end

end Ty

/-! ## Selectors -/

/-- A type that a selector can name: its name in the source, its name inside calls, and itself. -/
structure Selectable where
  name : String
  stem : String
  tag : Tag
  ty : Ty

/-- The types that selectors name. -/
def selectables : List Selectable :=
  [⟨"Int", "int", .int, .int⟩, ⟨"Float", "float", .float, .float⟩, ⟨"Bool", "bool", .bool, .bool⟩,
   ⟨"String", "string", .string, .string⟩, ⟨"Date", "date", .date, .date⟩,
   ⟨"DateTime", "datetime", .dateTime, .dateTime⟩,
   ⟨"Duration", "duration", .duration, .duration⟩]

/-- The type that a selector names. -/
def selectable? (name : String) : Option Selectable := selectables.find? (·.name == name)

end Retarget
