import Retarget.Decimal.Shortest
import Retarget.Ir
import Retarget.Json

set_option autoImplicit false

/-!
# The lowered form as JSON

## Main definitions

* `Retarget.Ir.json` — a lowered expression as a document.
-/

namespace Retarget

mutual

/-- A type as a document. -/
def Ty.json : Ty → Json
  | .array none => .ofMembers [("Array", .null)]
  | .array (some item) => .ofMembers [("Array", item.json)]
  | .record fields => .ofMembers [("Record", .object (fieldsJson fields))]
  | t => .ofText t.tag.text

/-- The fields of a record type as the members of an object. -/
def fieldsJson : List (String × Ty) → List (List Char × Json)
  | [] => []
  | (name, t) :: fields => (JsonString.body name, t.json) :: fieldsJson fields

end

/-- A floating-point number as a document, where only finite numbers have a number of their
own. -/
def Binary64.json (x : Binary64) : Json :=
  if x.isFinite then .number (DecimalStyle.json.write x).toList else .null

/-- A constant as a document. -/
def Literal.json : Literal → Json
  | .int value => .ofMembers [("Int", .ofInt value)]
  | .float value => .ofMembers [("Float", value.json)]
  | .bool value => .ofMembers [("Bool", .bool value)]
  | .string value => .ofMembers [("String", .ofText value)]
  | .date iso => .ofMembers [("Date", .ofText iso)]
  | .dateTime iso => .ofMembers [("DateTime", .ofText iso)]
  | .duration iso => .ofMembers [("Duration", .ofText iso)]
  | .null => .ofText "Null"

/-- A node as a document: its kind, what it is made of, and its type. -/
def nodeJson (kind : String) (parts : Json) (ty : Ty) : Json :=
  .ofMembers [("kind", .ofMembers [(kind, parts)]), ("ty", ty.json)]

mutual

/-- A lowered expression as a document. -/
def Ir.json : Ir → Json
  | .literal value ty => nodeJson "Literal" value.json ty
  | .var name ty => nodeJson "Var" (.ofText name) ty
  | .letIn bindings body ty =>
    nodeJson "Let" (.ofMembers [("bindings", .array (bindingsJson bindings)), ("body", body.json)])
      ty
  | .lambda params body ty =>
    nodeJson "Lambda"
      (.ofMembers [("params", .array (params.map Json.ofText)), ("body", body.json)]) ty
  | .cond test yes no ty =>
    nodeJson "If" (.ofMembers [("cond", test.json), ("then", yes.json), ("else_", no.json)]) ty
  | .alternative candidates ty => nodeJson "Alternative" (.array (nodesJson candidates)) ty
  | .call name args argTypes ty =>
    nodeJson "Call"
      (.ofMembers [("name", .ofText name), ("args", .array (nodesJson args)),
        ("arg_types", .array (argTypes.map Ty.json))]) ty

/-- Lowered expressions as documents. -/
def nodesJson : List Ir → List Json
  | [] => []
  | ir :: irs => ir.json :: nodesJson irs

/-- Bound values as documents, each behind its name. -/
def bindingsJson : List (String × Ir) → List Json
  | [] => []
  | (name, ir) :: bindings => .array [.ofText name, ir.json] :: bindingsJson bindings

end

end Retarget
