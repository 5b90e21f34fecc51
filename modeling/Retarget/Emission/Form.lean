import Retarget.Emission

set_option autoImplicit false

/-!
# How calls are written

Most calls are written in one of a few forms that all targets share. A form is data: a target is a
table of forms, and one function writes them.

## Main definitions

* `Retarget.Form` — the shared forms.
* `Retarget.Form.emit` — the code of a call in a form.
-/

namespace Retarget

/-- The operator of member reads and method calls, which is in every precedence table. -/
def memberOp : String := "."

/-- A way to write a call. -/
inductive Form
  /-- Fixed code with its operator; the arguments are dropped. -/
  | constant (code : String) (op : Option String)
  /-- The first argument as it is. -/
  | identity
  /-- `lhs op rhs` -/
  | infixOp (op : String)
  /-- `text operand`, with the key of the operator in the precedence table. -/
  | prefixOp (key text : String)
  /-- All arguments with commas between them, between two pieces of fixed code. -/
  | sequence (opening closing : String)
  /-- A call of a helper, which is noted first. -/
  | helper (name : String)
  /-- `receiver method(rest)` with the first argument as the receiver. -/
  | method (text : String)
  /-- The first argument as a receiver, followed by fixed code. -/
  | suffix (text : String) (op : Option String)
  /-- The code of another form between two pieces of fixed code. -/
  | enclosed (opening : String) (inner : Form) (closing : String) (op : Option String)
  /-- Another form with the first two arguments exchanged. -/
  | exchanged (inner : Form)
  /-- A record from keys and values in turn, with a mark between a key and its value. -/
  | record (mark : String)
deriving DecidableEq, Repr

/-- The call of a function by its name. -/
def Form.function (name : String) : Form := .sequence (name ++ "(") ")"

/-- The first argument as the receiver of a member read. -/
def Site.receiver (site : Site) (table : PrecedenceTable) : Emit String :=
  (site.operand 0).wrapped table memberOp .left

/-- The call with its first two arguments exchanged. -/
def Site.exchanged (site : Site) : Site :=
  match site.operands, site.argTypes with
  | a :: b :: os, s :: t :: ts => { site with operands := b :: a :: os, argTypes := t :: s :: ts }
  | _, _ => site

/-- Keys and values in turn, as pairs; a key without a value is dropped. -/
def keyValueCodes (mark : String) : List Operand → Emit (List String)
  | key :: value :: rest => do
    let key ← key.code
    let value ← value.code
    let pairs ← keyValueCodes mark rest
    return (key ++ mark ++ value) :: pairs
  | _ => pure []

/-- Pairs in braces. -/
def braced (pairs : List String) : String :=
  if pairs.isEmpty then "\x7b\x7d" else "\x7b " ++ commaSeparated pairs ++ " \x7d"

/-- The code of a call in a form. Arguments are written from left to right. -/
def Form.emit (table : PrecedenceTable) : Form → Site → Emit Fragment
  | .constant code op, _ => return ⟨code, op⟩
  | .identity, site => (site.operand 0).fragment
  | .infixOp op, site => do
    let lhs ← (site.operand 0).wrapped table op .left
    let rhs ← (site.operand 1).wrapped table op .right
    return .operation (lhs ++ " " ++ op ++ " " ++ rhs) op
  | .prefixOp key text, site => do
    let operand ← (site.operand 0).wrapped table key .right
    return .operation (text ++ operand) key
  | .sequence opening closing, site => do
    return .atom (opening ++ (← codeList site.operands) ++ closing)
  | .helper name, site => do
    Emit.require name
    return .atom (name ++ "(" ++ (← codeList site.operands) ++ ")")
  | .method text, site => do
    let receiver ← site.receiver table
    let rest ← codeList (site.operands.drop 1)
    return .atom (receiver ++ text ++ "(" ++ rest ++ ")")
  | .suffix text op, site => do
    return ⟨(← site.receiver table) ++ text, op⟩
  | .enclosed opening inner closing op, site => do
    let fragment ← inner.emit table site
    return ⟨opening ++ fragment.code ++ closing, op⟩
  | .exchanged inner, site => inner.emit table site.exchanged
  | .record mark, site => do
    return .atom (braced (← keyValueCodes mark site.operands))

end Retarget
