import Retarget.Emission.Form
import Mathlib.Tactic.Common

set_option autoImplicit false

/-!
# Reading code by binding strengths

Code is read back into the tree of its operators and operands with nothing to go by but a precedence
table and the spelling of operators, brackets and constants. A tighter operator groups first, equally
tight ones group by their associativity, and what stands in brackets is an operand of its own.

A tree can also be laid out as code. The layout puts parentheses where the table asks for them, with
one exception: there are bracketed pairs whose second operand is written as it is.

## Main definitions

* `Retarget.Tree`, `Retarget.Inside` — operators and operands, and what stands between brackets.
* `Retarget.Tree.plain` — the tree without the parentheses that were written for it.
* `Retarget.Grammar` — the spelling of a language and its precedence table.
* `Retarget.Tree.code` — the code of a tree.
* `Retarget.Grammar.expression` — the tree of a code.
-/

namespace Retarget

/-! ## Trees -/

mutual

/-- A tree of operators and operands. -/
inductive Tree
  /-- A constant or a name. -/
  | leaf (text : String)
  /-- A call, a bracketed operand or a form with keywords, from its opening on. -/
  | closed (opening : String) (inside : Inside)
  | prefixed (key : String) (operand : Tree)
  | infixed (op : String) (lhs rhs : Tree)
  /-- An operator behind its operand, with the key of the operator in the precedence table. -/
  | suffixed (key text : String) (operand : Tree)
  | conditional (test yes no : Tree)
  /-- A member read. -/
  | member (object : Tree) (text : String)
  /-- A method call or an indexed read. -/
  | applied (object : Tree) (opening : String) (inside : Inside)
deriving DecidableEq, Repr

/-- What stands between an opening and its closing. -/
inductive Inside
  | last (tree : Tree) (closing : String)
  | more (tree : Tree) (separator : String) (rest : Inside)
  /-- A single operation whose second operand is written as it is. -/
  | bare (op : String) (lhs rhs : Tree) (closing : String)
deriving DecidableEq, Repr

end

instance : Inhabited Tree := ⟨.leaf ""⟩

namespace Tree

/-- The operator at the top level, if there is one. -/
def op : Tree → Option String
  | .prefixed key _ => some key
  | .infixed op _ _ => some op
  | .suffixed key _ _ => some key
  | .conditional _ _ _ => some "?:"
  | _ => none

/-- An opening with what stands inside: parentheses around a single tree are that tree. -/
def close (opening : String) (inside : Inside) : Tree :=
  match inside with
  | .last tree closing => if opening = "(" ∧ closing = ")" then tree else .closed opening inside
  | _ => .closed opening inside

end Tree

mutual

/-- The tree without parentheses around single trees. -/
def Tree.plain : Tree → Tree
  | .leaf text => .leaf text
  | .closed opening inside => .close opening inside.plain
  | .prefixed key x => .prefixed key x.plain
  | .infixed op a b => .infixed op a.plain b.plain
  | .suffixed key text x => .suffixed key text x.plain
  | .conditional test yes no => .conditional test.plain yes.plain no.plain
  | .member object text => .member object.plain text
  | .applied object opening inside => .applied object.plain opening inside.plain

/-- What stands between brackets without parentheses around single trees. -/
def Inside.plain : Inside → Inside
  | .last tree closing => .last tree.plain closing
  | .more tree separator rest => .more tree.plain separator rest.plain
  | .bare op a b closing => .last (.infixed op a.plain b.plain) closing

end

/-! ## Grammars -/

/-- The kinds of brackets. -/
inductive Bracket
  | round | square | choice
deriving DecidableEq, Repr

/-- What an expression can start with. -/
inductive Start
  | leaf (text : String)
  | prefixed (key : String)
  | opening (text : String) (bracket : Bracket)
deriving DecidableEq, Repr

/-- What an operand can go on with. -/
inductive Continuation
  | infixed (op : String)
  | suffixed (key text : String)
  | conditional
  | member (text : String)
  | applied (opening : String) (bracket : Bracket)
deriving DecidableEq, Repr

/-- The key of a continuation in the precedence table. -/
def Continuation.key : Continuation → String
  | .infixed op => op
  | .suffixed key _ => key
  | .conditional => "?:"
  | .member _ | .applied _ _ => memberOp

/-- What can stand behind an expression in brackets. -/
inductive Piece
  | closing (text : String)
  | separator (text : String)
deriving DecidableEq, Repr

/-- The precedence table of a language and the spelling of its operators, brackets and constants. A
spelling is found at the start of a text and gives the text behind it. -/
structure Grammar where
  table : PrecedenceTable
  /-- How an operator in front of its operand is written. -/
  spelling : String → String
  start? : List Char → Option (Start × List Char)
  continuation? : List Char → Option (Continuation × List Char)
  piece? : Bracket → List Char → Option (Piece × List Char)
  /-- The text behind the colon of a conditional. -/
  colon? : List Char → Option (List Char)

namespace Grammar

variable (g : Grammar)

/-- The strength of what has no operator at its top level. -/
def atomStrength : Nat := 21

/-- The strength of a tree by the operator at its top level. -/
def strength : Option String → Nat
  | none => atomStrength
  | some op => ((g.table.get? op).map Prod.fst).getD 0

/-- The least strength that the right operand of an operator may have. -/
def rightBound : Nat × Assoc → Nat
  | (own, .right) => own
  | (own, _) => own + 1

/-- The least strength that the left operand of an operator may have. -/
def leftBound : Nat × Assoc → Nat
  | (own, .left) => own
  | (own, _) => own + 1

/-! ## Writing -/

/-- A tree as it is written on a side of an operator. -/
def wrapped (code : String) (op : Option String) (outer : String) (side : Side) : String :=
  g.table.wrap ⟨code, op⟩ outer side

end Grammar

mutual

/-- The code of a tree. -/
def Tree.code (g : Grammar) : Tree → String
  | .leaf text => text
  | .closed opening inside => opening ++ inside.code g
  | .prefixed key x => g.spelling key ++ g.wrapped (x.code g) x.op key .right
  | .infixed op a b =>
    g.wrapped (a.code g) a.op op .left ++ " " ++ op ++ " " ++ g.wrapped (b.code g) b.op op .right
  | .suffixed key text x => g.wrapped (x.code g) x.op key .left ++ text
  | .conditional test yes no =>
    g.wrapped (test.code g) test.op "?:" .left ++ " ? " ++
      g.wrapped (yes.code g) yes.op "?:" .right ++ " : " ++
      g.wrapped (no.code g) no.op "?:" .right
  | .member object text => g.wrapped (object.code g) object.op memberOp .left ++ text
  | .applied object opening inside =>
    g.wrapped (object.code g) object.op memberOp .left ++ opening ++ inside.code g

/-- The code of what stands between brackets, with the closing. -/
def Inside.code (g : Grammar) : Inside → String
  | .last tree closing => tree.code g ++ closing
  | .more tree separator rest => tree.code g ++ separator ++ rest.code g
  | .bare op a b closing =>
    g.wrapped (a.code g) a.op op .left ++ " " ++ op ++ " " ++ b.code g ++ closing

end

/-! ## Reading -/

namespace Grammar

variable (g : Grammar)

mutual

/-- The tree at the start of a text whose operators bind at least as tight as `least`, and the text
behind it. -/
def expression (g : Grammar) : Nat → Nat → List Char → Option (Tree × List Char)
  | 0, _, _ => none
  | fuel + 1, least, s =>
    match g.start? s with
    | none => none
    | some (.leaf text, s) => tail g fuel least atomStrength (.leaf text) s
    | some (.opening text bracket, s) =>
      (inside g fuel bracket s).bind fun p =>
        tail g fuel least atomStrength (.close text p.1) p.2
    | some (.prefixed key, s) =>
      -- A prefix operator takes an operand of its own level or tighter.
      (g.table.get? key).bind fun entry =>
        if least ≤ entry.1 then
          (expression g fuel entry.1 s).bind fun p =>
            tail g fuel least entry.1 (.prefixed key p.1) p.2
        else none

/-- What an operand goes on to, of which it is the left operand. The operand binds as tight as
`strength`. -/
def tail (g : Grammar) : Nat → Nat → Nat → Tree → List Char → Option (Tree × List Char)
  | 0, _, _, _, _ => none
  | fuel + 1, least, strength, x, s =>
    match g.continuation? s with
    | none => some (x, s)
    | some (c, rest) =>
      match g.table.get? c.key with
      | none => some (x, s)
      | some entry =>
        if least ≤ entry.1 ∧ leftBound entry ≤ strength then
          match c with
          | .infixed op =>
            (expression g fuel (rightBound entry) rest).bind fun p =>
              tail g fuel least entry.1 (.infixed op x p.1) p.2
          | .suffixed key text => tail g fuel least entry.1 (.suffixed key text x) rest
          | .conditional =>
            (expression g fuel entry.1 rest).bind fun yes =>
              (g.colon? yes.2).bind fun rest =>
                (expression g fuel entry.1 rest).bind fun no =>
                  tail g fuel least entry.1 (.conditional x yes.1 no.1) no.2
          | .member text => tail g fuel least atomStrength (.member x text) rest
          | .applied opening bracket =>
            (inside g fuel bracket rest).bind fun p =>
              tail g fuel least atomStrength (.applied x opening p.1) p.2
        else some (x, s)

/-- What stands between brackets, up to the closing. -/
def inside (g : Grammar) : Nat → Bracket → List Char → Option (Inside × List Char)
  | 0, _, _ => none
  | fuel + 1, bracket, s =>
    (expression g fuel 0 s).bind fun p =>
      match g.piece? bracket p.2 with
      | none => none
      | some (.closing text, rest) => some (.last p.1 text, rest)
      | some (.separator text, rest) =>
        (inside g fuel bracket rest).map fun q => (.more p.1 text q.1, q.2)

end

/-- The code reads as the tree, whole and without a limit on the depth. -/
def ReadsAs (code : String) (tree : Tree) : Prop :=
  ∃ depth, ∀ fuel ≥ depth, g.expression fuel 0 code.toList = some (tree, [])

end Grammar

end Retarget
