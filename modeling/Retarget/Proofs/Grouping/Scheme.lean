import Retarget.Expr
import Retarget.Proofs.Grouping.Form

set_option autoImplicit false

/-!
# Trees of lowered forms

The part of the lowered form that is all operators: constants, variables, conditionals, member reads
and the calls that operators stand for. A scheme says which tree a target makes of each of them.

## Main definitions

* `Retarget.Ir.Operational` — the part of the lowered form that is all operators.
* `Retarget.Scheme.tree` — the tree of a lowered form.
* `Retarget.Scheme.Writes` — a target writes the trees of a scheme.

## Main results

* `Retarget.Scheme.Writes.shows` — writing a lowered form gives the code of its tree.
* `Retarget.Scheme.Writes.readsAs_iff` — the code reads as the tree exactly where no operand that is
  written as it is needs parentheses.
-/

namespace Retarget

open Grammar

/-! ## Operations -/

/-- A constant without a sign: a number is finite and not negative. -/
def Literal.IsUnsigned : Literal → Prop
  | .int v => 0 ≤ v
  | .float x => x.isFinite = true ∧ x.isNegative = false
  | _ => True

/-- The text is spelled like a name of the language. -/
def IsIdentifier (name : String) : Prop :=
  ∃ c cs, name.toList = c :: cs ∧ Lexer.isIdentStart c = true ∧
    ∀ d ∈ cs, Lexer.isIdentPart d = true

/-- A name of the language is a name of the targets, also with more characters of names behind it or
an underscore before it. -/
lemma IsIdentifier.isWord {name : String} (h : IsIdentifier name) (more : String)
    (hmore : more.toList.all isNamePart = true) :
    isWord (name ++ more) = true ∧ isWord ("_" ++ name) = true := by
  obtain ⟨c, cs, heq, hstart, hparts⟩ := h
  have hpart {d : Char} (hd : Lexer.isIdentPart d = true) : isNamePart d = true := by
    simp only [Lexer.isIdentPart, isNamePart, Bool.or_eq_true] at hd ⊢
    exact .inl hd
  have hhead : isNameStart c = true := by
    simp only [Lexer.isIdentStart, isNameStart, Bool.or_eq_true] at hstart ⊢
    exact .inl hstart
  have hfirst : isNamePart c = true := Grammar.isNamePart_of_isNameStart hhead
  constructor
  · simp only [Grammar.isWord, String.toList_append, heq, List.cons_append, hhead, Bool.true_and,
      List.all_eq_true, List.mem_append]
    rintro d (hd | hd)
    · exact hpart (hparts d hd)
    · exact List.all_eq_true.mp hmore d hd
  · have hlist : ("_" ++ name).toList = '_' :: c :: cs := by simp [heq]
    simp only [Grammar.isWord, hlist, List.all_cons, hfirst, Bool.true_and, Bool.and_eq_true,
      List.all_eq_true]
    exact ⟨rfl, fun d hd => hpart (hparts d hd)⟩

/-- The names of the calls of operators with one operand. -/
def unaryNames : List String := [UnaryOp.neg, .pos, .not].map UnaryOp.function

/-- The names of the calls of operators with two operands, and of member reads. -/
def binaryNames : List String :=
  "field" :: [BinaryOp.add, .sub, .mul, .div, .mod, .pow, .eq, .neq, .lt, .lte, .gt, .gte, .and,
    .or].map BinaryOp.function

/-- Every operator with one operand has its call there. -/
lemma UnaryOp.function_mem (op : UnaryOp) : op.function ∈ unaryNames := by
  cases op <;> decide

/-- Every operator with two operands has its call there. -/
lemma BinaryOp.function_mem (op : BinaryOp) : op.function ∈ binaryNames := by
  cases op <;> decide

/-- Constants, variables, conditionals, member reads and the calls of operators, of any types. -/
inductive Ir.Operational : Ir → Prop
  | literal {value : Literal} (h : value.IsUnsigned) (ty : Ty) : Operational (.literal value ty)
  | var {name : String} (h : IsIdentifier name) (ty : Ty) : Operational (.var name ty)
  | cond {test yes no : Ir} (htest : Operational test) (hyes : Operational yes)
      (hno : Operational no) (ty : Ty) : Operational (.cond test yes no ty)
  | unary {name : String} (h : name ∈ unaryNames) {x : Ir} (hx : Operational x) (ty result : Ty) :
      Operational (.call name [x] [ty] result)
  | binary {name : String} (h : name ∈ binaryNames) {a b : Ir} (ha : Operational a)
      (hb : Operational b) (s t result : Ty) : Operational (.call name [a, b] [s, t] result)

/-! ## Schemes -/

/-- A lowered form and its tree. -/
structure Part where
  ir : Ir
  tree : Tree

/-- Which trees a target makes of lowered forms. -/
structure Scheme where
  literal : Literal → Tree
  variableTree : String → Tree
  conditional : Part → Part → Part → Ty → Tree
  unary : String → Ty → Ty → Part → Tree
  binary : String → Ty → Ty → Ty → Part → Part → Tree

namespace Scheme

/-- The tree of a lowered form that is all operators. -/
def tree (s : Scheme) : Ir → Tree
  | .literal value _ => s.literal value
  | .var name _ => s.variableTree name
  | .cond test yes no ty =>
    s.conditional ⟨test, s.tree test⟩ ⟨yes, s.tree yes⟩ ⟨no, s.tree no⟩ ty
  | .call name [x] [ty] result => s.unary name ty result ⟨x, s.tree x⟩
  | .call name [a, b] [t, u] result => s.binary name t u result ⟨a, s.tree a⟩ ⟨b, s.tree b⟩
  | _ => default

end Scheme

/-- The part is the lowered form of the argument with its tree, and writing the argument gives the
code of the tree. -/
structure Operand.Stands (s : Scheme) (g : Grammar) (o : Operand) (p : Part) : Prop where
  ir : o.ir = p.ir
  operational : p.ir.Operational
  tree : p.tree = s.tree p.ir
  shows : o.Shows g p.tree

/-- The target writes the trees of the scheme. -/
structure Scheme.Writes (s : Scheme) (target : Target) (w : Spelling) : Prop where
  literal {value : Literal} : value.IsUnsigned →
    (target.literal value).Shows w.grammar (s.literal value)
  variableCode {name : String} : IsIdentifier name →
    target.variableCode name = (s.variableTree name).fragment w.grammar ∧
      (s.variableTree name).Legible w.grammar
  conditional {o₁ o₂ o₃ : Operand} {p₁ p₂ p₃ : Part} (ty : Ty) : o₁.Stands s w.grammar p₁ →
    o₂.Stands s w.grammar p₂ → o₃.Stands s w.grammar p₃ →
      (target.conditional o₁ o₂ o₃ ty).Shows w.grammar (s.conditional p₁ p₂ p₃ ty)
  unary {name : String} {o : Operand} {p : Part} (ty result : Ty) : name ∈ unaryNames →
    o.Stands s w.grammar p →
      (target.call ⟨name, [o], [ty], result⟩).Shows w.grammar (s.unary name ty result p)
  binary {name : String} {o₁ o₂ : Operand} {p₁ p₂ : Part} (t u result : Ty) :
    name ∈ binaryNames → o₁.Stands s w.grammar p₁ → o₂.Stands s w.grammar p₂ →
      (target.call ⟨name, [o₁, o₂], [t, u], result⟩).Shows w.grammar
        (s.binary name t u result p₁ p₂)

namespace Scheme.Writes

variable {s : Scheme} {target : Target} {w : Spelling} (writes : s.Writes target w)

include writes

/-- Writing a lowered form that is all operators gives the code of its tree. -/
theorem shows {ir : Ir} (h : ir.Operational) :
    (target.fragment ir).Shows w.grammar (s.tree ir) := by
  induction h with
  | literal h ty => exact writes.literal h
  | var h ty =>
    obtain ⟨hcode, hlegible⟩ := writes.variableCode h
    exact ⟨congrArg Except.ok hcode, hlegible⟩
  | cond htest hyes hno ty ihtest ihyes ihno =>
    exact writes.conditional ty ⟨rfl, htest, rfl, ihtest⟩ ⟨rfl, hyes, rfl, ihyes⟩
      ⟨rfl, hno, rfl, ihno⟩
  | unary h hx ty result ihx => exact writes.unary ty result h ⟨rfl, hx, rfl, ihx⟩
  | binary h ha hb t u result iha ihb =>
    exact writes.binary t u result h ⟨rfl, ha, rfl, iha⟩ ⟨rfl, hb, rfl, ihb⟩

/-- Writing a lowered form that is all operators succeeds, and its code reads as its tree exactly
where no operand that is written as it is needs parentheses. -/
theorem readsAs_iff (clear : w.Clear) {ir : Ir} (h : ir.Operational) :
    ∃ helpers, target.fragment ir [] = ⟨.ok ((s.tree ir).fragment w.grammar), helpers⟩ ∧
      (w.grammar.ReadsAs ((s.tree ir).code w.grammar) (s.tree ir).plain ↔
        (s.tree ir).Tight w.grammar) := by
  obtain ⟨hgives, hlegible⟩ := writes.shows h
  refine ⟨(target.fragment ir []).helpers, ?_, readsAs_plain_iff clear.lawful hlegible⟩
  rw [← hgives]

end Scheme.Writes

end Retarget
