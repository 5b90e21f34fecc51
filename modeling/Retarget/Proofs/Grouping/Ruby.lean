import Retarget.Proofs.Grouping.Quotation
import Retarget.Proofs.Grouping.Scheme

set_option autoImplicit false

/-!
# Grouping in Ruby

The spelling of Ruby and the trees that its forms of calls are applied to. Every operand is written
with the parentheses that the precedence table asks for.

## Main definitions

* `Retarget.Ruby.spelling` — the spelling of the operators, brackets and constants.
* `Retarget.Ruby.scheme` — the trees of lowered forms.

## Main results

* `Retarget.Ruby.writes` — writing gives the code of the trees.
* `Retarget.Ruby.tight` — no operand is written as it is where it needs parentheses.
-/

namespace Retarget.Ruby

open Grammar Spelling

/-! ## Spelling -/

/-- The operators between their operands. -/
def infixes : List String :=
  ["**", "*", "/", "%", "+", "-", "<", "<=", ">", ">=", "==", "!=", "&&", "||"]

/-- The spelling of Ruby. -/
def spelling : Spelling where
  table := precedence
  prefixes := [("!", "!"), ("-", "u-"), ("+", "u+")]
  continuations := (infixes.map fun op => (" " ++ op ++ " ", .infixed op)) ++
    [(" ? ", .conditional), ("[", .applied "[" .square)]
  openings := [("(", .round)]
  pieces
    | .round => [(")", .closing ")"), (", ", .separator ", ")]
    | .square => [("]", .closing "]")]
    | .choice => []
  quoted := Quotation.escaping '\x27'

/-- None of the texts hides another one. -/
lemma clear : spelling.Clear where
  heads := by decide
  headStart := by decide
  continuations := by decide
  continuationStart := by decide
  pieces bracket := by cases bracket <;> decide
  pieceStart bracket := by cases bracket <;> decide
  pieceApart bracket := by cases bracket <;> decide
  colonApart := by decide
  paren := by decide
  closing := by decide
  comma := by decide
  member := by decide
  bounded := by decide
  uniform := by decide

/-! ## Trees -/

/-- The tree of a constant. -/
def literalTree : Literal → Tree
  | .date s => .applied (.leaf "Date") ".iso8601(" (.last (.leaf (quote s)) ")")
  | .dateTime s => .applied (.leaf "DateTime") ".iso8601(" (.last (.leaf (quote s)) ")")
  | .duration s =>
    .applied (.member (.leaf "ActiveSupport") "::Duration") ".parse(" (.last (.leaf (quote s)) ")")
  | value => .leaf (literalCode value)

/-- The tree of a call of one argument. -/
def CallForm.unary : CallForm → Tree → Tree
  | .shared form, x => form.unary x
  | _, x => x

/-- The tree of a call of two arguments. A quotient is followed by the member that truncates it. -/
def CallForm.binary : CallForm → Part → Part → Tree
  | .shared (.enclosed _ inner closing _), a, b => .member (inner.binary a.tree b.tree) closing
  | .shared form, a, b => form.binary a.tree b.tree
  | .dayShift op, a, b =>
    match b.ir.literal?.bind Temporal.literalDays? with
    | some days => .infixed op a.tree (.leaf (toString days))
    | none => .infixed op a.tree b.tree
  | .index, a, b => .applied a.tree "[" (.last b.tree "]")
  | .block _, a, _ => a.tree

/-- The trees of lowered forms. -/
def scheme : Scheme where
  literal := literalTree
  variableTree name := .leaf (localName name)
  conditional test yes no _ := .conditional test.tree yes.tree no.tree
  unary name ty _ x := registry.tree name [ty.tag] fun form => form.unary x.tree
  binary name t u _ a b := registry.tree name [t.tag, u.tag] fun form => form.binary a b

/-! ## Constants and names -/

/-- A string is a leaf. -/
lemma isLeaf_quote (s : String) : spelling.grammar.IsLeaf (quote s) := by
  have hquoted : spelling.quoted = Quotation.escaping '\x27' := rfl
  refine Clear.isLeaf_quoted clear (c := '\x27') (by simp [quote]) (by decide) fun rest _ => ?_
  rw [hquoted, Quotation.escaping_ruby]

/-- A call of a class method on a string. -/
lemma shows_parse (object : Tree) (text : String) (hobject : object.Legible spelling.grammar)
    (htext : spelling.hasMethod text = true) {opening : String}
    (hopening : opening = (Tree.member object (text ++ "(")).code spelling.grammar) (s : String) :
    (pure (.atom (opening ++ quote s ++ ")")) : Emit Fragment).Shows spelling.grammar
      (.applied object (text ++ "(") (.last (.leaf (quote s)) ")")) := by
  refine ⟨?_, Clear.legible_method clear htext hobject (isLeaf_quote s)⟩
  rw [hopening, String.append_assoc]
  exact Emit.gives_pure _

/-- Writing a constant gives the code of its tree. -/
lemma shows_literal {value : Literal} (h : value.IsUnsigned) :
    (target.literal value).Shows spelling.grammar (literalTree value) := by
  cases value with
  | int v => exact ⟨rfl, Clear.isLeaf_numeral clear (isNumeral_toString h)⟩
  | float x => exact ⟨rfl, Clear.isLeaf_numeral clear (isNumeral_write _ h.1 h.2)⟩
  | bool b => cases b <;> exact ⟨rfl, Clear.isLeaf_name clear (by decide)⟩
  | string s => exact ⟨rfl, isLeaf_quote s⟩
  | date s =>
    exact shows_parse (.leaf "Date") ".iso8601" (Clear.isLeaf_name clear (by decide))
      (by decide) (by decide) s
  | dateTime s =>
    exact shows_parse (.leaf "DateTime") ".iso8601" (Clear.isLeaf_name clear (by decide))
      (by decide) (by decide) s
  | duration s =>
    have hmember : spelling.grammar.IsMember "::Duration" :=
      Clear.isMember clear "::" "Duration" (.inr rfl) (by decide)
    exact shows_parse (.member (.leaf "ActiveSupport") "::Duration") ".parse"
      ⟨hmember, Clear.isLeaf_name clear (by decide)⟩ (by decide) (by decide) s
  | null => exact ⟨rfl, Clear.isLeaf_name clear (by decide)⟩

/-- A variable is a name. -/
lemma isWord_localName {name : String} (h : IsIdentifier name) :
    isWord (localName name) = true := by
  unfold localName
  split_ifs
  · exact (h.isWord "_" (by decide)).1
  · exact (h.isWord "" (by decide)).2
  · simpa using (h.isWord "" (by decide)).1

/-- A variable is a leaf. -/
lemma isLeaf_localName {name : String} (h : IsIdentifier name) :
    spelling.grammar.IsLeaf (localName name) := by
  have hword := isWord_localName h
  obtain ⟨c, cs, heq, -⟩ := exists_cons_of_isWord hword
  have hempty : ∀ t ∈ spelling.headTexts, t.toList.takeWhile isNamePart = [] := by decide
  refine Clear.isLeaf_name clear (Spelling.isName_of_isWord hword (fun t ht => ?_) List.not_mem_nil)
  rw [hempty t ht, heq]
  exact (List.cons_ne_nil c cs).symm

/-! ## Calls -/

/-- A form of a call of one argument whose tree can be told apart. -/
def CallForm.isUnary : CallForm → Bool
  | .shared form => spelling.hasUnary form
  | _ => false

/-- A form of a call of two arguments whose tree can be told apart. -/
def CallForm.isBinary : CallForm → Bool
  | .shared (.enclosed opening (.method text) closing op) =>
    opening == "" && spelling.hasMethod text && closing == "." ++ (closing.drop 1).toString &&
      isWord (closing.drop 1).toString && op == none
  | .shared form => spelling.hasBinary form
  | .dayShift op => spelling.hasInfix op
  | .index => true
  | .block _ => false

/-- The forms of calls of one argument can be told apart. -/
lemma covers_unary : registry.covers unaryNames 1 CallForm.isUnary = true := by decide

/-- The forms of calls of two arguments can be told apart. -/
lemma covers_binary : registry.covers binaryNames 2 CallForm.isBinary = true := by decide

/-- Writing a call of one argument gives the code of its tree. -/
lemma shows_unary {form : CallForm} (hform : form.isUnary = true) {o : Operand} {x : Tree}
    (ho : o.Shows spelling.grammar x) (name : String) (ty result : Ty) :
    (form.emit ⟨name, [o], [ty], result⟩).Shows spelling.grammar (form.unary x) := by
  cases form with
  | shared form => exact Form.shows_unary clear hform ho name ty result
  | block | dayShift | index => cases hform

/-- A quotient that is truncated. -/
lemma shows_enclosed {opening text closing : String} {op : Option String}
    (hform : CallForm.isBinary (.shared (.enclosed opening (.method text) closing op)) = true)
    {o p : Operand} {a b : Part} (ho : o.Stands scheme spelling.grammar a)
    (hp : p.Stands scheme spelling.grammar b) (name : String) (t u result : Ty) :
    ((Form.enclosed opening (.method text) closing op).emit precedence
        ⟨name, [o, p], [t, u], result⟩).Shows spelling.grammar
      (.member ((Form.method text).binary a.tree b.tree) closing) := by
  simp only [CallForm.isBinary, Bool.and_eq_true, beq_iff_eq] at hform
  obtain ⟨⟨⟨⟨rfl, htext⟩, hclosing⟩, hword⟩, rfl⟩ := hform
  have hmethod : spelling.hasBinary (.method text) = true := htext
  obtain ⟨hgives, hlegible⟩ :=
    Form.shows_binary clear hmethod ho.shows hp.shows name t u result
  refine ⟨hgives.bind ?_, ?_, hlegible⟩
  · simp only [String.empty_append]
    exact Emit.gives_pure _
  · rw [hclosing]
    exact Clear.isMember clear "." _ (.inl rfl) hword

/-- Writing a call of two arguments gives the code of its tree.

**Proof sketch.** By cases on the form. Shared forms are settled in general, but for the one that
encloses a method call. The code of a shift by days depends on the second operand, so its case is
split on whether that is a literal count; reading an index opens a bracket that its tree has to
account for. -/
lemma shows_binary {form : CallForm} (hform : form.isBinary = true) {o p : Operand} {a b : Part}
    (ho : o.Stands scheme spelling.grammar a) (hp : p.Stands scheme spelling.grammar b) (name : String)
    (t u result : Ty) :
    (form.emit ⟨name, [o, p], [t, u], result⟩).Shows spelling.grammar (form.binary a b) := by
  cases form with
  | shared form =>
    cases form with
    | enclosed opening inner closing op =>
      cases inner with
      | method text => exact shows_enclosed hform ho hp name t u result
      | constant | identity | infixOp | prefixOp | sequence | helper | suffix | enclosed
      | exchanged | record => cases hform
    | constant | identity | infixOp | prefixOp | sequence | helper | method | suffix
    | exchanged | record => exact Form.shows_binary clear hform ho.shows hp.shows name t u result
  | dayShift op =>
    have hlhs := ho.shows.gives_wrapped op .left
    simp only [CallForm.emit, CallForm.binary, Site.operand, List.getD_cons_zero,
      List.getD_cons_succ, hp.ir]
    cases hdays : b.ir.literal?.bind Temporal.literalDays? with
    | some days =>
      refine ⟨hlhs.bind ((Emit.gives_pure _).bind (Emit.gives_pure _)), ?_⟩
      exact Clear.legible_infixed clear hform ho.shows.legible
        (Clear.isLeaf_numeral clear (isNumeral_toString_nat days))
    | none =>
      refine ⟨hlhs.bind ((hp.shows.gives_wrapped op .right).bind (Emit.gives_pure _)), ?_⟩
      exact Clear.legible_infixed clear hform ho.shows.legible hp.shows.legible
  | index =>
    have hindex : spelling.grammar.IsContinuation "[" (.applied "[" .square) :=
      Clear.isContinuation clear (e := ("[", .applied "[" .square)) (by decide) (by decide)
    have hclosing : spelling.grammar.IsPiece .square "]" (.closing "]") :=
      Clear.isPiece clear (e := ("]", .closing "]")) (by decide)
    refine ⟨?_, ho.shows.legible, .square, hindex, hclosing, hp.shows.legible⟩
    refine (ho.shows.gives_wrapped memberOp .left).bind (hp.shows.gives_code.bind ?_)
    simp only [Tree.fragment, CallForm.binary, Tree.code, Inside.code, Tree.op,
      ← String.append_assoc]
    exact Emit.gives_pure _
  | block => cases hform

/-! ## The target -/

/-- Writing lowered forms gives the code of their trees. -/
theorem writes : scheme.Writes target spelling where
  literal := shows_literal
  variableCode h := ⟨rfl, isLeaf_localName h⟩
  conditional ty h₁ h₂ h₃ := by
    have hconditional : spelling.grammar.HasConditional :=
      Clear.hasConditional clear (by decide) ⟨3, by decide⟩
    refine ⟨?_, hconditional, h₁.shows.legible, h₂.shows.legible, h₃.shows.legible⟩
    exact (h₁.shows.gives_wrapped "?:" .left).bind ((h₂.shows.gives_wrapped "?:" .right).bind
      ((h₃.shows.gives_wrapped "?:" .right).bind (Emit.gives_pure _)))
  unary ty result hname ho :=
    Registry.shows_call ⟨_, [_], [ty], result⟩ covers_unary hname fun _ hform =>
      shows_unary hform ho.shows _ ty result
  binary t u result hname ho hp :=
    Registry.shows_call ⟨_, [_, _], [t, u], result⟩ covers_binary hname fun _ hform =>
      shows_binary hform ho hp _ t u result

/-- A call of two arguments writes them with the parentheses that they need. -/
lemma tight_binary (form : CallForm) {a b : Part} (ha : a.tree.Tight spelling.grammar)
    (hb : b.tree.Tight spelling.grammar) : (form.binary a b).Tight spelling.grammar := by
  cases form with
  | shared form =>
    cases form with
    | enclosed opening inner closing op => exact Form.tight_binary inner ha hb
    | constant | identity | infixOp | prefixOp | sequence | helper | method | suffix
    | exchanged | record => exact Form.tight_binary _ ha hb
  | dayShift op =>
    rw [CallForm.binary]
    split
    · exact ⟨ha, trivial⟩
    · exact ⟨ha, hb⟩
  | index => exact ⟨ha, hb⟩
  | block => exact ha

/-- No operand is written as it is where it needs parentheses. -/
theorem tight {ir : Ir} (h : ir.Operational) : (scheme.tree ir).Tight spelling.grammar := by
  induction h with
  | @literal value h ty =>
    cases value <;> simp [scheme, Scheme.tree, literalTree, Tree.Tight, Inside.Tight]
  | var h ty => trivial
  | cond htest hyes hno ty ihtest ihyes ihno => exact ⟨ihtest, ihyes, ihno⟩
  | unary h hx ty result ihx =>
    refine Registry.tree_of_covers _ [ty.tag] covers_unary h fun form _ => ?_
    cases form with
    | shared form => exact Form.tight_unary form ihx
    | block | dayShift | index => exact ihx
  | binary h ha hb t u result iha ihb =>
    exact Registry.tree_of_covers _ [t.tag, u.tag] covers_binary h fun form _ => tight_binary form iha ihb

end Retarget.Ruby
