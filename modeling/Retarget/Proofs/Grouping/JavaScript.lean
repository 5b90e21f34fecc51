import Retarget.Proofs.Grouping.Quotation
import Retarget.Proofs.Grouping.Scheme

set_option autoImplicit false

/-!
# Grouping in JavaScript

The spelling of JavaScript and the trees that its forms of calls are applied to. Every operand is
written with the parentheses that the precedence table asks for.

## Main definitions

* `Retarget.JavaScript.spelling` — the spelling of the operators, brackets and constants.
* `Retarget.JavaScript.scheme` — the trees of lowered forms.

## Main results

* `Retarget.JavaScript.writes` — writing gives the code of the trees.
* `Retarget.JavaScript.tight` — no operand is written as it is where it needs parentheses.
-/

namespace Retarget.JavaScript

open Grammar Spelling

/-! ## Spelling -/

/-- The operators between their operands. -/
def infixes : List String :=
  ["**", "*", "/", "%", "+", "-", "<", "<=", ">", ">=", "===", "!==", "==", "!=", "&&", "||"]

/-- The spelling of JavaScript. -/
def spelling : Spelling where
  table := precedence
  prefixes := [("-", "u-"), ("!", "!")]
  continuations := (infixes.map fun op => (" " ++ op ++ " ", .infixed op)) ++
    [(" ? ", .conditional), ("[", .applied "[" .square)]
  openings := [("(", .round), ("new Date(", .round)]
  pieces
    | .round => [(")", .closing ")"), (", ", .separator ", ")]
    | .square => [("]", .closing "]")]
    | .choice => []
  nullary := [".getTime"]
  quoted := Quotation.escaping '\x22'

/-- None of the texts hides another one. -/
lemma clear : spelling.Clear where
  heads := by decide
  headStart := by decide
  continuations := by decide
  continuationStart := by decide
  pieces bracket := by cases bracket <;> decide
  pieceStart bracket := by cases bracket <;> decide
  pieceApart bracket := by cases bracket <;> decide
  colonApart := by decide
  paren := by decide
  closing := by decide
  comma := by decide
  member := by decide
  bounded := by decide
  uniform := by decide

/-! ## Trees -/

/-- The tree of a constant. -/
def literalTree : Literal → Tree
  | .date s => .closed "new Date(" (.last (.leaf (JsonString.quote s)) ")")
  | .dateTime s => .closed "new Date(" (.last (.leaf (JsonString.quote (Temporal.inUtc s))) ")")
  | .duration s =>
    .closed (Helper.camel "duration" ++ "(") (.last (.leaf (JsonString.quote s)) ")")
  | value => .leaf (literalCode value)

/-- The tree of a call of one argument. -/
def CallForm.unary : CallForm → Tree → Tree
  | .shared form, x => form.unary x
  | _, x => x

/-- The tree of a call of two arguments. A call between two texts is negated or truncated. -/
def CallForm.binary : CallForm → Part → Part → Tree
  | .shared (.enclosed _ inner closing op), a, b =>
    match op with
    | some key => .prefixed key (inner.binary a.tree b.tree)
    | none =>
      .applied (.leaf "Math") ".trunc(" (.last (inner.binary a.tree b.tree) closing)
  | .shared form, a, b => form.binary a.tree b.tree
  | .byTime op, a, b => .infixed op (.member a.tree ".getTime()") (.member b.tree ".getTime()")
  | .nullTest place op, a, b => .infixed op (if place = 0 then a.tree else b.tree) (.leaf "null")
  | .field, a, b =>
    match b.ir.string?.filter isName with
    | some key => .member a.tree ("." ++ key)
    | none => .applied a.tree "[" (.last b.tree "]")
  | .reduce, a, _ => a.tree

/-- The trees of lowered forms. -/
def scheme : Scheme where
  literal := literalTree
  variableTree name := .leaf (localName name)
  conditional test yes no _ := .conditional test.tree yes.tree no.tree
  unary name ty _ x := registry.tree name [ty.tag] fun form => form.unary x.tree
  binary name t u _ a b := registry.tree name [t.tag, u.tag] fun form => form.binary a b

/-! ## Constants and names -/

/-- A string is a leaf. -/
lemma isLeaf_quote (s : String) : spelling.grammar.IsLeaf (JsonString.quote s) := by
  have hquoted : spelling.quoted = Quotation.escaping '\x22' := rfl
  refine Clear.isLeaf_quoted clear (c := '\x22') (by simp [JsonString.quote]) (by decide) fun rest _ => ?_
  rw [hquoted, Quotation.escaping_json]

/-- A call on a string. -/
lemma shows_call {opening : String} (hopening : spelling.grammar.IsOpening opening .round)
    (helpers : List String) (s : String) :
    (do
      Emit.requireAll helpers
      return .atom (opening ++ JsonString.quote s ++ ")") : Emit Fragment).Shows spelling.grammar
      (.closed opening (.last (.leaf (JsonString.quote s)) ")")) := by
  refine ⟨(Emit.gives_requireAll _).bind ?_, .round, hopening, Clear.isPiece_closing clear,
    isLeaf_quote s⟩
  rw [String.append_assoc]
  exact Emit.gives_pure _

/-- Writing a constant gives the code of its tree. -/
lemma shows_literal {value : Literal} (h : value.IsUnsigned) :
    (target.literal value).Shows spelling.grammar (literalTree value) := by
  have hdate : spelling.grammar.IsOpening "new Date(" .round :=
    Clear.isOpening clear (e := ("new Date(", .round)) (by decide)
  cases value with
  | int v => exact ⟨rfl, Clear.isLeaf_numeral clear (isNumeral_toString h)⟩
  | float x => exact ⟨rfl, Clear.isLeaf_numeral clear (isNumeral_write _ h.1 h.2)⟩
  | bool b => cases b <;> exact ⟨rfl, Clear.isLeaf_name clear (by decide)⟩
  | string s => exact ⟨rfl, isLeaf_quote s⟩
  | date s => exact shows_call hdate [] s
  | dateTime s => exact shows_call hdate [] (Temporal.inUtc s)
  | duration s => exact shows_call (Clear.isOpening_call clear _ (by decide)) [Helper.camel "duration"] s
  | null => exact ⟨rfl, Clear.isLeaf_name clear (by decide)⟩

/-- A variable is a leaf.

**Proof sketch.** A mark put behind a reserved word leaves a word, and this word is neither `new`
nor one that an operator is written with. -/
lemma isLeaf_localName {name : String} (h : IsIdentifier name) :
    spelling.grammar.IsLeaf (localName name) := by
  have hword : isWord (localName name) = true := by
    unfold localName
    split_ifs
    · exact (h.isWord "$" (by decide)).1
    · simpa using (h.isWord "" (by decide)).1
  have hnew : localName name ≠ "new" := by
    unfold localName
    split_ifs with hreserved
    · intro heq
      have hlast := congrArg (fun s => s.toList.getLast?) heq
      simp at hlast
    · rintro rfl
      exact hreserved (by decide)
  obtain ⟨c, cs, heq, -⟩ := exists_cons_of_isWord hword
  have hheads : ∀ t ∈ spelling.headTexts, t.toList.takeWhile Grammar.isNamePart = [] ∨
      t.toList.takeWhile Grammar.isNamePart = "new".toList := by decide
  refine Clear.isLeaf_name clear (Spelling.isName_of_isWord hword (fun t ht => ?_) List.not_mem_nil)
  rcases hheads t ht with hempty | hempty
  · rw [hempty, heq]
    exact (List.cons_ne_nil c cs).symm
  · rw [hempty]
    exact fun heq => hnew (String.ext heq.symm)

/-! ## Calls -/

/-- A form of a call of one argument whose tree can be told apart. -/
def CallForm.isUnary : CallForm → Bool
  | .shared form => spelling.hasUnary form
  | _ => false

/-- A form of a call of two arguments whose tree can be told apart. -/
def CallForm.isBinary : CallForm → Bool
  | .shared (.enclosed opening inner closing op) =>
    spelling.hasBinary inner &&
      match op with
      | some key => (inner matches .helper _) && spelling.hasPrefix key opening && closing == ""
      | none => opening == "Math.trunc(" && closing == ")"
  | .shared form => spelling.hasBinary form
  | .byTime op => spelling.hasInfix op
  | .nullTest place op => place < 2 && spelling.hasInfix op
  | .field => true
  | .reduce => false

/-- The forms of calls of one argument can be told apart. -/
lemma covers_unary : registry.covers unaryNames 1 CallForm.isUnary = true := by decide

/-- The forms of calls of two arguments can be told apart. -/
lemma covers_binary : registry.covers binaryNames 2 CallForm.isBinary = true := by decide

/-- Writing a call of one argument gives the code of its tree. -/
lemma shows_unary {form : CallForm} (hform : form.isUnary = true) {o : Operand} {x : Tree}
    (ho : o.Shows spelling.grammar x) (name : String) (ty result : Ty) :
    (form.emit ⟨name, [o], [ty], result⟩).Shows spelling.grammar (form.unary x) := by
  cases form with
  | shared form => exact Form.shows_unary clear hform ho name ty result
  | byTime | nullTest | reduce | field => cases hform

section Binary

variable {o p : Operand} {a b : Part} (ho : o.Stands scheme spelling.grammar a)
  (hp : p.Stands scheme spelling.grammar b) (name : String) (t u result : Ty)

include ho hp

/-- A call that is negated or truncated.

**Proof sketch.** A form around another one is either the call of `Math.trunc`, whose tree is a
method of the name `Math`, or a prefix operator in front of a helper. In both cases the inner form
shows its tree and the text around it is that of the outer one. -/
lemma shows_enclosed {opening closing : String} {inner : Form} {op : Option String}
    (hform : CallForm.isBinary (.shared (.enclosed opening inner closing op)) = true) :
    ((Form.enclosed opening inner closing op).emit precedence
        ⟨name, [o, p], [t, u], result⟩).Shows spelling.grammar
      (CallForm.binary (.shared (.enclosed opening inner closing op)) a b) := by
  simp only [CallForm.isBinary, Bool.and_eq_true] at hform
  obtain ⟨hinner, hform⟩ := hform
  obtain ⟨hgives, hlegible⟩ :=
    Form.shows_binary clear hinner ho.shows hp.shows name t u result
  cases op with
  | none =>
    simp only [Bool.and_eq_true, beq_iff_eq] at hform
    obtain ⟨rfl, rfl⟩ := hform
    have hmath : (Tree.leaf "Math").Legible spelling.grammar := Clear.isLeaf_name clear (by decide)
    have htrunc : spelling.hasMethod ".trunc" = true := by decide
    refine ⟨hgives.bind ?_, Clear.legible_method clear htrunc hmath hlegible⟩
    rw [String.append_assoc]
    exact Emit.gives_pure _
  | some key =>
    simp only [Bool.and_eq_true, beq_iff_eq] at hform
    obtain ⟨⟨hhelper, hkey⟩, rfl⟩ := hform
    refine ⟨hgives.bind ?_, Clear.legible_prefixed clear hkey hlegible⟩
    have hspelled : spelling.grammar.spelling key = opening := by
      simp_all [Spelling.hasPrefix]
    cases inner with
    | helper =>
      rw [← hspelled, String.append_empty]
      exact Emit.gives_pure _
    | constant | identity | infixOp | prefixOp | sequence | method | suffix | enclosed
    | exchanged | record => cases hhelper

/-- Writing a call of two arguments gives the code of its tree.

**Proof sketch.** One case for each form. The shared ones follow the general lemma. A comparison by
time is an operation between two member reads, a test for null one with the name `null`, and a
member read has its key behind a point or in brackets. -/
lemma shows_binary {form : CallForm} (hform : form.isBinary = true) :
    (form.emit ⟨name, [o, p], [t, u], result⟩).Shows spelling.grammar (form.binary a b) := by
  cases form with
  | shared form =>
    cases form with
    | enclosed opening inner closing op => exact shows_enclosed ho hp name t u result hform
    | constant | identity | infixOp | prefixOp | sequence | helper | method | suffix
    | exchanged | record => exact Form.shows_binary clear hform ho.shows hp.shows name t u result
  | byTime op =>
    have htime {x : Tree} (hx : x.Legible spelling.grammar) :
        (Tree.member x ".getTime()").Legible spelling.grammar :=
      ⟨Clear.isMember_nullary clear "." "getTime" (.inl rfl) (by decide) (by decide), hx⟩
    refine ⟨?_, Clear.legible_infixed clear hform (htime ho.shows.legible) (htime hp.shows.legible)⟩
    refine (ho.shows.gives_wrapped memberOp .left).bind
      ((hp.shows.gives_wrapped memberOp .left).bind ?_)
    have hblank : ".getTime() " = ".getTime()" ++ " " := by decide
    have hsplit (a b : String) : a ++ ".getTime() " ++ op ++ " " ++ b ++ ".getTime()" =
        a ++ ".getTime()" ++ " " ++ op ++ " " ++ (b ++ ".getTime()") := by
      rw [hblank]
      simp only [String.append_assoc]
    rw [hsplit]
    exact Emit.gives_pure _
  | nullTest place op =>
    simp only [CallForm.isBinary, Bool.and_eq_true, decide_eq_true_eq] at hform
    have hnull : (Tree.leaf "null").Legible spelling.grammar := Clear.isLeaf_name clear (by decide)
    have hblank (code : String) :
        code ++ " " ++ op ++ " null" = code ++ " " ++ op ++ " " ++ "null" := by
      have htext : " null" = " " ++ "null" := by decide
      rw [htext, String.append_assoc, ← String.append_assoc, ← String.append_assoc]
    -- Either side may be the one that is tested.
    obtain rfl | rfl : place = 0 ∨ place = 1 := by omega
    · refine ⟨(ho.shows.gives_wrapped op .left).bind ?_,
        Clear.legible_infixed clear hform.2 ho.shows.legible hnull⟩
      rw [hblank]
      exact Emit.gives_pure _
    · refine ⟨(hp.shows.gives_wrapped op .left).bind ?_,
        Clear.legible_infixed clear hform.2 hp.shows.legible hnull⟩
      rw [hblank]
      exact Emit.gives_pure _
  | field =>
    have hobject := ho.shows.gives_wrapped memberOp .left
    simp only [CallForm.emit, CallForm.binary, Site.operand, List.getD_cons_succ,
      List.getD_cons_zero, hp.ir]
    cases hkey : b.ir.string?.filter isName with
    | some key =>
      have hword : isWord key = true := (Option.filter_eq_some_iff.mp hkey).2
      refine ⟨hobject.bind ?_, Clear.isMember clear "." key (.inl rfl) hword, ho.shows.legible⟩
      simp only [String.append_assoc]
      exact Emit.gives_pure _
    | none =>
      have hindex : spelling.grammar.IsContinuation "[" (.applied "[" .square) :=
        Clear.isContinuation clear (e := ("[", .applied "[" .square)) (by decide) (by decide)
      have hclosing : spelling.grammar.IsPiece .square "]" (.closing "]") :=
        Clear.isPiece clear (e := ("]", .closing "]")) (by decide)
      refine ⟨hobject.bind (hp.shows.gives_code.bind ?_), ho.shows.legible, .square, hindex,
        hclosing, hp.shows.legible⟩
      rw [String.append_assoc]
      exact Emit.gives_pure _
  | reduce => cases hform

end Binary

/-! ## The target -/

/-- Writing lowered forms gives the code of their trees. -/
theorem writes : scheme.Writes target spelling where
  literal := shows_literal
  variableCode h := ⟨rfl, isLeaf_localName h⟩
  conditional ty h₁ h₂ h₃ := by
    have hconditional : spelling.grammar.HasConditional :=
      Clear.hasConditional clear (by decide) ⟨2, by decide⟩
    refine ⟨?_, hconditional, h₁.shows.legible, h₂.shows.legible, h₃.shows.legible⟩
    exact (h₁.shows.gives_wrapped "?:" .left).bind ((h₂.shows.gives_wrapped "?:" .right).bind
      ((h₃.shows.gives_wrapped "?:" .right).bind (Emit.gives_pure _)))
  unary ty result hname ho :=
    Registry.shows_call ⟨_, [_], [ty], result⟩ covers_unary hname fun _ hform =>
      shows_unary hform ho.shows _ ty result
  binary t u result hname ho hp :=
    Registry.shows_call ⟨_, [_, _], [t, u], result⟩ covers_binary hname fun _ hform =>
      shows_binary ho hp _ t u result hform

/-- A call of two arguments writes them with the parentheses that they need.

**Proof sketch.** By cases on the form: the tree has the operands as its parts, and frames around
them ask for nothing. -/
lemma tight_binary (form : CallForm) {a b : Part} (ha : a.tree.Tight spelling.grammar)
    (hb : b.tree.Tight spelling.grammar) : (form.binary a b).Tight spelling.grammar := by
  cases form with
  | shared form =>
    cases form with
    | enclosed opening inner closing op =>
      cases op with
      | none => exact ⟨trivial, Form.tight_binary inner ha hb⟩
      | some key => exact Form.tight_binary inner ha hb
    | constant | identity | infixOp | prefixOp | sequence | helper | method | suffix
    | exchanged | record => exact Form.tight_binary _ ha hb
  | byTime op => exact ⟨ha, hb⟩
  | nullTest place op =>
    refine ⟨?_, trivial⟩
    split_ifs
    · exact ha
    · exact hb
  | field =>
    rw [CallForm.binary]
    split
    · exact ha
    · exact ⟨ha, hb⟩
  | reduce => exact ha

/-- No operand is written as it is where it needs parentheses. -/
theorem tight {ir : Ir} (h : ir.Operational) : (scheme.tree ir).Tight spelling.grammar := by
  induction h with
  | @literal value h ty =>
    cases value <;> simp [scheme, Scheme.tree, literalTree, Tree.Tight, Inside.Tight]
  | var h ty => trivial
  | cond htest hyes hno ty ihtest ihyes ihno => exact ⟨ihtest, ihyes, ihno⟩
  | unary h hx ty result ihx =>
    refine Registry.tree_of_covers _ [ty.tag] covers_unary h fun form _ => ?_
    cases form with
    | shared form => exact Form.tight_unary form ihx
    | byTime | nullTest | reduce | field => exact ihx
  | binary h ha hb t u result iha ihb =>
    exact Registry.tree_of_covers _ [t.tag, u.tag] covers_binary h fun form _ => tight_binary form iha ihb

end Retarget.JavaScript
