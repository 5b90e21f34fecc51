import Retarget.Proofs.Grouping.Quotation
import Retarget.Proofs.Grouping.Scheme

set_option autoImplicit false

/-!
# Grouping in SQL

The spelling of SQL and the trees that its forms of calls are applied to. There is one place where
an operand is written as it is, whatever operator it has: the key of a member read.

## Main definitions

* `Retarget.Sql.spelling` — the spelling of the operators, brackets and constants.
* `Retarget.Sql.scheme` — the trees of lowered forms.

## Main results

* `Retarget.Sql.writes` — writing gives the code of the trees.
-/

namespace Retarget.Sql

open Grammar Spelling

/-! ## Spelling -/

/-- The operators between their operands. -/
def infixes : List String :=
  ["^", "*", "/", "%", "+", "-", "||", "->", "->>", "#>>", "<", "<=", ">", ">=", "=", "<>",
   "IS NOT DISTINCT FROM", "IS DISTINCT FROM", "AND", "OR"]

/-- The tests behind their operand. -/
def tests : List String := ["IS NULL", "IS NOT NULL"]

/-- The column types that code is cast to. -/
def columns : List Column :=
  [.bigint, .numeric, .doublePrecision, .boolean, .text, .date, .timestamp, .timestamptz,
   .interval, .jsonb]

/-- What stands behind the code of a cast. -/
def castEnd (column : Column) : String := " AS " ++ column.code ++ ")"

/-- The spelling of SQL. -/
def spelling : Spelling where
  table := precedence
  prefixes := [("-", "u-"), ("NOT ", "NOT")]
  continuations := (infixes.map fun op => (" " ++ op ++ " ", .infixed op)) ++
    tests.map fun test => (" " ++ test, .suffixed "IS" (" " ++ test))
  openings := [("(", .round), ("CASE WHEN ", .choice)]
  pieces
    | .round => [(")", .closing ")"), (", ", .separator ", "), (" => ", .separator " => ")] ++
      columns.map fun column => (castEnd column, .closing (castEnd column))
    | .square => []
    | .choice => [(" THEN ", .separator " THEN "), (" ELSE ", .separator " ELSE "),
      (" END", .closing " END")]
  typed := ["DATE", "TIMESTAMPTZ", "INTERVAL"]
  quoted := Quotation.doubling

/-- None of the texts hides another one. -/
lemma clear : spelling.Clear where
  heads := by decide
  headStart := by decide
  continuations := by decide
  continuationStart := by decide
  pieces bracket := by cases bracket <;> decide
  pieceStart bracket := by cases bracket <;> decide
  pieceApart bracket := by cases bracket <;> decide
  colonApart := by decide
  paren := by decide
  closing := by decide
  comma := by decide
  member := by decide
  bounded := by decide
  uniform := by decide

/-! ## Trees -/

/-- The tree of a cast. -/
def castTree (x : Tree) (column : Column) : Tree := .closed "CAST(" (.last x (castEnd column))

/-- The tree of an argument as a `jsonb` value. -/
def jsonbTree (p : Part) : Tree :=
  match p.ir.ty with
  | .any => p.tree
  | .record _ => p.tree
  | .null => castTree (.leaf "NULL") .jsonb
  | _ =>
    if isStringLiteral p.ir.literal? then
      .closed "to_jsonb(" (.last (castTree p.tree .text) ")")
    else .closed "to_jsonb(" (.last p.tree ")")

/-- The tree of an argument as a truth value. -/
def truthTree (p : Part) : Tree := if p.ir.ty.isAny then castTree p.tree .boolean else p.tree

/-- The tree of a branch of a conditional of a type. -/
def branchTree (ty : Ty) (p : Part) : Tree := if ty.isAny then jsonbTree p else p.tree

/-- The tree of the helper of a call over one `jsonb` argument. -/
def untypedOne (name : String) (x : Part) : Tree :=
  .closed (Helper.snake name ++ "(") (.last (jsonbTree x) ")")

/-- The tree of the helper of a call over two `jsonb` arguments. -/
def untypedTwo (name : String) (a b : Part) : Tree :=
  .closed (Helper.snake name ++ "(") (.more (jsonbTree a) ", " (.last (jsonbTree b) ")"))

/-- The tree of a member read: the key is written as it is. -/
def fieldTree (result : Ty) (object key : Tree) : Tree :=
  match column? result with
  | none | some .jsonb => .closed "(" (.bare "->" object key ")")
  | some .text => .closed "(" (.bare "->>" object key ")")
  | some column => .closed "CAST(" (.bare "->>" object key (castEnd column))

/-- The tree of a call of one argument. -/
def CallForm.unary (name : String) (ty : Ty) (x : Part) : CallForm → Tree
  | .shared form => form.unary x.tree
  | .negation => if ty.isAny then untypedOne name x else .prefixed "u-" x.tree
  | .complement => .prefixed "NOT" (truthTree x)
  | _ => x.tree

/-- The tree of a call of two arguments. -/
def CallForm.binary (name : String) (t u result : Ty) (a b : Part) : CallForm → Tree
  | .shared (.enclosed opening inner closing _) =>
    if opening = "CAST(" then .closed opening (.last (inner.binary a.tree b.tree) closing)
    else
      .closed "make_interval("
        (.more (.leaf "days") " => " (.last (inner.binary a.tree b.tree) closing))
  | .shared form => form.binary a.tree b.tree
  | .operator op => if t.isAny || u.isAny then untypedTwo name a b else .infixed op a.tree b.tree
  | .wide op =>
    .infixed op (if isNarrow a.ir && isNarrow b.ir then castTree a.tree .bigint else a.tree) b.tree
  | .connective op => .infixed op (truthTree a) (truthTree b)
  | .nullTest place test =>
    if (if place = 0 then t else u).isAny then untypedTwo name a b
    else .suffixed "IS" (" " ++ test) (if place = 0 then a.tree else b.tree)
  | .dateShift dateFirst op =>
    let date := if dateFirst then a else b
    let duration := if dateFirst then b else a
    match duration.ir.literal?.bind Temporal.literalDays? with
    | some days => .infixed op date.tree (.leaf (toString days))
    | none => castTree (.infixed op date.tree duration.tree) .date
  | .field => fieldTree result a.tree b.tree
  | _ => a.tree

/-- The trees of lowered forms. -/
def scheme : Scheme where
  literal value := .leaf (literalCode value)
  variableTree name := .leaf (identifier name)
  conditional test yes no ty :=
    .closed "CASE WHEN " (.more (truthTree test) " THEN "
      (.more (branchTree ty yes) " ELSE " (.last (branchTree ty no) " END")))
  unary name ty _ x := registry.tree name [ty.tag] (CallForm.unary name ty x)
  binary name t u result a b :=
    registry.tree name [t.tag, u.tag] (CallForm.binary name t u result a b)

/-! ## Constants and names -/

/-- A text between quotes ends with the quote that is not written twice. -/
lemma doubling_quoted {mark : Char} (hmark : mark ∈ ['\x27', '\x22']) (s : String)
    {rest : List Char} (hrest : Ends rest) :
    Quotation.doubling (mark :: ((doubled mark s).toList ++ [mark]) ++ rest) =
      some (mark :: ((doubled mark s).toList ++ [mark]), rest) := by
  have hne : rest.head? ≠ some mark := by
    intro hhead
    simp only [List.mem_cons, List.not_mem_nil, or_false] at hmark
    cases rest with
    | nil => cases hhead
    | cons c cs =>
      cases hhead
      rcases hmark with rfl | rfl <;> simp [Ends] at hrest
  have happend := Quotation.doubling_append hmark s hne
  simpa using happend

/-- The code of a string is taken whole. -/
lemma quoted_quote (s : String) {rest : List Char} (hrest : Ends rest) :
    spelling.quoted ((quote s).toList ++ rest) = some ((quote s).toList, rest) := by
  have hquoted : spelling.quoted = Quotation.doubling := rfl
  have hlist : (quote s).toList = '\x27' :: ((doubled '\x27' s).toList ++ ['\x27']) := by
    simp [quote]
  rw [hquoted, hlist]
  exact doubling_quoted (by decide) s hrest

/-- Writing a constant gives the code of its tree. -/
lemma shows_literal {value : Literal} (h : value.IsUnsigned) :
    (target.literal value).Shows spelling.grammar (.leaf (literalCode value)) := by
  refine ⟨rfl, ?_⟩
  cases value with
  | int v => exact Clear.isLeaf_numeral clear (isNumeral_toString h)
  | float x => exact Clear.isLeaf_numeral clear (isNumeral_write _ h.1 h.2)
  | bool b => cases b <;> exact Clear.isLeaf_name clear (by decide)
  | string s =>
    exact Clear.isLeaf_quoted clear (c := '\x27') (by simp [literalCode, quote]) (by decide)
      fun rest => quoted_quote s
  | date s => exact Clear.isLeaf_typed clear "DATE" _ (by decide) (by decide) fun rest => quoted_quote s
  | dateTime s =>
    exact Clear.isLeaf_typed clear "TIMESTAMPTZ" _ (by decide) (by decide) fun rest => quoted_quote _
  | duration s =>
    exact Clear.isLeaf_typed clear "INTERVAL" _ (by decide) (by decide) fun rest => quoted_quote s
  | null => exact Clear.isLeaf_name clear (by decide)

/-- A plain name is none of the words that stand before others. -/
lemma isName_of_isPlainName {name : String} (h : IsIdentifier name)
    (hplain : isPlainName name = true) : spelling.isName name = true := by
  have hword : isWord name = true := by simpa using (h.isWord "" (by decide)).1
  obtain ⟨c, cs, heq, -⟩ := exists_cons_of_isWord hword
  have hheads : ∀ t ∈ spelling.headTexts, t.toList.takeWhile isNamePart = [] ∨
      isPlainName (String.ofList (t.toList.takeWhile isNamePart)) = false := by decide
  have htyped : ∀ t ∈ spelling.typed, isPlainName t = false := by decide
  refine Spelling.isName_of_isWord hword (fun t ht hhead => ?_) fun hmem => ?_
  · rcases hheads t ht with hempty | hother
    · rw [hempty, heq] at hhead
      cases hhead
    · rw [hhead, String.ofList_toList, hplain] at hother
      cases hother
  · rw [htyped name hmem] at hplain
    cases hplain

/-- A variable is a leaf. -/
lemma isLeaf_identifier {name : String} (h : IsIdentifier name) :
    spelling.grammar.IsLeaf (identifier name) := by
  unfold identifier
  split_ifs with hplain
  · exact Clear.isLeaf_name clear (isName_of_isPlainName h hplain)
  · have hquoted : spelling.quoted = Quotation.doubling := rfl
    have hlist : ("\x22" ++ doubled '\x22' name ++ "\x22").toList =
        '\x22' :: ((doubled '\x22' name).toList ++ ['\x22']) := by simp
    refine Clear.isLeaf_quoted clear (c := '\x22') (by simp) (by decide) fun rest hrest => ?_
    rw [hquoted, hlist]
    exact doubling_quoted (by decide) name hrest

/-! ## Casts and conversions -/

/-- Every column type ends a cast. -/
lemma isPiece_castEnd (column : Column) :
    spelling.grammar.IsPiece .round (castEnd column) (.closing (castEnd column)) :=
  Clear.isPiece clear (e := (castEnd column, .closing (castEnd column))) (by cases column <;> decide)

/-- Casts open like calls. -/
lemma isOpening_cast : spelling.grammar.IsOpening "CAST(" .round :=
  Clear.isOpening_call clear "CAST" (by decide)

/-- The tree of a cast is written as a cast. -/
lemma code_castTree (x : Tree) (column : Column) :
    (castTree x column).code spelling.grammar = cast (x.code spelling.grammar) column := by
  simp only [castTree, castEnd, Tree.code, Inside.code, cast, String.append_assoc]

/-- A cast is an atom. -/
lemma fragment_castTree (x : Tree) (column : Column) :
    (castTree x column).fragment spelling.grammar =
      .atom (cast (x.code spelling.grammar) column) := by
  rw [← code_castTree]
  rfl

/-- A cast of a legible tree is legible. -/
lemma legible_castTree {x : Tree} (hx : x.Legible spelling.grammar) (column : Column) :
    (castTree x column).Legible spelling.grammar :=
  ⟨.round, isOpening_cast, isPiece_castEnd column, hx⟩

section Operands

variable {o : Operand} {p : Part} (h : o.Stands scheme spelling.grammar p)

include h

/-- The tree of an argument as a `jsonb` value is legible. -/
lemma legible_jsonbTree : (jsonbTree p).Legible spelling.grammar := by
  have hnull : (Tree.leaf "NULL").Legible spelling.grammar := Clear.isLeaf_name clear (by decide)
  have hcall {x : Tree} (hx : x.Legible spelling.grammar) :
      (Tree.closed "to_jsonb(" (.last x ")")).Legible spelling.grammar :=
    Clear.legible_call_one clear "to_jsonb" (by decide) hx
  unfold jsonbTree
  split
  · exact h.shows.legible
  · exact h.shows.legible
  · exact legible_castTree hnull .jsonb
  · split_ifs
    · exact hcall (legible_castTree h.shows.legible .text)
    · exact hcall h.shows.legible

/-- Writing an argument as a `jsonb` value gives the code of its tree. -/
lemma gives_jsonb : (jsonb o).Gives ((jsonbTree p).code spelling.grammar) := by
  unfold jsonb jsonbTree
  rw [h.ir]
  cases p.ir.ty with
  | any | record => exact h.shows.gives_code
  | null => exact congrArg Except.ok (code_castTree (.leaf "NULL") .jsonb).symm
  | _ =>
    refine h.shows.gives_code.bind ?_
    dsimp only
    split_ifs
    · rw [Tree.code, Inside.code, code_castTree, String.append_assoc]
      exact Emit.gives_pure _
    · rw [Tree.code, Inside.code, String.append_assoc]
      exact Emit.gives_pure _

/-- Writing an argument as a truth value gives the code of its tree. -/
lemma shows_truth : (coerce o .boolean).Shows spelling.grammar (truthTree p) := by
  unfold truthTree
  split_ifs with hany
  · refine ⟨h.shows.gives.bind ?_, legible_castTree h.shows.legible .boolean⟩
    rw [h.ir, if_pos hany, fragment_castTree]
    exact Emit.gives_pure _
  · refine ⟨h.shows.gives.bind ?_, h.shows.legible⟩
    rw [h.ir, if_neg hany]
    exact Emit.gives_pure _

/-- Writing a branch gives the code of its tree. -/
lemma gives_branch (ty : Ty) : (branch ty o).Gives ((branchTree ty p).code spelling.grammar) := by
  unfold branch branchTree
  split_ifs
  · exact gives_jsonb h
  · exact h.shows.gives_code

/-- The tree of a branch is legible. -/
lemma legible_branchTree (ty : Ty) : (branchTree ty p).Legible spelling.grammar := by
  unfold branchTree
  split_ifs
  · exact legible_jsonbTree h
  · exact h.shows.legible

end Operands

/-! ## Calls -/

/-- The operators of member reads, whose second operand is written as it is. -/
def keyOps : List String := ["->", "->>"]

/-- An operator between operands that are both written with the parentheses that they need. -/
def isOperator (op : String) : Bool := spelling.hasInfix op && op ∉ keyOps

/-- A form of a call of one argument whose tree can be told apart. -/
def CallForm.isUnary : CallForm → Bool
  | .shared .identity | .negation | .complement => true
  | _ => false

/-- A form of a call of two arguments whose tree can be told apart. -/
def CallForm.isBinary : CallForm → Bool
  | .shared (.enclosed opening (.infixOp op) closing none) =>
    isOperator op && (opening == "CAST(" && closing == castEnd .bigint ||
      opening == "make_interval(days => " && closing == ")")
  | .shared (.infixOp op) | .operator op | .wide op | .connective op | .dateShift _ op =>
    isOperator op
  | .nullTest place test => place < 2 && test ∈ tests
  | .field => true
  | _ => false

/-- The forms of calls of one argument can be told apart. -/
lemma covers_unary : registry.covers unaryNames 1 CallForm.isUnary = true := by decide

/-- The forms of calls of two arguments can be told apart. -/
lemma covers_binary : registry.covers binaryNames 2 CallForm.isBinary = true := by decide

/-- The helpers of operators have names that can be told apart. -/
lemma isName_snake : ∀ name ∈ unaryNames ++ binaryNames,
    spelling.isName (Helper.snake name) = true := by decide

/-- An operation between legible trees is legible. -/
lemma legible_infixed {op : String} (hop : isOperator op = true) {a b : Tree}
    (ha : a.Legible spelling.grammar) (hb : b.Legible spelling.grammar) :
    (Tree.infixed op a b).Legible spelling.grammar := by
  simp only [isOperator, Bool.and_eq_true] at hop
  exact Clear.legible_infixed clear hop.1 ha hb

section Unary

variable {o : Operand} {x : Part} (h : o.Stands scheme spelling.grammar x)

include h

/-- Writing the helper of a call of one argument gives the code of its tree. -/
lemma shows_untypedOne {name : String} (hname : name ∈ unaryNames) (ty result : Ty) :
    (untyped ⟨name, [o], [ty], result⟩).Shows spelling.grammar (untypedOne name x) := by
  have hsnake := isName_snake name (List.mem_append_left _ hname)
  refine ⟨?_, Clear.legible_call_one clear _ hsnake (legible_jsonbTree h)⟩
  have hargs : (jsonbs [o]).Gives [(jsonbTree x).code spelling.grammar] :=
    (gives_jsonb h).bind ((Emit.gives_pure _).bind (Emit.gives_pure _))
  refine (Emit.gives_require _).bind (hargs.bind ?_)
  simp only [Tree.fragment, untypedOne, Tree.code, Inside.code, Tree.op, ← String.append_assoc]
  exact Emit.gives_pure _

/-- Writing a call of one argument gives the code of its tree. -/
lemma shows_unary {form : CallForm} (hform : form.isUnary = true) {name : String}
    (hname : name ∈ unaryNames) (ty result : Ty) :
    (form.emit ⟨name, [o], [ty], result⟩).Shows spelling.grammar (form.unary name ty x) := by
  have hminus : spelling.hasUnary (.prefixOp "u-" "-") = true := by decide
  have hnot : spelling.hasPrefix "NOT" "NOT " = true := by decide
  cases form with
  | shared form =>
    cases form with
    | identity => exact h.shows
    | _ => cases hform
  | negation =>
    rw [CallForm.emit, CallForm.unary]
    simp only [Site.argType, List.getD_cons_zero]
    split_ifs
    · exact shows_untypedOne h hname ty result
    · exact Form.shows_unary clear hminus h.shows name ty result
  | complement =>
    obtain ⟨hgives, hlegible⟩ := shows_truth h
    refine ⟨hgives.bind ?_, Clear.legible_prefixed clear hnot hlegible⟩
    exact Emit.gives_pure _
  | _ => cases hform

end Unary

/-! ## Member reads -/

/-- The tree has no operator of member reads at its top level. -/
def KeyFree (t : Tree) : Prop := ∀ op ∈ keyOps, t.op ≠ some op

/-- A tree without an operator has none of member reads. -/
lemma keyFree_of_none {t : Tree} (h : t.op = none) : KeyFree t := by
  intro op _
  simp [h]

/-- A tree with another operator has none of member reads. -/
lemma keyFree_of_some {t : Tree} (op : String) (h : t.op = some op) (hop : op ∉ keyOps) :
    KeyFree t := by
  rintro op' hop' heq
  rw [h] at heq
  cases heq
  exact hop hop'

/-- An operation has no operator of member reads. -/
lemma keyFree_infixed {op : String} (hop : isOperator op = true) (a b : Tree) :
    KeyFree (.infixed op a b) := by
  simp only [isOperator, Bool.and_eq_true, decide_eq_true_eq] at hop
  exact keyFree_of_some op rfl hop.2

/-- A call of one argument has no operator of member reads unless its argument has one. -/
lemma keyFree_unary {form : CallForm} (hform : form.isUnary = true) (name : String) (ty : Ty)
    {x : Part} (hx : KeyFree x.tree) : KeyFree (form.unary name ty x) := by
  cases form with
  | shared form =>
    cases form with
    | identity => exact hx
    | _ => cases hform
  | negation =>
    rw [CallForm.unary]
    split_ifs
    · exact keyFree_of_none rfl
    · exact keyFree_of_some "u-" rfl (by decide)
  | complement => exact keyFree_of_some "NOT" rfl (by decide)
  | _ => cases hform

/-- A call of two arguments has no operator of member reads.

**Proof sketch.** One case for each form of a call of two arguments: it is an operation, a test
behind its operand, or code without an operator at its top level. -/
lemma keyFree_binary {form : CallForm} (hform : form.isBinary = true) (name : String)
    (t u result : Ty) (a b : Part) : KeyFree (form.binary name t u result a b) := by
  cases form with
  | shared form =>
    cases form with
    | infixOp op => exact keyFree_infixed hform _ _
    | enclosed opening inner closing op =>
      rw [CallForm.binary]
      split_ifs <;> exact keyFree_of_none rfl
    | _ => cases hform
  | operator op =>
    rw [CallForm.binary]
    split_ifs
    · exact keyFree_of_none rfl
    · exact keyFree_infixed hform _ _
  | wide op => exact keyFree_infixed hform _ _
  | connective op => exact keyFree_infixed hform _ _
  | nullTest place test =>
    rw [CallForm.binary]
    generalize (if place = 0 then t else u) = tested
    generalize (if place = 0 then a.tree else b.tree) = x
    split_ifs
    · exact keyFree_of_none rfl
    · exact keyFree_of_some "IS" rfl (by decide)
  | dateShift dateFirst op =>
    simp only [CallForm.binary]
    split
    · exact keyFree_infixed hform _ _
    · exact keyFree_of_none rfl
  | field =>
    rw [CallForm.binary, fieldTree]
    split <;> exact keyFree_of_none rfl
  | _ => cases hform

/-- No lowered form has an operator of member reads at its top level: member reads are bracketed. -/
lemma keyFree_tree {ir : Ir} (h : ir.Operational) : KeyFree (scheme.tree ir) := by
  induction h with
  | literal | var | cond => exact keyFree_of_none rfl
  | @unary name h x hx ty result ihx =>
    exact Registry.tree_of_covers name [ty.tag] covers_unary h fun form hform =>
      keyFree_unary hform name ty ihx
  | @binary name h a b ha hb t u result iha ihb =>
    exact Registry.tree_of_covers name [t.tag, u.tag] covers_binary h fun form hform =>
      keyFree_binary hform name t u result _ _

/-- Keys of member reads bind alike, so that the first operand is written alike for both. -/
lemma wrapped_key (code : String) (op : Option String) :
    spelling.grammar.wrapped code op "->>" .left = spelling.grammar.wrapped code op "->" .left :=
  rfl

/-- The code of a member read. -/
lemma fragment_fieldTree (result : Ty) (object key : Tree) :
    (fieldTree result object key).fragment spelling.grammar =
      .atom (fieldCode result
        (spelling.grammar.wrapped (object.code spelling.grammar) object.op "->" .left)
        (key.code spelling.grammar)) := by
  have harrow : " " ++ "->" ++ " " = " -> " := by decide
  have hlong : " " ++ "->>" ++ " " = " ->> " := by decide
  unfold fieldTree fieldCode
  generalize column? result = c
  rcases c with - | column
  · simp only [Tree.fragment, Tree.code, Inside.code, Tree.op, ← harrow, Fragment.atom,
      String.append_assoc]
  · cases column <;> simp only [Tree.fragment, Tree.code, Inside.code, Tree.op, ← harrow, ← hlong,
      wrapped_key, Fragment.atom, cast, castEnd, String.append_assoc]

/-- The bracketed pair of a member read. -/
lemma legible_bare {a b : Part} (ha : a.tree.Legible spelling.grammar)
    (hb : b.tree.Legible spelling.grammar) (hkey : KeyFree b.tree) {op closing : String}
    (hop : op ∈ keyOps)
    (hclosing : spelling.grammar.IsPiece .round closing (.closing closing)) :
    (Inside.bare op a.tree b.tree closing).Legible spelling.grammar .round := by
  have hspelled : ∀ op ∈ keyOps, spelling.hasInfix op = true ∧
      spelling.table.get? op = some (12, .left) := by decide
  obtain ⟨hspelling, hentry⟩ := hspelled op hop
  obtain ⟨hne, hcontinuation, -⟩ := Clear.legible_infixed clear hspelling ha hb
  exact ⟨hclosing, ⟨12, hentry⟩, hne, hkey op hop, hcontinuation, ha, hb⟩

section Binary

variable {o p : Operand} {a b : Part} (ho : o.Stands scheme spelling.grammar a)
  (hp : p.Stands scheme spelling.grammar b)

include ho hp

/-- Writing a member read gives the code of its tree. -/
lemma shows_field (name : String) (t u result : Ty) :
    (CallForm.field.emit ⟨name, [o, p], [t, u], result⟩).Shows spelling.grammar
      (fieldTree result a.tree b.tree) := by
  have hkey : KeyFree b.tree := hp.tree ▸ keyFree_tree hp.operational
  have hbare {op closing : String} (hop : op ∈ keyOps)
      (hclosing : spelling.grammar.IsPiece .round closing (.closing closing)) :
      (Inside.bare op a.tree b.tree closing).Legible spelling.grammar .round :=
    legible_bare ho.shows.legible hp.shows.legible hkey hop hclosing
  have hparen : spelling.grammar.IsOpening "(" .round := Clear.isOpening clear (Clear.paren clear)
  have hlegible : (fieldTree result a.tree b.tree).Legible spelling.grammar := by
    unfold fieldTree
    split
    · exact ⟨.round, hparen, hbare (by decide) (Clear.isPiece_closing clear)⟩
    · exact ⟨.round, hparen, hbare (by decide) (Clear.isPiece_closing clear)⟩
    · exact ⟨.round, hparen, hbare (by decide) (Clear.isPiece_closing clear)⟩
    · exact ⟨.round, isOpening_cast, hbare (by decide) (isPiece_castEnd _)⟩
  refine ⟨?_, hlegible⟩
  refine (ho.shows.gives_wrapped "->" .left).bind (hp.shows.gives_code.bind ?_)
  rw [fragment_fieldTree]
  exact Emit.gives_pure _

/-- Writing the helper of a call of two arguments gives the code of its tree. -/
lemma shows_untypedTwo {name : String} (hname : name ∈ binaryNames) (t u result : Ty) :
    (untyped ⟨name, [o, p], [t, u], result⟩).Shows spelling.grammar (untypedTwo name a b) := by
  have hsnake := isName_snake name (List.mem_append_right _ hname)
  refine ⟨?_, Clear.legible_call_two clear _ hsnake (legible_jsonbTree ho) (legible_jsonbTree hp)⟩
  have hlast : (jsonbs [p]).Gives [(jsonbTree b).code spelling.grammar] :=
    (gives_jsonb hp).bind ((Emit.gives_pure _).bind (Emit.gives_pure _))
  have hargs : (jsonbs [o, p]).Gives
      [(jsonbTree a).code spelling.grammar, (jsonbTree b).code spelling.grammar] :=
    (gives_jsonb ho).bind (hlast.bind (Emit.gives_pure _))
  refine (Emit.gives_require _).bind (hargs.bind ?_)
  have hlist (x y : String) : commaSeparated [x, y] = x ++ ", " ++ y := rfl
  simp only [Tree.fragment, untypedTwo, Tree.code, Inside.code, Tree.op, hlist,
    ← String.append_assoc]
  exact Emit.gives_pure _

/-- Writing an operation between two texts gives the code of its tree. -/
lemma shows_enclosed {opening closing op : String}
    (hform : CallForm.isBinary (.shared (.enclosed opening (.infixOp op) closing none)) = true)
    (name : String) (t u result : Ty) :
    ((Form.enclosed opening (.infixOp op) closing none).emit precedence
        ⟨name, [o, p], [t, u], result⟩).Shows spelling.grammar
      (CallForm.binary name t u result a b (.shared (.enclosed opening (.infixOp op) closing none)))
    := by
  simp only [CallForm.isBinary, Bool.and_eq_true, Bool.or_eq_true, beq_iff_eq] at hform
  have hspelling : spelling.hasBinary (.infixOp op) = true := by
    have hop := hform.1
    simp only [isOperator, Bool.and_eq_true] at hop
    exact hop.1
  obtain ⟨hgives, hlegible⟩ :=
    Form.shows_binary clear hspelling ho.shows hp.shows name t u result
  obtain ⟨-, ⟨rfl, rfl⟩ | ⟨rfl, rfl⟩⟩ := hform
  · refine ⟨hgives.bind ?_, .round, isOpening_cast, isPiece_castEnd .bigint, hlegible⟩
    rw [String.append_assoc]
    exact Emit.gives_pure _
  · have hdays : (Tree.leaf "days").Legible spelling.grammar := Clear.isLeaf_name clear (by decide)
    have hmark : spelling.grammar.IsPiece .round " => " (.separator " => ") :=
      Clear.isPiece clear (e := (" => ", .separator " => ")) (by decide)
    refine ⟨hgives.bind ?_, .round, Clear.isOpening_call clear "make_interval" (by decide), hmark, hdays,
      Clear.isPiece_closing clear, hlegible⟩
    rw [String.append_assoc]
    exact Emit.gives_pure _

omit ho hp

/-- Writing a test behind its operand gives the code of its tree. -/
lemma shows_test {x : Tree} (h : o.Shows spelling.grammar x) {test : String}
    (htest : test ∈ tests) :
    (do
      let value ← o.wrapped precedence "IS" .left
      return .operation (value ++ " " ++ test) "IS" : Emit Fragment).Shows spelling.grammar
      (.suffixed "IS" (" " ++ test) x) := by
  have hentry : (spelling.table.get? "IS").isSome = true := by decide
  have hspelled : spelling.grammar.IsContinuation (" " ++ test) (.suffixed "IS" (" " ++ test)) :=
    Clear.isContinuation clear (e := (" " ++ test, .suffixed "IS" (" " ++ test)))
      (List.mem_append_right _ (List.mem_map_of_mem htest)) hentry
  refine ⟨(h.gives_wrapped "IS" .left).bind ?_, hspelled, h.legible⟩
  rw [String.append_assoc]
  exact Emit.gives_pure _

/-- Writing a shifted date gives the code of its tree. -/
lemma shows_shift (ho : o.Stands scheme spelling.grammar a)
    (hp : p.Stands scheme spelling.grammar b) {op : String} (hop : isOperator op = true) :
    (do
      let lhs ← o.wrapped precedence op .left
      match p.ir.literal?.bind Temporal.literalDays? with
      | some days => return .operation (lhs ++ " " ++ op ++ " " ++ toString days) op
      | none =>
        let rhs ← p.wrapped precedence op .right
        return .atom (cast (lhs ++ " " ++ op ++ " " ++ rhs) .date) : Emit Fragment).Shows
      spelling.grammar
      (match b.ir.literal?.bind Temporal.literalDays? with
      | some days => .infixed op a.tree (.leaf (toString days))
      | none => castTree (.infixed op a.tree b.tree) .date) := by
  have hlhs := ho.shows.gives_wrapped op .left
  rw [hp.ir]
  cases b.ir.literal?.bind Temporal.literalDays? with
  | some days =>
    refine ⟨hlhs.bind (Emit.gives_pure _), legible_infixed hop ho.shows.legible ?_⟩
    exact Clear.isLeaf_numeral clear (isNumeral_toString_nat days)
  | none =>
    refine ⟨hlhs.bind ((hp.shows.gives_wrapped op .right).bind ?_),
      legible_castTree (legible_infixed hop ho.shows.legible hp.shows.legible) .date⟩
    rw [fragment_castTree]
    exact Emit.gives_pure _

include ho hp

/-- Writing a call of two arguments gives the code of its tree.

**Proof sketch.** By cases on the form: an infix operator between the wrapped operands (`hinfixed`),
the untyped function where an operand has type `any`, and the lemma of the tree for every other
form. A null test looks at one of its two operands only, so its place is split. -/
lemma shows_binary {form : CallForm} (hform : form.isBinary = true) {name : String}
    (hname : name ∈ binaryNames) (t u result : Ty) :
    (form.emit ⟨name, [o, p], [t, u], result⟩).Shows spelling.grammar
      (form.binary name t u result a b) := by
  have hinfixed {op : String} (hop : isOperator op = true) :
      ((Form.infixOp op).emit precedence ⟨name, [o, p], [t, u], result⟩).Shows spelling.grammar
        (.infixed op a.tree b.tree) := by
    refine ⟨?_, legible_infixed hop ho.shows.legible hp.shows.legible⟩
    exact (ho.shows.gives_wrapped op .left).bind
      ((hp.shows.gives_wrapped op .right).bind (Emit.gives_pure _))
  cases form with
  | shared form =>
    cases form with
    | infixOp op => exact hinfixed hform
    | enclosed opening inner closing op =>
      cases inner with
      | infixOp op' =>
        cases op with
        | none => exact shows_enclosed ho hp hform name t u result
        | some key => cases hform
      | _ => cases hform
    | _ => cases hform
  | operator op =>
    simp only [CallForm.emit, CallForm.binary, List.any_cons, List.any_nil, Bool.or_false]
    split_ifs
    · exact shows_untypedTwo ho hp hname t u result
    · exact hinfixed hform
  | wide op =>
    have hrhs := hp.shows.gives_wrapped op .right
    simp only [CallForm.emit, CallForm.binary, Site.operand, List.getD_cons_zero,
      List.getD_cons_succ, ho.ir, hp.ir]
    split_ifs
    · refine ⟨ho.shows.gives_code.bind ((Emit.gives_pure _).bind (hrhs.bind ?_)),
        legible_infixed hform (legible_castTree ho.shows.legible .bigint) hp.shows.legible⟩
      rw [← code_castTree]
      exact Emit.gives_pure _
    · exact ⟨(ho.shows.gives_wrapped op .left).bind (hrhs.bind (Emit.gives_pure _)),
        legible_infixed hform ho.shows.legible hp.shows.legible⟩
  | connective op =>
    obtain ⟨hlhs, hlhs'⟩ := shows_truth ho
    obtain ⟨hrhs, hrhs'⟩ := shows_truth hp
    exact ⟨hlhs.bind (hrhs.bind (Emit.gives_pure _)), legible_infixed hform hlhs' hrhs'⟩
  | nullTest place test =>
    simp only [CallForm.isBinary, Bool.and_eq_true, decide_eq_true_eq] at hform
    have hsite : (⟨name, [o, p], [t, u], result⟩ : Site).argType place =
        if place = 0 then t else u := by
      obtain rfl | rfl : place = 0 ∨ place = 1 := by omega
      · rfl
      · rfl
    rw [CallForm.emit, CallForm.binary, hsite]
    by_cases hany : (if place = 0 then t else u).isAny = true
    · rw [if_pos hany, if_pos hany]
      exact shows_untypedTwo ho hp hname t u result
    · rw [if_neg hany, if_neg hany]
      obtain rfl | rfl : place = 0 ∨ place = 1 := by omega
      · exact shows_test ho.shows hform.2
      · exact shows_test hp.shows hform.2
  | dateShift dateFirst op =>
    cases dateFirst with
    | true => exact shows_shift ho hp hform
    | false => exact shows_shift hp ho hform
  | field => exact shows_field ho hp name t u result
  | _ => cases hform

end Binary

/-! ## The target -/

/-- Writing lowered forms gives the code of their trees. -/
theorem writes : scheme.Writes target spelling where
  literal := shows_literal
  variableCode h := ⟨rfl, isLeaf_identifier h⟩
  conditional ty h₁ h₂ h₃ := by
    obtain ⟨htest, htest'⟩ := shows_truth h₁
    have hpieces : ∀ e ∈ spelling.pieces .choice, spelling.grammar.IsPiece .choice e.1 e.2 :=
      fun e he => Clear.isPiece clear he
    refine ⟨htest.bind ((gives_branch h₂ ty).bind ((gives_branch h₃ ty).bind ?_)), .choice,
      Clear.isOpening clear (e := ("CASE WHEN ", .choice)) (by decide),
      hpieces (" THEN ", .separator " THEN ") (by decide), htest',
      hpieces (" ELSE ", .separator " ELSE ") (by decide), legible_branchTree h₂ ty,
      hpieces (" END", .closing " END") (by decide), legible_branchTree h₃ ty⟩
    simp only [Tree.fragment, scheme, Tree.code, Inside.code, Tree.op, ← String.append_assoc]
    exact Emit.gives_pure _
  unary ty result hname ho :=
    Registry.shows_call ⟨_, [_], [ty], result⟩ covers_unary hname fun _ hform =>
      shows_unary ho hform hname ty result
  binary t u result hname ho hp :=
    Registry.shows_call ⟨_, [_, _], [t, u], result⟩ covers_binary hname fun _ hform =>
      shows_binary ho hp hform hname t u result

end Retarget.Sql
