import Mathlib
import Retarget.Proofs.Quoting.Constants

set_option autoImplicit false

/-!
# Widths of integers in SQL

The database gives integer constants and lengths a narrow type, in which sums, differences and products
overflow long before the integers of the language do. Such an operation is widened where both of its
operands look narrow. The look misses operands whose narrow type comes from a quotient, a remainder,
an absolute value, a conditional, an item of an array, a selector or a name bound to one of these.

## Main definitions

* `Retarget.Sql.Term` — code with the structure that decides its type, and `Term.type`, the type that
  the database gives to it.
* `Retarget.Sql.term` — the structure of the code of a lowered form.
* `Retarget.Sql.Plain` — operands made of constants, lengths, signs, sums, differences, products and
  names bound to these.

## Main results

* `Retarget.Sql.fragment_term` — the structure spells the code that is written.
* `Retarget.Sql.narrow_operands_iff` — the operands of a written sum, difference or product are both
  narrow exactly where both are and one does not look it.
-/

namespace Retarget.Sql

open Quoting

/-! ## Types of the database -/

/-- The types of the database, as far as they matter for the width of integers. -/
inductive Width
  /-- The integers of 32 bits. -/
  | integer
  /-- The integers of 64 bits. -/
  | bigint
  /-- The type of a null constant, which takes on any other type. -/
  | null
  | array (item : Width)
  /-- Any type that is none of these. -/
  | other
deriving DecidableEq, Repr

namespace Width

/-- The type of two integers under an operator: wide as soon as one of them is. -/
def arithmetic : Width → Width → Width
  | .integer, .integer => .integer
  | .integer, .bigint | .bigint, .integer | .bigint, .bigint => .bigint
  | _, _ => .other

/-- The common type of two branches or items. -/
def common : Width → Width → Width
  | .null, b => b
  | a, .null => a
  | a, b => if a = b then a else a.arithmetic b

/-- The type of an item of an array. -/
def item : Width → Width
  | .array item => item
  | _ => .other

/-- The type of an operation by its operator: of the arithmetic ones, or of arrays in a row. -/
def operation (op : String) (a b : Width) : Width :=
  if op ∈ ["+", "-", "*", "/", "%"] then a.arithmetic b
  else if op = "||" then .array (a.item.common b.item)
  else .other

/-- The type of a call by the text in front of its arguments: lengths are narrow, an absolute value has
the type of its argument, and an array is one of the common type of its items. -/
def sequence (opening : String) (items : List Width) : Width :=
  if opening ∈ ["LENGTH(", "cardinality("] then .integer
  else if opening = "ABS(" then items.foldr common .null
  else if opening = "ARRAY[" then .array (items.foldr common .null)
  else .other

/-- The type of code between two pieces of text: parentheses keep it, a place behind them reads an
item, and a cast to the wide integers is wide. -/
def enclosed (opening closing : String) (inner : Width) : Width :=
  if opening = "(" ∧ closing = ")" then inner
  else if opening = "(" ∧ closing = ")[1]" then inner.item
  else if opening = "CAST(" ∧ closing = " AS BIGINT)" then .bigint
  else .other

/-- A sum, a difference or a product is narrow where both operands are. -/
lemma operation_eq_integer {op : String} {a b : Width} (hop : op ∈ ["+", "-", "*"]) :
    operation op a b = .integer ↔ a = .integer ∧ b = .integer := by
  have harithmetic : op ∈ ["+", "-", "*", "/", "%"] := by
    simp only [List.mem_cons, List.not_mem_nil, or_false] at hop ⊢
    tauto
  rw [operation, if_pos harithmetic]
  cases a <;> cases b <;> simp [arithmetic]

end Width

/-! ## Structure of code -/

/-- Code with the structure that decides its type. -/
inductive Term
  /-- Code of which only the text is known, with the operator at its top level. -/
  | other (code : String) (op : Option String)
  /-- An integer constant. -/
  | numeral (v : Int)
  | null
  /-- An operator between two operands. -/
  | operation (op : String) (lhs rhs : Term)
  | negated (operand : Term)
  /-- Arguments with commas between them, between two pieces of text. -/
  | sequence (opening : String) (items : List Term) (closing : String)
  /-- Code between two pieces of text. -/
  | enclosed (opening : String) (inner : Term) (closing : String) (op : Option String)
  /-- The last item of an array. -/
  | lastItem (items : Term)
  | choice (test : String) (yes no : Term)

namespace Term

mutual

/-- The text of the code. -/
def text : Term → String
  | .other code _ => code
  | .numeral v => toString v
  | .null => "NULL"
  | .operation op lhs rhs => lhs.text ++ " " ++ op ++ " " ++ rhs.text
  | .negated operand => "-" ++ operand.text
  | .sequence opening items closing => opening ++ commaSeparated (texts items) ++ closing
  | .enclosed opening inner closing _ => opening ++ inner.text ++ closing
  | .lastItem items => "(" ++ items.text ++ ")[cardinality(" ++ items.text ++ ")]"
  | .choice test yes no => "CASE WHEN " ++ test ++ " THEN " ++ yes.text ++ " ELSE " ++ no.text ++ " END"

/-- The texts of a row of codes. -/
def texts : List Term → List String
  | [] => []
  | t :: ts => t.text :: texts ts

end

/-- The operator at the top level of the code. -/
def op : Term → Option String
  | .other _ op | .enclosed _ _ _ op => op
  | .operation op _ _ => some op
  | .negated _ => some "u-"
  | _ => none

mutual

/-- The type that the database gives to the code. -/
def type : Term → Width
  | .other _ _ => .other
  | .numeral v => if v ≤ 2147483647 then .integer else .bigint
  | .null => .null
  | .operation op lhs rhs => .operation op lhs.type rhs.type
  | .negated operand => operand.type
  | .sequence opening items _ => .sequence opening (types items)
  | .enclosed opening inner closing _ => .enclosed opening closing inner.type
  | .lastItem items => items.type.item
  | .choice _ yes no => yes.type.common no.type

/-- The types that the database gives to a row of codes. -/
def types : List Term → List Width
  | [] => []
  | t :: ts => t.type :: types ts

end

/-- The code as it is written in other code. -/
def fragment (t : Term) : Fragment := ⟨t.text, t.op⟩

/-- The code in parentheses. -/
def parens (t : Term) : Term := .enclosed "(" t ")" none

/-- The code cast to the wide integers. -/
def wide (t : Term) : Term := .enclosed "CAST(" t " AS BIGINT)" none

/-- The code as it is written on a side of an operator. -/
def wrapped (t : Term) (outer : String) (side : Side) : Term :=
  if precedence.needsParens t.op outer side then t.parens else t

/-- Code in other code keeps its text. -/
@[simp] lemma fragment_code (t : Term) : t.fragment.code = t.text := rfl

/-- Parentheses keep the type. -/
@[simp] lemma type_parens (t : Term) : t.parens.type = t.type := by
  simp [parens, type, Width.enclosed]

/-- A cast to the wide integers is wide. -/
@[simp] lemma type_wide (t : Term) : t.wide.type = .bigint := by
  simp [wide, type, Width.enclosed]

/-- The side of an operator does not matter for the type. -/
@[simp] lemma type_wrapped (t : Term) (outer : String) (side : Side) :
    (t.wrapped outer side).type = t.type := by
  unfold wrapped
  split_ifs
  · exact type_parens t
  · rfl

/-- The text of a cast to the wide integers. -/
lemma text_wide (t : Term) : t.wide.text = cast t.text .bigint := by
  change "CAST(" ++ t.text ++ " AS BIGINT)" = _
  simp only [cast, Column.code, String.append_assoc]
  rfl

/-- The text on a side of an operator has parentheses where the precedence table asks for them. -/
lemma text_wrapped (t : Term) (outer : String) (side : Side) :
    (t.wrapped outer side).text = precedence.wrap t.fragment outer side := by
  unfold wrapped PrecedenceTable.wrap
  change (if precedence.needsParens t.fragment.op outer side = true then _ else _ : Term).text = _
  split_ifs <;> rfl

end Term

/-! ## The structure of written code -/

/-- The names of the structures that stand for them. -/
abbrev Terms := List (String × Term)

/-- The codes that the names stand for. -/
def Terms.names (env : Terms) : Bindings := env.map fun p => (p.1, p.2.fragment)

/-- A name stands for the code of its structure. -/
lemma lookup_names (env : Terms) (name : String) :
    env.names.lookup name = (env.lookup name).map Term.fragment := by
  induction env with
  | nil => rfl
  | cons p env ih =>
    rw [Terms.names, List.map_cons, List.lookup_cons, List.lookup_cons]
    cases name == p.1 with
    | true => rfl
    | false => exact ih

/-- What is written, as code of which only the text is known. -/
def opaqueTerm (m : Emit Fragment) (names : Bindings) : Term :=
  match (m names).outcome with
  | .ok fragment => .other fragment.code fragment.op
  | .error _ => .null

/-- The structure of what stands for a bound name. -/
def substitutedTerm (value : Ir) (t : Term) : Term :=
  if isNarrow value then t.wide else if t.op.isSome then t.parens else t

/-- The structure of a call in a form, by its arguments and their structures; `whole` is the call as
code of which only the text is known. -/
def callTerm (form : CallForm) (argTypes : List Ty) (args : List (Ir × Term)) (whole : Term) : Term :=
  match form, args with
  | .wide op, [(a, s), (b, t)] =>
    .operation op (if isNarrow a && isNarrow b then s.wide else s.wrapped op .left)
      (t.wrapped op .right)
  | .operator op, [(_, s), (_, t)] =>
    if argTypes.any Ty.isAny then whole
    else .operation op (s.wrapped op .left) (t.wrapped op .right)
  | .shared (.infixOp op), [(_, s), (_, t)] =>
    .operation op (s.wrapped op .left) (t.wrapped op .right)
  | .negation, [(_, t)] =>
    if (argTypes.getD 0 .any).isAny then whole else .negated (t.wrapped "u-" .right)
  | .shared .identity, (_, t) :: _ => t
  | .shared (.enclosed opening .identity closing op), (_, t) :: _ => .enclosed opening t closing op
  | .shared (.sequence opening closing), args => .sequence opening (args.map Prod.snd) closing
  | .lastItem, (_, t) :: _ => .lastItem t
  | _, _ => whole

mutual

/-- The structure of the code of a lowered form, where the names stand for structures. -/
def term (env : Terms) : Ir → Term
  | .literal (.int v) _ => .numeral v
  | .literal .null _ => .null
  | .var name _ => (env.lookup name).getD (.other (identifier name) none)
  | .letIn bindings body _ => term (boundTerms env bindings) body
  | .cond test yes no ty =>
    if ty.isAny then opaqueTerm (target.fragment (.cond test yes no ty)) env.names
    else
      .choice (opaqueTerm (coerce (target.operand test) .boolean) env.names).text (term env yes)
        (term env no)
  | .call name args argTypes ty =>
    let whole := opaqueTerm (target.fragment (.call name args argTypes ty)) env.names
    match registry.lookup name (argTypes.map Ty.tag) with
    | .ok form => callTerm form argTypes (args.zip (argTerms env args)) whole
    | .error _ => whole
  | .literal value ty => opaqueTerm (target.fragment (.literal value ty)) env.names
  | .lambda params body ty => opaqueTerm (target.fragment (.lambda params body ty)) env.names
  | .alternative candidates ty =>
    opaqueTerm (target.fragment (.alternative candidates ty)) env.names

/-- The structures of a row of lowered forms. -/
def argTerms (env : Terms) : List Ir → List Term
  | [] => []
  | ir :: irs => term env ir :: argTerms env irs

/-- The names with those of the bindings, each of which sees those before it. -/
def boundTerms (env : Terms) : List (String × Ir) → Terms
  | [] => env
  | (name, value) :: rest =>
    boundTerms ((name, substitutedTerm value (term env value)) :: env) rest

end

/-! ## The structure spells the code -/

/-- The structure spells what is written for the lowered form. -/
def Spells (names : Bindings) (ir : Ir) (t : Term) : Prop :=
  ∀ fragment, (target.fragment ir).Succeeds names fragment → t.fragment = fragment

section Spelled

variable {names : Bindings} {fragment : Fragment}

/-- Code of which only the text is known is the code that is written. -/
lemma fragment_opaqueTerm {m : Emit Fragment} (h : m.Succeeds names fragment) :
    (opaqueTerm m names).fragment = fragment := by
  unfold opaqueTerm
  rw [show (m names).outcome = .ok fragment from h]
  rfl

/-- A structure that spells a lowered form has the text of its code. -/
lemma Spells.code {ir : Ir} {t : Term} (h : Spells names ir t) {code : String}
    (hcode : (target.operand ir).code.Succeeds names code) : t.text = code := by
  simp only [Operand.code, Emit.succeeds_bind, Emit.succeeds_pure] at hcode
  obtain ⟨fragment, hfragment, rfl⟩ := hcode
  exact congrArg Fragment.code (h fragment hfragment)

/-- A structure that spells a lowered form has the text of its code on a side of an operator. -/
lemma Spells.wrapped {ir : Ir} {t : Term} (h : Spells names ir t) {outer code : String} {side : Side}
    (hcode : ((target.operand ir).wrapped precedence outer side).Succeeds names code) :
    (t.wrapped outer side).text = code := by
  simp only [Operand.wrapped, Emit.succeeds_bind, Emit.succeeds_pure] at hcode
  obtain ⟨fragment, hfragment, rfl⟩ := hcode
  rw [Term.text_wrapped, h fragment hfragment]

/-- Structures that spell a row of lowered forms have the texts of their codes. -/
lemma texts_eq_of_codes {pairs : List (Ir × Term)} (hpairs : ∀ p ∈ pairs, Spells names p.1 p.2)
    {cs : List String}
    (h : (codes (Target.operands target (pairs.map Prod.fst))).Succeeds names cs) :
    Term.texts (pairs.map Prod.snd) = cs := by
  induction pairs generalizing cs with
  | nil => exact Emit.succeeds_pure.mp h
  | cons p pairs ih =>
    obtain ⟨hp, hrest⟩ := List.forall_mem_cons.mp hpairs
    simp only [List.map_cons, Target.operands, codes, Emit.succeeds_bind, Emit.succeeds_pure] at h
    obtain ⟨c, hc, cs, hcs, rfl⟩ := h
    rw [List.map_cons, Term.texts, hp.code hc, ih hrest hcs]

/-- An operator between two operands. -/
lemma fragment_infixed {a b : Ir} {s t : Term} (hs : Spells names a s) (ht : Spells names b t)
    {op name : String} {argTypes : List Ty} {ty : Ty}
    (h : ((Form.infixOp op).emit precedence
      ⟨name, Target.operands target [a, b], argTypes, ty⟩).Succeeds names fragment) :
    (Term.operation op (s.wrapped op .left) (t.wrapped op .right)).fragment = fragment := by
  simp only [Form.emit, Site.operand, Target.operands, List.getD_cons_zero, List.getD_cons_succ,
    Emit.succeeds_bind, Emit.succeeds_pure] at h
  obtain ⟨lhs, hlhs, rhs, hrhs, rfl⟩ := h
  rw [← hs.wrapped hlhs, ← ht.wrapped hrhs]
  rfl

/-- The structure of a call spells what its form writes.

**Proof sketch.** One case for each row of the definition of `callTerm`: the structures of the
arguments have the texts of their codes, and the structure of the call puts them together as its
form does. Where no row applies the structure is the code as a whole. -/
lemma fragment_callTerm {form : CallForm} (name : String) {argTypes : List Ty} (ty : Ty)
    {pairs : List (Ir × Term)} {whole : Term} (hpairs : ∀ p ∈ pairs, Spells names p.1 p.2)
    (hwhole : whole.fragment = fragment)
    (h : (form.emit ⟨name, Target.operands target (pairs.map Prod.fst), argTypes, ty⟩).Succeeds
      names fragment) : (callTerm form argTypes pairs whole).fragment = fragment := by
  unfold callTerm
  split
  · rename_i op a s b t
    have hs : Spells names a s := hpairs (a, s) (by simp)
    have ht : Spells names b t := hpairs (b, t) (by simp)
    simp only [CallForm.emit, Site.operand, Target.operands, List.map_cons, List.map_nil,
      List.getD_cons_zero, List.getD_cons_succ] at h
    split_ifs at h ⊢
    · simp only [Emit.succeeds_bind, Emit.succeeds_pure, exists_eq_left'] at h
      obtain ⟨lhs, hlhs, rhs, hrhs, rfl⟩ := h
      rw [← hs.code hlhs, ← ht.wrapped hrhs, ← Term.text_wide]
      rfl
    · simp only [Emit.succeeds_bind, Emit.succeeds_pure] at h
      obtain ⟨lhs, hlhs, rhs, hrhs, rfl⟩ := h
      rw [← hs.wrapped hlhs, ← ht.wrapped hrhs]
      rfl
  · rename_i op a s b t
    simp only [CallForm.emit] at h
    split_ifs at h ⊢
    · exact hwhole
    · exact fragment_infixed (hpairs (a, s) (by simp)) (hpairs (b, t) (by simp)) h
  · rename_i op a s b t
    exact fragment_infixed (hpairs (a, s) (by simp)) (hpairs (b, t) (by simp)) h
  · rename_i a t
    have ht : Spells names a t := hpairs (a, t) (by simp)
    simp only [CallForm.emit] at h
    split_ifs at h with hsite
    · have hany : (argTypes.getD 0 .any).isAny = true := hsite
      rwa [if_pos hany]
    · have hany : ¬(argTypes.getD 0 .any).isAny = true := hsite
      rw [if_neg hany]
      simp only [Form.emit, Site.operand, Target.operands, List.map_cons, List.getD_cons_zero,
        Emit.succeeds_bind, Emit.succeeds_pure] at h
      obtain ⟨operand, hoperand, rfl⟩ := h
      rw [← ht.wrapped hoperand]
      rfl
  -- A form that writes its argument as it is.
  · rename_i a t rest
    exact hpairs (a, t) (by simp) fragment h
  · rename_i opening closing op a t rest
    have ht : Spells names a t := hpairs (a, t) (by simp)
    simp only [CallForm.emit, Form.emit, Site.operand, Target.operands, List.map_cons,
      List.getD_cons_zero, Emit.succeeds_bind, Emit.succeeds_pure] at h
    obtain ⟨inner, hinner, rfl⟩ := h
    rw [← ht inner hinner]
    rfl
  · rename_i opening closing
    simp only [CallForm.emit, Form.emit, codeList, Emit.succeeds_bind, Emit.succeeds_pure] at h
    obtain ⟨row, ⟨cs, hcs, rfl⟩, rfl⟩ := h
    rw [← texts_eq_of_codes hpairs hcs]
    rfl
  · rename_i a t rest
    have ht : Spells names a t := hpairs (a, t) (by simp)
    simp only [CallForm.emit, Site.operand, Target.operands, List.map_cons, List.getD_cons_zero,
      Emit.succeeds_bind, Emit.succeeds_pure] at h
    obtain ⟨items, hitems, rfl⟩ := h
    rw [← ht.code hitems]
    rfl
  · exact hwhole

/-- The structure of what stands for a bound name. -/
lemma fragment_substitutedTerm (value : Ir) {t : Term} (h : t.fragment = fragment) :
    (substitutedTerm value t).fragment = substituted value fragment := by
  subst h
  unfold substitutedTerm substituted
  change (if _ then _ else if t.fragment.op.isSome = true then _ else _ : Term).fragment = _
  split_ifs
  · exact congrArg (Fragment.mk · none) t.text_wide
  · rfl
  · rfl

/-- Every argument has a structure. -/
lemma map_fst_zip_argTerms (env : Terms) (args : List Ir) :
    (args.zip (argTerms env args)).map Prod.fst = args := by
  induction args with
  | nil => rfl
  | cons a args ih =>
    rw [argTerms, List.zip_cons_cons, List.map_cons, ih]

end Spelled

mutual

/-- The structure of a lowered form spells the code that is written for it.

**Proof sketch.** Recursion over the lowered form, as `term` is defined. Code of which only the text
is known is the code as a whole. A name has the code of its structure, bindings write their body
where their names have structures, a conditional of a known type puts the codes of its branches
together, and a call follows its form. -/
theorem fragment_term : ∀ (ir : Ir) (env : Terms), Spells env.names ir (term env ir)
  | .literal (.int _) _, _, _, h | .literal .null _, _, _, h => Emit.succeeds_pure.mp h
  | .literal (.float _) _, _, _, h | .literal (.bool _) _, _, _, h
  | .literal (.string _) _, _, _, h | .literal (.date _) _, _, _, h
  | .literal (.dateTime _) _, _, _, h | .literal (.duration _) _, _, _, h
  | .lambda _ _ _, _, _, h | .alternative _ _, _, _, h => fragment_opaqueTerm h
  | .var name ty, env, fragment, h => by
    have hlookup : (env.names.lookup name).getD (target.variableCode name) = fragment := by
      simpa only [Target.fragment, Emit.succeeds_bind, Emit.succeeds_lookup, Emit.succeeds_pure,
        exists_eq_left'] using h
    rw [lookup_names] at hlookup
    rw [term]
    cases hname : env.lookup name with
    | none =>
      rw [hname] at hlookup
      exact hlookup
    | some t =>
      rw [hname] at hlookup
      exact hlookup
  | .letIn bindings body _, env, fragment, h => by
    rw [term]
    exact fragment_boundTerms bindings env (fragment_term body) h
  | .cond test yes no ty, env, fragment, h => by
    rw [term]
    split_ifs with hany
    · exact fragment_opaqueTerm h
    · have hwritten : (target.conditional (target.operand test) (target.operand yes)
          (target.operand no) ty).Succeeds env.names fragment := h
      simp only [target, branch, hany, Bool.false_eq_true, ↓reduceIte, Emit.succeeds_bind,
        Emit.succeeds_pure] at hwritten
      obtain ⟨condition, hcondition, y, hy, n, hn, rfl⟩ := hwritten
      rw [← (fragment_term yes env).code hy, ← (fragment_term no env).code hn,
        ← congrArg Fragment.code (fragment_opaqueTerm hcondition)]
      rfl
  | .call name args argTypes ty, env, fragment, h => by
    have hwhole := fragment_opaqueTerm h
    obtain ⟨form, hlookup, hform⟩ := Registry.exists_of_call h
    rw [term]
    simp only [Site.tags] at hlookup
    simp only [hlookup]
    refine fragment_callTerm name ty (spells_argTerms args env) hwhole ?_
    rw [map_fst_zip_argTerms]
    exact hform

/-- The structures of the arguments spell the codes that are written for them. -/
theorem spells_argTerms : ∀ (args : List Ir) (env : Terms),
    ∀ p ∈ args.zip (argTerms env args), Spells env.names p.1 p.2
  | [], _, _, hp => by cases hp
  | a :: args, env, p, hp => by
    rw [argTerms, List.zip_cons_cons] at hp
    rcases List.mem_cons.mp hp with rfl | hp
    · exact fragment_term a env
    · exact spells_argTerms args env p hp

/-- The names of bindings stand for the codes of their values. -/
theorem fragment_boundTerms : ∀ (bindings : List (String × Ir)) {body : Ir} (env : Terms),
    (∀ env : Terms, Spells env.names body (term env body)) → ∀ {fragment : Fragment},
      (bindIn (Target.boundOperands target bindings) (target.operand body)).Succeeds env.names
        fragment → (term (boundTerms env bindings) body).fragment = fragment
  | [], _, env, hbody, fragment, h => hbody env fragment h
  | (name, value) :: rest, _, env, hbody, fragment, h => by
    simp only [Target.boundOperands, bindIn, Emit.succeeds_bind, Emit.succeeds_binding] at h
    obtain ⟨inner, hinner, h⟩ := h
    have hvalue := fragment_term value env inner hinner
    rw [boundTerms]
    refine fragment_boundTerms rest _ hbody ?_
    rw [Terms.names, List.map_cons, fragment_substitutedTerm value hvalue]
    exact h

end

/-! ## Operands -/

/-- The structures of the values of names, each of which sees the names behind it. -/
def scopeTerms : List (String × Ir) → Terms
  | [] => []
  | (name, value) :: env =>
    (name, substitutedTerm value (term (scopeTerms env) value)) :: scopeTerms env

/-- The structures of bound values have the codes that the names stand for. -/
lemma names_scopeTerms {env : List (String × Ir)} {names : Bindings}
    (h : TargetKind.sql.Bound env names) : (scopeTerms env).names = names := by
  induction h with
  | nil => rfl
  | @cons env names name value fragment _ _ _ _ hfragment ih =>
    have hspelled : Spells (scopeTerms env).names value (term (scopeTerms env) value) :=
      fragment_term value (scopeTerms env)
    rw [ih] at hspelled
    have hvalue := fragment_substitutedTerm value (hspelled fragment hfragment)
    rw [scopeTerms, Terms.names, List.map_cons, hvalue]
    exact congrArg _ ih

/-- An operand of arithmetic that is made of constants, lengths, signs, sums, differences and
products, and names bound to such operands. -/
inductive Plain : List (String × Ir) → Ir → Prop
  | constant {env : List (String × Ir)} (v : Nat) (ty : Ty) : Plain env (.literal (.int v) ty)
  | length {env : List (String × Ir)} (args : List Ir) (argTypes : List Ty) (ty : Ty) :
      Plain env (.call "length" args argTypes ty)
  | sign {env : List (String × Ir)} {name : String} {a : Ir} (ty : Ty) : name ∈ ["neg", "pos"] →
      Plain env a → Plain env (.call name [a] [.int] ty)
  | arithmetic {env : List (String × Ir)} {name : String} {a b : Ir} (ty : Ty) :
      name ∈ ["add", "sub", "mul"] → Plain env a → Plain env b →
      Plain env (.call name [a, b] [.int, .int] ty)
  | use {env : List (String × Ir)} {value : Ir} (name : String) (ty : Ty) : Plain env value →
      Plain ((name, value) :: env) (.var name ty)
  | skip {env : List (String × Ir)} {name other : String} {value : Ir} (ty : Ty) : name ≠ other →
      Plain env (.var name ty) → Plain ((other, value) :: env) (.var name ty)

/-- The sums, differences and products, and their operators. -/
def arithmeticOps : List (String × String) := [("add", "+"), ("sub", "-"), ("mul", "*")]

/-- Sums, differences and products of integers are written in the form that widens an operand. -/
lemma lookup_arithmetic {name op : String} (h : (name, op) ∈ arithmeticOps) :
    registry.lookup name [.int, .int] = .ok (.wide op) := by
  simp only [arithmeticOps, List.mem_cons, Prod.mk.injEq, List.not_mem_nil, or_false] at h
  rcases h with ⟨rfl, rfl⟩ | ⟨rfl, rfl⟩ | ⟨rfl, rfl⟩ <;> rfl

/-- A sign in front of an integer keeps its width. -/
lemma type_sign {name : String} (h : name ∈ ["neg", "pos"]) (env : Terms) (a : Ir) (ty : Ty) :
    (term env (.call name [a] [.int] ty)).type = (term env a).type := by
  have hneg : registry.lookup "neg" ([Ty.int].map Ty.tag) = .ok .negation := rfl
  have hpos : registry.lookup "pos" ([Ty.int].map Ty.tag) = .ok (.shared .identity) := rfl
  simp only [List.mem_cons, List.not_mem_nil, or_false] at h
  rcases h with rfl | rfl
  · simp only [term, hneg, argTerms, List.zip_cons_cons, List.zip_nil_right, callTerm,
      List.getD_cons_zero, Ty.isAny, Bool.false_eq_true, ↓reduceIte, Term.type, Term.type_wrapped]
  · simp only [term, hpos, argTerms, List.zip_cons_cons, List.zip_nil_right, callTerm]

/-- The structure of a sum, difference or product of integers. -/
lemma term_arithmetic {name op : String} (h : (name, op) ∈ arithmeticOps) (env : Terms) (a b : Ir)
    (ty : Ty) : term env (.call name [a, b] [.int, .int] ty) =
      .operation op
        (if isNarrow a && isNarrow b then (term env a).wide else (term env a).wrapped op .left)
        ((term env b).wrapped op .right) := by
  have hlookup : registry.lookup name ([Ty.int, Ty.int].map Ty.tag) = .ok (.wide op) :=
    lookup_arithmetic h
  simp only [term, hlookup, argTerms, List.zip_cons_cons, List.zip_nil_right, callTerm]

/-- Both operands of a sum, difference or product are narrow exactly where they are in themselves and
one of them does not look it. -/
lemma narrow_operands {op : String} (s t : Term) (widened : Bool) :
    ((if widened then s.wide else s.wrapped op .left).type = .integer ∧
        (t.wrapped op .right).type = .integer) ↔
      s.type = .integer ∧ t.type = .integer ∧ ¬widened = true := by
  cases widened with
  | true => simp
  | false => simp

/-- The operators of sums, differences and products. -/
lemma mem_operators {name op : String} (h : (name, op) ∈ arithmeticOps) : op ∈ ["+", "-", "*"] := by
  simp only [arithmeticOps, List.mem_cons, Prod.mk.injEq, List.not_mem_nil, or_false] at h ⊢
  tauto

/-- A plain operand that is narrow looks it. -/
theorem isNarrow_of_plain {env : List (String × Ir)} {ir : Ir} (h : Plain env ir)
    (hnarrow : (term (scopeTerms env) ir).type = .integer) : isNarrow ir = true := by
  induction h with
  | constant v ty =>
    have hv : (v : Int) ≤ 2147483647 := by
      by_contra hlarge
      simp [term, Term.type, hlarge] at hnarrow
    simp only [isNarrow, Bool.and_eq_true, decide_eq_true_eq]
    omega
  | length args argTypes ty => simp [isNarrow]
  | @sign env name a ty hname _ ih =>
    rw [type_sign hname] at hnarrow
    have hsign : name = "neg" ∨ name = "pos" := by simpa using hname
    simp [isNarrow, hsign, allNarrow, ih hnarrow]
  | @arithmetic env name a b ty hname _ _ iha ihb =>
    obtain ⟨op, hop⟩ : ∃ op, (name, op) ∈ arithmeticOps := by
      simp only [List.mem_cons, List.not_mem_nil, or_false] at hname
      rcases hname with rfl | rfl | rfl
      · exact ⟨"+", by decide⟩
      · exact ⟨"-", by decide⟩
      · exact ⟨"*", by decide⟩
    rw [term_arithmetic hop, Term.type, Width.operation_eq_integer (mem_operators hop),
      narrow_operands] at hnarrow
    obtain ⟨ha, hb, hguess⟩ := hnarrow
    exact absurd (by rw [iha ha, ihb hb]; rfl) hguess
  | @use env value name ty _ ih =>
    -- What stands for the name is wide where the value looks narrow, and else as wide as the value.
    rw [term, scopeTerms, List.lookup_cons_self, Option.getD_some, substitutedTerm] at hnarrow
    split_ifs at hnarrow with hguess
    · simp at hnarrow
    · exact absurd (ih (by simpa using hnarrow)) hguess
    · exact absurd (ih hnarrow) hguess
  | @skip env name other value ty hne _ ih =>
    rw [term, scopeTerms, List.lookup_cons, beq_false_of_ne hne] at hnarrow
    exact ih (by rwa [term])

/-- A sum, difference or product of integers at the end of a way through the lowered form of a source
stands in the SQL code as an operator between two operands, written where the names stand for the codes
of the values bound around it. The database gives both operands the narrow type exactly where both have
it in themselves and one of them does not look it; this is never so where both operands are plain.

**Proof sketch.** The chart of the compiled code shows the call where its names are bound. What the call
is written as is the text of its term, an operation between the terms of its operands. An operand is
written as it is or widened, and it is widened unless one of the two does not look narrow. -/
theorem narrow_operands_iff {source : String} {form : OutputForm} {ir : Ir} {out : Compiled}
    (hsource : lowerSource source = .ok ir) (hcompile : compile source .sql form = .ok out)
    {name op : String} (hop : (name, op) ∈ arithmeticOps) {a b : Ir} {ty : Ty}
    {way : List Turn} {env : List (String × Ir)}
    (hway : TargetKind.sql.nodeAt way ⟨[], ir⟩ = some ⟨env, .call name [a, b] [.int, .int] ty⟩) :
    ∃ lhs rhs, term (scopeTerms env) (.call name [a, b] [.int, .int] ty) = .operation op lhs rhs ∧
      quoting.Within (lhs.text ++ " " ++ op ++ " " ++ rhs.text) out.code ∧
      (lhs.type = .integer ∧ rhs.type = .integer ↔
        (term (scopeTerms env) a).type = .integer ∧ (term (scopeTerms env) b).type = .integer ∧
          ¬(isNarrow a && isNarrow b) = true) ∧
      (Plain env a → Plain env b → ¬(lhs.type = .integer ∧ rhs.type = .integer)) := by
  obtain ⟨names, hbound, -, -, fragment, hfragment, hwithin⟩ :=
    TargetKind.shows_compile hsource hcompile hway
  have hterm := term_arithmetic hop (scopeTerms env) a b ty
  have hnames := names_scopeTerms hbound
  have hspelled : Spells names _ _ := hnames ▸ fragment_term (.call name [a, b] [.int, .int] ty)
    (scopeTerms env)
  have hcode := congrArg Fragment.code (hspelled fragment hfragment)
  rw [hterm] at hcode
  refine ⟨_, _, hterm, ?_, narrow_operands _ _ _, fun ha hb hboth => ?_⟩
  · rw [← hcode] at hwithin
    exact hwithin
  · obtain ⟨hnarrowLeft, hnarrowRight, hguess⟩ := (narrow_operands _ _ _).mp hboth
    refine hguess ?_
    rw [isNarrow_of_plain ha hnarrowLeft, isNarrow_of_plain hb hnarrowRight]
    rfl

/-- A quotient of small constants. -/
def smallQuotient : Ir :=
  .call "div" [.ofLiteral (.int 7), .ofLiteral (.int 2)] [.int, .int] .int

/-- The sum of two quotients. -/
def quotientSum : Ir := .call "add" [smallQuotient, smallQuotient] [.int, .int] .int

/-- The tokens of the sum. -/
def quotientSumTokens : List Token :=
  [⟨.literal (.int 7), "7", 0⟩, ⟨.punct .slash, "/", 2⟩, ⟨.literal (.int 2), "2", 4⟩,
   ⟨.punct .plus, "+", 6⟩, ⟨.literal (.int 7), "7", 8⟩, ⟨.punct .slash, "/", 10⟩,
   ⟨.literal (.int 2), "2", 12⟩, Token.atEnd 13]

/-- A sum of quotients is a sum of narrow integers. -/
theorem narrow_operands_quotientSum :
    lowerSource "7 / 2 + 7 / 2" = .ok quotientSum ∧
      compile "7 / 2 + 7 / 2" .sql .fragment = .ok ⟨"7 / 2 + 7 / 2", []⟩ ∧
      ∃ lhs rhs, term (scopeTerms []) quotientSum = .operation "+" lhs rhs ∧
        quoting.Within (lhs.text ++ " " ++ "+" ++ " " ++ rhs.text) "7 / 2 + 7 / 2" ∧
        lhs.type = .integer ∧ rhs.type = .integer := by
  have htokens : (tokenize "7 / 2 + 7 / 2").toOption = some quotientSumTokens := by cbv
  have hsource : lowerSource "7 / 2 + 7 / 2" = .ok quotientSum := lowerSource_eq_ok htokens rfl rfl
  have hcompile : compile "7 / 2 + 7 / 2" .sql .fragment = .ok ⟨"7 / 2 + 7 / 2", []⟩ := by
    simp only [compile, hsource]
    rfl
  have hop : ("add", "+") ∈ arithmeticOps := List.mem_cons_self
  have hway : TargetKind.sql.nodeAt [] ⟨[], quotientSum⟩ = some ⟨[], quotientSum⟩ := rfl
  obtain ⟨lhs, rhs, hterm, hwithin, hnarrow, -⟩ := narrow_operands_iff hsource hcompile hop hway
  have hquotient : (term (scopeTerms []) smallQuotient).type = .integer := rfl
  have hguess : ¬(isNarrow smallQuotient && isNarrow smallQuotient) = true := by decide
  exact ⟨hsource, hcompile, lhs, rhs, hterm, hwithin,
    hnarrow.mpr ⟨hquotient, hquotient, hguess⟩⟩

end Retarget.Sql
