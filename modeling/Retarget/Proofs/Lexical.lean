import Retarget.Compile
import Retarget.Proofs.Grouping.Scheme
import Retarget.Proofs.Parsing.WellFormed
import Retarget.Proofs.Typing

set_option autoImplicit false

/-!
# What sources are made of

A sign in a source is an operator of its own, so no constant of a source is negative, and its numbers
are finite. Its names are what the lexer takes for names. Lowering adds constants and names of its
own, but no numbers among them and only names that a source could hold.

## Main definitions

* `Retarget.Expr.Lexical` — no constant of an expression has a sign, and its names can be written.
* `Retarget.Ir.Lexical` — the same for lowered forms.
* `Retarget.Ir.OfOperators` — the shape of a lowered form that is all operators.

## Main results

* `Retarget.lexical_of_parse`, `Retarget.lexical_of_lowerSource` — parsed sources and their lowered
  forms are lexical.
* `Retarget.operational_of_lowerSource` — a lowered source that is all operators has no constant
  with a sign and no name that a source cannot hold.
-/

namespace Retarget

variable {α : Type}

/-! ## Numbers -/

namespace Binary64

/-- A bit pattern below that of infinity has no sign. -/
lemma isNegative_ofNat {n : Nat} (h : n ≤ 2047 * Nat.pow 2 52) :
    isNegative ⟨UInt64.ofNat n⟩ = false := by
  have hsmall : n < 2 ^ 64 := Nat.lt_of_le_of_lt h (by decide)
  have hbits : (UInt64.ofNat n).toNat = n := UInt64.toNat_ofNat_of_lt' hsmall
  have hbound : 2047 * Nat.pow 2 52 < Nat.pow 2 63 := by decide
  simp only [isNegative, hbits, decide_eq_false_iff_not, Nat.not_le]
  omega

/-- The nearest float to a ratio has no sign. -/
lemma isNegative_ofRatio (num den : Nat) : (ofRatio num den).isNegative = false := by
  simp only [ofRatio]
  split_ifs with h
  · exact isNegative_ofNat (Nat.le_of_lt h)
  · exact isNegative_ofNat (Nat.le_refl _)

/-- A decimal number has no sign. -/
lemma isNegative_ofDecimal (digits : Nat) (exponent : Int) :
    (ofDecimal digits exponent).isNegative = false := by
  unfold ofDecimal
  split_ifs
  · rfl
  · exact isNegative_ofNat (Nat.le_refl _)
  · rfl
  · exact isNegative_ofRatio _ _
  · exact isNegative_ofRatio _ _

/-- A numeral without a sign denotes a number without one. -/
lemma isNegative_ofUnsigned {cs : List Char} {x : Binary64} (h : ofUnsigned? cs = some x) :
    x.isNegative = false := by
  simp only [ofUnsigned?] at h
  split_ifs at h
  split at h
  · cases h
    exact isNegative_ofDecimal _ _
  · split_ifs at h
    obtain ⟨exponent, -, rfl⟩ := Option.map_eq_some_iff.mp h
    exact isNegative_ofDecimal _ _

end Binary64

/-! ## Tokens -/

/-- A kind of token as the lexer finds it: a constant has no sign, and a name is spelled like one. -/
def Token.Kind.Lexical : Token.Kind → Prop
  | .literal value => value.IsUnsigned
  | .ident name => IsIdentifier name
  | _ => True

namespace Lexer

/-- A number as it is found has no sign. -/
lemma lexical_number {cs : List Char} {kind : Token.Kind} {length : Nat}
    (h : number cs = .ok (kind, length)) : kind.Lexical := by
  unfold number at h
  split at h
  · cases h
  · split_ifs at h
    simp only [numeralValue] at h
    split_ifs at h
    · cases h
      exact Int.natCast_nonneg _
    · cases h
    · split at h
      · rename_i x hx
        split_ifs at h with hfinite
        · cases h
          exact ⟨hfinite, Binary64.isNegative_ofUnsigned hx⟩
        · cases h
      · cases h

/-- A word that starts like a name is a keyword or a name. -/
lemma lexical_word {c : Char} {cs : List Char} (hc : isIdentStart c = true) {kind : Token.Kind}
    {length : Nat} (h : word (c :: cs) = .ok (kind, length)) : kind.Lexical := by
  have hpart : isIdentPart c = true := by
    simp only [isIdentStart, isIdentPart, Char.isAlphanum, Bool.or_eq_true] at hc ⊢
    exact hc.imp_left .inl
  simp only [word] at h
  split at h
  · cases h
    trivial
  · cases h
    refine ⟨c, cs.takeWhile isIdentPart, by simp [hpart], hc, fun d hd => ?_⟩
    exact List.all_eq_true.mp List.all_takeWhile d hd

/-- A token as it is found has no sign, and is spelled like a name if it is one.

**Proof sketch.** The kinds of tokens are tried in turn. Numbers and words have lemmas of their own;
every other literal is no number, and a punctuator has nothing to ask. -/
lemma lexical_lexeme {c : Char} {cs : List Char} {kind : Token.Kind} {length : Nat}
    (h : lexeme c cs = .ok (kind, length)) : kind.Lexical := by
  unfold lexeme at h
  split_ifs at h with _ _ _ _ hstart
  · exact lexical_number h
  · unfold string at h
    split at h
    · cases h
    · cases h
      trivial
  · unfold temporal at h
    split at h
    · cases h
    · dsimp only at h
      split_ifs at h <;> cases h <;> trivial
  · unfold duration at h
    split at h
    · cases h
    · split_ifs at h <;> cases h
      trivial
  · exact lexical_word hstart h
  · split at h
    · cases h
      trivial
    · cases h

/-- The tokens of a text are as the lexer finds them.

**Proof sketch.** By induction along `tokens`: a token comes from `lexeme`, and a blank or a comment
adds none. -/
lemma lexical_tokens {offset skip : Nat} {cs : List Char} {ts : List Token}
    (h : tokens offset skip cs = .ok ts) : ∀ t ∈ ts, t.kind.Lexical := by
  fun_induction tokens generalizing ts with
  | case1 =>
    cases h
    rintro t ht
    obtain rfl := List.mem_singleton.mp ht
    trivial
  | case2 offset skip c cs ih => exact ih h
  | case3 offset c cs hblank ih => exact ih h
  | case4 offset cs hblank ih => exact ih h
  | case5 => cases h
  | case6 => cases h
  | case7 offset c cs hblank hmark kind length hlexeme ts' hts ih =>
    cases h
    intro t ht
    rcases List.mem_cons.mp ht with rfl | ht
    · exact lexical_lexeme hlexeme
    · exact ih hts t ht

end Lexer

/-! ## Expressions -/

/-- No constant of the expression has a sign, and its names are spelled like names. -/
inductive Expr.Lexical : Expr α → Prop
  | literal {note : α} {value : Literal} : value.IsUnsigned → Lexical (.literal note value)
  | array {note : α} {items : List (Expr α)} : (∀ e ∈ items, Lexical e) →
      Lexical (.array note items)
  | record {note : α} {fields : List (String × Expr α)} : (∀ p ∈ fields, Lexical p.2) →
      Lexical (.record note fields)
  | var {note : α} {name : String} : IsIdentifier name → Lexical (.var note name)
  | unary {note : α} {op : UnaryOp} {e : Expr α} : Lexical e → Lexical (.unary note op e)
  | binary {note : α} {op : BinaryOp} {a b : Expr α} : Lexical a → Lexical b →
      Lexical (.binary note op a b)
  | cond {note : α} {test yes no : Expr α} : Lexical test → Lexical yes → Lexical no →
      Lexical (.cond note test yes no)
  | letIn {note : α} {bindings : List (String × Expr α)} {body : Expr α} :
      (∀ p ∈ bindings, IsIdentifier p.1) → (∀ p ∈ bindings, Lexical p.2) → Lexical body →
      Lexical (.letIn note bindings body)
  | lambda {note : α} {params : List String} {body : Expr α} : (∀ p ∈ params, IsIdentifier p) →
      Lexical body → Lexical (.lambda note params body)
  | call {note : α} {callee : Expr α} {args : List (Expr α)} : Lexical callee →
      (∀ e ∈ args, Lexical e) → Lexical (.call note callee args)
  | member {note : α} {object : Expr α} {field : String} : Lexical object →
      Lexical (.member note object field)
  | pipe {note : α} {value : Expr α} {function : String} {args : List (Expr α)} :
      IsIdentifier function → Lexical value → (∀ e ∈ args, Lexical e) →
      Lexical (.pipe note value function args)
  | alternative {note : α} {candidates : List (Expr α)} : (∀ e ∈ candidates, Lexical e) →
      Lexical (.alternative note candidates)
  | select {note : α} {typeName : String} {policy : SelectPolicy}
      {constraints : List (Condition (Expr α))} {args : List (Expr α)} :
      (∀ c ∈ constraints, Lexical c.test) → (∀ e ∈ args, Lexical e) →
      Lexical (.select note typeName policy constraints args)
  | guarded {note : α} {kind : GuardKind} {conditions : List (Condition (Expr α))}
      {body : Expr α} : (∀ c ∈ conditions, Lexical c.test) → Lexical body →
      Lexical (.guarded note kind conditions body)

/-- A constant that stands for a token as the lexer finds it has no sign. -/
lemma Token.Kind.Lexical.isUnsigned {kind : Token.Kind} (h : kind.Lexical) {value : Literal}
    (hvalue : kind.literal? = some value) : value.IsUnsigned := by
  unfold literal? at hvalue
  split at hvalue
  · cases hvalue
    exact h
  · cases hvalue
    trivial
  · cases hvalue
    trivial
  · cases hvalue
    trivial
  · cases hvalue

/-- An expression of tokens as the lexer finds them is lexical. -/
lemma Expr.WellFormed.lexical {e : Expr α} (h : e.WellFormed Token.Kind.Lexical) : e.Lexical := by
  induction h with
  | literal hkind hvalue => exact .literal (hkind.isUnsigned hvalue)
  | array _ ih => exact .array ih
  | record _ _ ih => exact .record ih
  | var hname => exact .var hname
  | unary _ ih => exact .unary ih
  | binary _ _ iha ihb => exact .binary iha ihb
  | cond _ _ _ ihtest ihyes ihno => exact .cond ihtest ihyes ihno
  | letIn _ hnames _ _ ihvalues ihbody => exact .letIn hnames ihvalues ihbody
  | lambda _ hparams _ ih => exact .lambda hparams ih
  | call _ _ ihcallee ihargs => exact .call ihcallee ihargs
  | member _ _ ih => exact .member ih
  | pipe hname _ _ ihvalue ihargs => exact .pipe hname ihvalue ihargs
  | alternative _ _ ih => exact .alternative ih
  | select _ _ _ _ _ ihconstraints ihargs => exact .select ihconstraints ihargs
  | guarded _ _ _ ihconditions ihbody => exact .guarded ihconditions ihbody

/-- No constant of a parsed source has a sign, and its names are spelled like names. -/
theorem lexical_of_parse {source : String} {e : Expr Span} (h : parse source = .ok e) :
    e.Lexical := by
  refine (wellFormed_of_parse (fun tokens htokens => ?_) h).lexical
  unfold tokenize at htokens
  split at htokens
  · rename_i ts hts
    cases htokens
    exact Lexer.lexical_tokens hts
  · cases htokens

/-! ## Lowering -/

/-- No constant of the lowered form has a sign, and its names are spelled like names. -/
inductive Ir.Lexical : Ir → Prop
  | literal {value : Literal} {ty : Ty} : value.IsUnsigned → Lexical (.literal value ty)
  | var {name : String} {ty : Ty} : IsIdentifier name → Lexical (.var name ty)
  | letIn {bindings : List (String × Ir)} {body : Ir} {ty : Ty} :
      (∀ b ∈ bindings, IsIdentifier b.1) → (∀ b ∈ bindings, Lexical b.2) → Lexical body →
      Lexical (.letIn bindings body ty)
  | lambda {params : List String} {body : Ir} {ty : Ty} : (∀ p ∈ params, IsIdentifier p) →
      Lexical body → Lexical (.lambda params body ty)
  | cond {test yes no : Ir} {ty : Ty} : Lexical test → Lexical yes → Lexical no →
      Lexical (.cond test yes no ty)
  | alternative {candidates : List Ir} {ty : Ty} : (∀ c ∈ candidates, Lexical c) →
      Lexical (.alternative candidates ty)
  | call {name : String} {args : List Ir} {argTypes : List Ty} {ty : Ty} :
      (∀ a ∈ args, Lexical a) → Lexical (.call name args argTypes ty)

/-- The name of what constraints are about is spelled like a name. -/
lemma isIdentifier_itName : IsIdentifier itName :=
  ⟨'i', ['t'], rfl, by decide, List.forall_mem_singleton.mpr rfl⟩

namespace Ir.Lexical

/-! ## Parts that lowering puts together -/

/-- A string is lexical. -/
lemma ofString (text : String) : (Ir.ofString text).Lexical := .literal trivial

/-- A failure with a message is lexical. -/
lemma fail (message : String) (ty : Ty) : (Ir.fail message ty).Lexical :=
  .call (List.forall_mem_singleton.mpr (ofString message))

/-- The name `it` is lexical. -/
lemma it (ty : Ty) : (Ir.var itName ty).Lexical := .var isIdentifier_itName

/-- The name `it` bound around a lexical form. -/
lemma bindIt {value body : Ir} (hvalue : value.Lexical) (hbody : body.Lexical) :
    (Ir.bind [(itName, value)] body).Lexical :=
  .letIn (List.forall_mem_singleton.mpr isIdentifier_itName)
    (List.forall_mem_singleton.mpr hvalue) hbody

/-- Softening takes away and adds nulls. -/
lemma soften {ir : Ir} (h : ir.Lexical) : ir.soften.Lexical := by
  induction h with
  | literal h => exact .literal h
  | var h => exact .var h
  | letIn hnames hvalues _ _ ih => exact .letIn hnames hvalues ih
  | lambda hparams hbody => exact .lambda hparams hbody
  | cond htest _ _ _ ihyes ihno => exact .cond htest ihyes ihno
  | alternative h => exact .alternative h
  | @call name args argTypes ty hargs =>
    rw [Ir.soften]
    split_ifs with hfail
    · exact .literal trivial
    · cases raisingStem? name with
      | none => exact .call hargs
      | some stem => exact .call fun a ha => hargs a (List.mem_of_mem_take ha)

end Ir.Lexical

mutual

/-- The candidates that a candidate stands for are lexical with it. -/
lemma Ir.Lexical.softened : ∀ {ir : Ir}, ir.Lexical → ∀ c ∈ ir.softened, c.Lexical
  | .alternative _ _, .alternative h, c, hc => lexical_softenedAll h c hc
  | .literal _ _, h, _, hc | .var _ _, h, _, hc | .letIn _ _ _, h, _, hc
  | .lambda _ _ _, h, _, hc | .cond _ _ _ _, h, _, hc | .call _ _ _ _, h, _, hc => by
    obtain rfl := List.mem_singleton.mp hc
    exact h.soften

/-- The candidates that a row of candidates stands for are lexical with it. -/
lemma lexical_softenedAll :
    ∀ {irs : List Ir}, (∀ ir ∈ irs, ir.Lexical) → ∀ c ∈ softenedAll irs, c.Lexical
  | [], _, c, hc => by cases hc
  | ir :: irs, h, c, hc => by
    rcases List.mem_append.mp hc with hc | hc
    · exact (h ir (by simp)).softened c hc
    · exact lexical_softenedAll (fun d hd => h d (List.mem_cons_of_mem ir hd)) c hc

end

section Conditions

variable {tests : List (Condition Ir)} (htests : ∀ c ∈ tests, c.test.Lexical)

include htests

/-- Tests in front of a lexical body. -/
lemma lexical_failFast {body : Ir} (hbody : body.Lexical) (label : String) :
    (failFast tests body label).Lexical := by
  unfold failFast
  generalize body.ty = ty
  induction tests with
  | nil => exact hbody
  | cons c cs ih =>
    have hrest := ih fun d hd => htests d (List.mem_cons_of_mem c hd)
    exact .cond (htests c (by simp)) hrest (.fail _ ty)

/-- Tests that hold together. -/
lemma lexical_allOf : (allOf tests).Lexical := by
  cases tests with
  | nil => exact .literal trivial
  | cons c cs =>
    have hfirst := htests c (by simp)
    have hrest : ∀ d ∈ cs, d.test.Lexical := fun d hd => htests d (by simp [hd])
    rw [allOf]
    clear htests
    generalize c.test = conjunction at hfirst
    induction cs generalizing conjunction with
    | nil => exact hfirst
    | cons d ds ih =>
      have hboth : ∀ a ∈ [conjunction, d.test], a.Lexical := by
        simpa using ⟨hfirst, hrest d (by simp)⟩
      exact ih (fun e he => hrest e (List.mem_cons_of_mem d he)) _ (.call hboth)

end Conditions

/-- A value in the call of a selector. -/
lemma lexical_dress (s : Selectable) (policy : SelectPolicy) {value : Ir} {message : Option Ir}
    (hvalue : value.Lexical) (hmessage : ∀ m ∈ message, m.Lexical) :
    (dress s policy value message).Lexical := by
  cases policy with
  | raise | orNull | check => exact .call (List.forall_mem_singleton.mpr hvalue)
  | assert =>
    have hword : (message.getD (.ofString ("expected " ++ s.name))).Lexical := by
      cases message with
      | none => exact .ofString _
      | some m => exact hmessage m rfl
    exact .call (List.forall_mem_cons.mpr ⟨hvalue, List.forall_mem_singleton.mpr hword⟩)

/-- A value in the call of a selector with tests. -/
lemma lexical_constrained (s : Selectable) (policy : SelectPolicy) {tests : List (Condition Ir)}
    {value : Ir} {message : Option Ir} (htests : ∀ c ∈ tests, c.test.Lexical)
    (hvalue : value.Lexical) (hmessage : ∀ m ∈ message, m.Lexical) :
    (constrained s policy tests value message).Lexical := by
  have hnull : (Ir.ofLiteral .null).Lexical := .literal trivial
  cases policy with
  | raise | assert =>
    exact .bindIt (lexical_dress s _ hvalue hmessage) (lexical_failFast htests (.it s.ty) _)
  | orNull =>
    have hequal : ∀ a ∈ [Ir.var itName s.ty, .ofLiteral .null], a.Lexical := by
      simpa using ⟨.it s.ty, hnull⟩
    exact .bindIt (lexical_dress s _ hvalue (by simp))
      (.cond (.call hequal) hnull (.cond (lexical_allOf htests) (.it s.ty) hnull))
  | check =>
    exact .cond (lexical_dress s .check hvalue (by simp))
      (.bindIt (lexical_dress s .raise hvalue (by simp)) (lexical_allOf htests)) (.literal trivial)

/-- A variable is lowered to a lexical form. -/
lemma lexical_of_lowerVariable {scope : Scope} {name : String} {ir : Ir}
    (hname : IsIdentifier name) (h : lowerVariable scope name = .ok ir) : ir.Lexical := by
  unfold lowerVariable at h
  split at h
  · cases h
    exact .var hname
  · split at h
    · cases h
      exact .call (List.forall_mem_nil _)
    · cases h

mutual

/-- The lowered form of a lexical expression is lexical, whatever is in scope.

**Proof sketch.** Induction over the expression, along with the rows of expressions that its
constructs hold; every constant and name of the lowered form stands in the expression, or lowering
puts it there. -/
theorem lexical_of_lower :
    ∀ (e : Expr α) {scope : Scope} {recover : Bool} {ir : Ir}, e.Lexical →
      e.lower scope recover = .ok ir → ir.Lexical
  | .literal _ value, _, _, _, .literal hvalue, h => by
    cases h
    exact .literal hvalue
  | .var _ name, _, _, _, .var hname, h => lexical_of_lowerVariable hname h
  | .array _ items, _, _, _, .array hitems, h => by
    obtain ⟨irs, hirs, h⟩ := exists_of_bind_eq_ok h
    cases h
    exact .call (lexical_of_lowerAll items hitems hirs)
  | .record _ fields, _, _, _, .record hfields, h => by
    obtain ⟨irs, hirs, h⟩ := exists_of_bind_eq_ok h
    cases h
    refine .call fun a ha => ?_
    obtain ⟨⟨name, value⟩, hfield, ha⟩ := List.mem_flatMap.mp ha
    have hvalue : value.Lexical := lexical_of_lowerFields fields hfields hirs _ hfield
    rcases List.mem_cons.mp ha with rfl | ha
    · exact .ofString name
    · obtain rfl := List.mem_singleton.mp ha
      exact hvalue
  | .unary _ op operand, _, _, _, .unary hoperand, h => by
    obtain ⟨x, hx, h⟩ := exists_of_bind_eq_ok h
    cases h
    exact .call (List.forall_mem_singleton.mpr (lexical_of_lower operand hoperand hx))
  | .binary _ op lhs rhs, _, _, _, .binary hlhs hrhs, h => by
    obtain ⟨x, hx, h⟩ := exists_of_bind_eq_ok h
    obtain ⟨y, hy, h⟩ := exists_of_bind_eq_ok h
    cases h
    have hboth : ∀ a ∈ [x, y], a.Lexical := by
      simpa using ⟨lexical_of_lower lhs hlhs hx, lexical_of_lower rhs hrhs hy⟩
    exact .call hboth
  | .cond _ test yes no, _, _, _, .cond htest hyes hno, h => by
    obtain ⟨x, hx, h⟩ := exists_of_bind_eq_ok h
    obtain ⟨y, hy, h⟩ := exists_of_bind_eq_ok h
    obtain ⟨z, hz, h⟩ := exists_of_bind_eq_ok h
    cases h
    exact .cond (lexical_of_lower test htest hx) (lexical_of_lower yes hyes hy)
      (lexical_of_lower no hno hz)
  | .letIn _ bindings body, _, _, _, .letIn hnames hvalues hbody, h => by
    obtain ⟨⟨bound, inner⟩, hbound, h⟩ := exists_of_bind_eq_ok h
    obtain ⟨x, hx, h⟩ := exists_of_bind_eq_ok h
    cases h
    obtain ⟨hnames, hvalues⟩ := lexical_of_lowerBindings bindings hnames hvalues hbound
    exact .letIn hnames hvalues (lexical_of_lower body hbody hx)
  | .lambda _ params body, _, _, _, .lambda hparams hbody, h => by
    obtain ⟨x, hx, h⟩ := exists_of_bind_eq_ok h
    cases h
    exact .lambda hparams (lexical_of_lower body hbody hx)
  | .call _ callee args, _, _, _, .call hcallee hargs, h => by
    obtain ⟨irs, hirs, h⟩ := exists_of_bind_eq_ok h
    have hrow := lexical_of_lowerAll args hargs hirs
    split at h
    · cases h
      exact .call hrow
    · obtain ⟨x, hx, h⟩ := exists_of_bind_eq_ok h
      cases h
      exact .call (List.forall_mem_cons.mpr ⟨lexical_of_lower callee hcallee hx, hrow⟩)
  | .member _ object field, _, _, _, .member hobject, h => by
    obtain ⟨x, hx, h⟩ := exists_of_bind_eq_ok h
    cases h
    have hboth : ∀ a ∈ [x, .ofString field], a.Lexical := by
      simpa using ⟨lexical_of_lower object hobject hx, .ofString field⟩
    exact .call hboth
  | .pipe _ value function args, _, _, _, .pipe hname hvalue hargs, h => by
    obtain ⟨x, hx, h⟩ := exists_of_bind_eq_ok h
    obtain ⟨irs, hirs, h⟩ := exists_of_bind_eq_ok h
    have hfirst : x.Lexical := lexical_of_lower value hvalue hx
    have hall : ∀ a ∈ x :: irs, a.Lexical :=
      List.forall_mem_cons.mpr ⟨hfirst, lexical_of_lowerAll args hargs hirs⟩
    split at h
    · cases h
      exact lexical_dress _ .raise hfirst (by simp)
    · split at h
      · cases h
        exact .call (List.forall_mem_cons.mpr ⟨.var hname, hall⟩)
      · cases h
        exact .call hall
  | .alternative _ candidates, _, _, _, .alternative hcandidates, h => by
    obtain ⟨irs, hirs, h⟩ := exists_of_bind_eq_ok h
    cases h
    exact .alternative (lexical_of_lowerCandidates candidates hcandidates hirs)
  | .select _ typeName policy constraints args, _, _, _, .select hconstraints hargs, h => by
    obtain ⟨⟨value, message⟩, hselected, h⟩ := exists_of_bind_eq_ok h
    obtain ⟨hvalue, hmessage⟩ := lexical_of_lowerSelected args hargs hselected
    dsimp only at h
    split at h
    · cases h
    · split at h
      · cases h
        exact lexical_dress _ _ hvalue hmessage
      · obtain ⟨tests, htests, h⟩ := exists_of_bind_eq_ok h
        cases h
        exact lexical_constrained _ _ (lexical_of_lowerConditions _ hconstraints htests) hvalue
          hmessage
  | .guarded _ .guard conditions body, _, _, _, .guarded hconditions hbody, h => by
    obtain ⟨tests, htests, h⟩ := exists_of_bind_eq_ok h
    obtain ⟨x, hx, h⟩ := exists_of_bind_eq_ok h
    cases h
    exact lexical_failFast (lexical_of_lowerConditions conditions hconditions htests)
      (lexical_of_lower body hbody hx) _
  | .guarded _ .check conditions body, _, _, _, .guarded hconditions hbody, h => by
    obtain ⟨x, hx, h⟩ := exists_of_bind_eq_ok h
    obtain ⟨tests, htests, h⟩ := exists_of_bind_eq_ok h
    cases h
    exact .bindIt (lexical_of_lower body hbody hx)
      (lexical_failFast (lexical_of_lowerConditions conditions hconditions htests) (.it x.ty) _)

/-- The same for a row of expressions. -/
theorem lexical_of_lowerAll :
    ∀ (es : List (Expr α)) {scope : Scope} {irs : List Ir}, (∀ e ∈ es, e.Lexical) →
      lowerAll scope es = .ok irs → ∀ ir ∈ irs, ir.Lexical
  | [], _, _, _, h => by
    cases h
    exact List.forall_mem_nil _
  | e :: es, _, _, hes, h => by
    obtain ⟨x, hx, h⟩ := exists_of_bind_eq_ok h
    obtain ⟨xs, hxs, h⟩ := exists_of_bind_eq_ok h
    cases h
    obtain ⟨he, hes⟩ := List.forall_mem_cons.mp hes
    exact List.forall_mem_cons.mpr ⟨lexical_of_lower e he hx, lexical_of_lowerAll es hes hxs⟩

/-- The same for the fields of a record. -/
theorem lexical_of_lowerFields :
    ∀ (es : List (String × Expr α)) {scope : Scope} {irs : List (String × Ir)},
      (∀ p ∈ es, p.2.Lexical) → lowerFields scope es = .ok irs → ∀ p ∈ irs, p.2.Lexical
  | [], _, _, _, h => by
    cases h
    exact List.forall_mem_nil _
  | (_, e) :: es, _, _, hes, h => by
    obtain ⟨x, hx, h⟩ := exists_of_bind_eq_ok h
    obtain ⟨xs, hxs, h⟩ := exists_of_bind_eq_ok h
    cases h
    obtain ⟨he, hes⟩ := List.forall_mem_cons.mp hes
    exact List.forall_mem_cons.mpr ⟨lexical_of_lower e he hx, lexical_of_lowerFields es hes hxs⟩

/-- The same for bindings. -/
theorem lexical_of_lowerBindings :
    ∀ (es : List (String × Expr α)) {scope inner : Scope} {irs : List (String × Ir)},
      (∀ p ∈ es, IsIdentifier p.1) → (∀ p ∈ es, p.2.Lexical) →
        lowerBindings scope es = .ok (irs, inner) →
          (∀ b ∈ irs, IsIdentifier b.1) ∧ ∀ b ∈ irs, b.2.Lexical
  | [], _, _, _, _, _, h => by
    cases h
    exact ⟨List.forall_mem_nil _, List.forall_mem_nil _⟩
  | (_, e) :: es, _, _, _, hnames, hes, h => by
    obtain ⟨x, hx, h⟩ := exists_of_bind_eq_ok h
    obtain ⟨⟨xs, inner⟩, hxs, h⟩ := exists_of_bind_eq_ok h
    cases h
    obtain ⟨hname, hnames⟩ := List.forall_mem_cons.mp hnames
    obtain ⟨he, hes⟩ := List.forall_mem_cons.mp hes
    obtain ⟨hnames, hvalues⟩ := lexical_of_lowerBindings es hnames hes hxs
    exact ⟨List.forall_mem_cons.mpr ⟨hname, hnames⟩,
      List.forall_mem_cons.mpr ⟨lexical_of_lower e he hx, hvalues⟩⟩

/-- The same for conditions. -/
theorem lexical_of_lowerConditions :
    ∀ (es : List (Condition (Expr α))) {scope : Scope} {irs : List (Condition Ir)},
      (∀ c ∈ es, c.test.Lexical) → lowerConditions scope es = .ok irs →
        ∀ c ∈ irs, c.test.Lexical
  | [], _, _, _, h => by
    cases h
    exact List.forall_mem_nil _
  | ⟨_, e⟩ :: es, _, _, hes, h => by
    obtain ⟨x, hx, h⟩ := exists_of_bind_eq_ok h
    obtain ⟨xs, hxs, h⟩ := exists_of_bind_eq_ok h
    cases h
    obtain ⟨he, hes⟩ := List.forall_mem_cons.mp hes
    exact List.forall_mem_cons.mpr
      ⟨lexical_of_lower e he hx, lexical_of_lowerConditions es hes hxs⟩

/-- The same for the candidates of an alternative. -/
theorem lexical_of_lowerCandidates :
    ∀ (es : List (Expr α)) {scope : Scope} {irs : List Ir}, (∀ e ∈ es, e.Lexical) →
      lowerCandidates scope es = .ok irs → ∀ ir ∈ irs, ir.Lexical
  | [], _, _, _, h => by
    cases h
    exact List.forall_mem_nil _
  | [e], _, _, hes, h => by
    obtain ⟨x, hx, h⟩ := exists_of_bind_eq_ok h
    cases h
    exact List.forall_mem_singleton.mpr (lexical_of_lower e (hes e (by simp)) hx)
  | e :: e' :: es, _, _, hes, h => by
    obtain ⟨x, hx, h⟩ := exists_of_bind_eq_ok h
    obtain ⟨xs, hxs, h⟩ := exists_of_bind_eq_ok h
    obtain rfl : x.softened ++ xs = _ := Except.ok.inj h
    obtain ⟨he, hes⟩ := List.forall_mem_cons.mp hes
    have hrest := lexical_of_lowerCandidates (e' :: es) hes hxs
    exact List.forall_mem_append.mpr ⟨(lexical_of_lower e he hx).softened, hrest⟩

/-- The same for the value and the message of a selector. -/
theorem lexical_of_lowerSelected :
    ∀ (es : List (Expr α)) {scope : Scope} {typeName : String} {silent : Bool} {value : Ir}
      {message : Option Ir}, (∀ e ∈ es, e.Lexical) →
      lowerSelected scope typeName silent es = .ok (value, message) →
        value.Lexical ∧ ∀ m ∈ message, m.Lexical
  | [], _, _, _, _, _, _, h => by cases h
  | [e], _, _, silent, _, _, hes, h => by
    obtain ⟨x, hx, h⟩ := exists_of_bind_eq_ok h
    have hvalue := lexical_of_lower e (hes e (by simp)) hx
    cases silent <;> cases h <;> exact ⟨hvalue, by simp⟩
  | e :: m :: _, _, _, silent, _, _, hes, h => by
    obtain ⟨x, hx, h⟩ := exists_of_bind_eq_ok h
    have hvalue := lexical_of_lower e (hes e (by simp)) hx
    cases silent with
    | true =>
      cases h
      exact ⟨hvalue, by simp⟩
    | false =>
      obtain ⟨word, hword, h⟩ := exists_of_bind_eq_ok h
      obtain ⟨y, hy, hword⟩ := exists_of_bind_eq_ok hword
      cases hword
      cases h
      exact ⟨hvalue, by simpa using lexical_of_lower m (hes m (by simp)) hy⟩

end

/-- The lowered form of a source by its tokens and its syntax. -/
lemma lowerSource_eq_ok {source : String} {tokens : List Token} {e : Expr Span} {ir : Ir}
    (htokens : (tokenize source).toOption = some tokens) (hparse : parseTokens tokens = .ok e)
    (htransform : transform e = .ok ir) : lowerSource source = .ok ir := by
  simp only [lowerSource, parse_eq_ok htokens hparse, htransform, Except.mapError]

/-- The lowered form of a source is lexical. -/
theorem lexical_of_lowerSource {source : String} {ir : Ir} (h : lowerSource source = .ok ir) :
    ir.Lexical := by
  unfold lowerSource at h
  split at h
  · cases h
  · rename_i e he
    cases htransform : transform e with
    | error failure =>
      rw [htransform] at h
      cases h
    | ok lowered =>
      rw [htransform] at h
      cases h
      exact lexical_of_lower e (lexical_of_parse he) htransform

/-! ## Operators -/

/-- The shape of a lowered form that is all operators: constants, variables, conditionals, member
reads and the calls of operators, of any types. -/
inductive Ir.OfOperators : Ir → Prop
  | literal (value : Literal) (ty : Ty) : OfOperators (.literal value ty)
  | var (name : String) (ty : Ty) : OfOperators (.var name ty)
  | cond {test yes no : Ir} (htest : OfOperators test) (hyes : OfOperators yes)
      (hno : OfOperators no) (ty : Ty) : OfOperators (.cond test yes no ty)
  | unary {name : String} (h : name ∈ unaryNames) {x : Ir} (hx : OfOperators x) (ty result : Ty) :
      OfOperators (.call name [x] [ty] result)
  | binary {name : String} (h : name ∈ binaryNames) {a b : Ir} (ha : OfOperators a)
      (hb : OfOperators b) (s t result : Ty) : OfOperators (.call name [a, b] [s, t] result)

/-- What is all operators and lexical has no sign and no name that a source cannot hold. -/
lemma Ir.OfOperators.operational {ir : Ir} (h : ir.OfOperators) (hlexical : ir.Lexical) :
    ir.Operational := by
  induction h with
  | literal value ty =>
    cases hlexical with
    | literal h => exact .literal h ty
  | var name ty =>
    cases hlexical with
    | var h => exact .var h ty
  | cond _ _ _ ty ihtest ihyes ihno =>
    cases hlexical with
    | cond htest hyes hno => exact .cond (ihtest htest) (ihyes hyes) (ihno hno) ty
  | unary h _ ty result ih =>
    cases hlexical with
    | call hargs => exact .unary h (ih (hargs _ (by simp))) ty result
  | binary h _ _ s t result iha ihb =>
    cases hlexical with
    | call hargs => exact .binary h (iha (hargs _ (by simp))) (ihb (hargs _ (by simp))) s t result

/-- A lowered source that is all operators has no constant with a sign, and no name that a source
cannot hold. -/
theorem operational_of_lowerSource {source : String} {ir : Ir} (h : lowerSource source = .ok ir)
    (hshape : ir.OfOperators) : ir.Operational :=
  hshape.operational (lexical_of_lowerSource h)

end Retarget
