import Retarget.Proofs.Lexical
import Retarget.Proofs.Tokens.Tiling

set_option autoImplicit false

/-!
# The nodes of a parsed source

What later stages rely on holds at every node of a parsed source: constants are in range and have no
sign, names are names of the language, and rows have the entries that their construct asks for. The
lexer sees to the first two, for each token by itself; the parser to the third.

## Main definitions

* `Retarget.Expr.children`, `Retarget.Expr.Node` — the nodes of an expression.
* `Retarget.IsName` — what the lexer takes for a name.
* `Retarget.Expr.IsSound` — what holds of a node by itself.

## Main results

* `Retarget.isSound_of_parse` — every node of a parsed source is sound.
-/

namespace Retarget

variable {α : Type}

/-! ## Nodes -/

namespace Expr

/-- The expressions right below the outermost node, in the order in which they are written. -/
def children : Expr α → List (Expr α)
  | .literal _ _ | .var _ _ => []
  | .array _ items => items
  | .record _ fields => fields.map Prod.snd
  | .unary _ _ operand => [operand]
  | .binary _ _ lhs rhs => [lhs, rhs]
  | .cond _ test yes no => [test, yes, no]
  | .letIn _ bindings body => bindings.map Prod.snd ++ [body]
  | .lambda _ _ body => [body]
  | .call _ callee args => callee :: args
  | .member _ object _ => [object]
  | .pipe _ value _ args => value :: args
  | .alternative _ candidates => candidates
  | .select _ _ _ constraints args => constraints.map Condition.test ++ args
  | .guarded _ _ conditions body => conditions.map Condition.test ++ [body]

/-- The second expression is a node of the first, at any depth. -/
inductive Node : Expr α → Expr α → Prop
  | self (e : Expr α) : Node e e
  | child {e c n : Expr α} : c ∈ e.children → Node c n → Node e n

/-- A node of a node is a node. -/
lemma Node.trans {e n m : Expr α} (hnode : e.Node n) (h : n.Node m) : e.Node m := by
  induction hnode with
  | self _ => exact h
  | child hmem _ ih => exact .child hmem (ih h)

/-- What holds of the children of every expression of which it holds, holds of all nodes. -/
lemma Node.of_children {P : Expr α → Prop} (hchildren : ∀ e, P e → ∀ c ∈ e.children, P c)
    {e n : Expr α} (hnode : e.Node n) (he : P e) : P n := by
  induction hnode with
  | self e => exact he
  | child hmem _ ih => exact ih (hchildren _ he _ hmem)

/-- The children of a well-formed expression are well-formed. -/
lemma WellFormed.children {K : Token.Kind → Prop} (e : Expr α) (h : e.WellFormed K) :
    ∀ c ∈ e.children, c.WellFormed K := by
  cases h with
  | literal _ _ | var _ => simp [Expr.children]
  | array hitems => exact hitems
  | record _ hfields => exact List.forall_mem_map.mpr hfields
  | unary he => simpa [Expr.children] using he
  | binary ha hb => simpa [Expr.children] using ⟨ha, hb⟩
  | cond htest hyes hno => simpa [Expr.children] using ⟨htest, hyes, hno⟩
  | letIn _ _ hvalues hbody =>
    exact List.forall_mem_append.mpr
      ⟨List.forall_mem_map.mpr hvalues, List.forall_mem_singleton.mpr hbody⟩
  | lambda _ _ hbody => simpa [Expr.children] using hbody
  | call hcallee hargs => exact List.forall_mem_cons.mpr ⟨hcallee, hargs⟩
  | member _ hobject => simpa [Expr.children] using hobject
  | pipe _ hvalue hargs => exact List.forall_mem_cons.mpr ⟨hvalue, hargs⟩
  | alternative _ hcandidates => exact hcandidates
  | select _ _ _ hconstraints hargs =>
    exact List.forall_mem_append.mpr ⟨List.forall_mem_map.mpr hconstraints, hargs⟩
  | guarded _ hconditions hbody =>
    exact List.forall_mem_append.mpr
      ⟨List.forall_mem_map.mpr hconditions, List.forall_mem_singleton.mpr hbody⟩

end Expr

/-! ## Names -/

/-- The lexer takes a word that starts like this for a date, a datetime or a duration. -/
def Lexer.startsTemporal : List Char → Bool
  | [] => false
  | c :: cs => c == 'D' && cs.head?.any Char.isDigit || c == 'P' && startsDuration cs

/-- The text is a name of the language: spelled like one, and nothing else. -/
structure IsName (name : String) : Prop where
  isIdentifier : IsIdentifier name
  not_keyword : Keyword.ofText? name = none
  not_temporal : Lexer.startsTemporal name.toList = false

/-- A kind of token as the lexer finds it: an integer is one of the language, a number is finite and
has no sign, and a name is one of the language. -/
def Token.Kind.IsSound : Token.Kind → Prop
  | .literal (.int v) => 0 ≤ v ∧ v ≤ greatestInt
  | .literal (.float x) => x.isFinite = true ∧ x.isNegative = false
  | .ident name => IsName name
  | _ => True

namespace Lexer

variable {c : Char} {cs : List Char} {kind : Token.Kind} {n : Nat}

/-- A number is read as a sound token. -/
lemma isSound_number (h : number cs = .ok (kind, n)) : kind.IsSound := by
  have hlexical := lexical_number h
  unfold number at h
  split at h
  · cases h
  · split_ifs at h
    simp only [numeralValue, literal, refuse] at h
    split_ifs at h with _ hle
    · cases h
      exact ⟨hlexical, Int.ofNat_le.mpr hle⟩
    · split at h
      · split_ifs at h
        cases h
        exact hlexical
      · cases h

/-- The front of a word that starts no literal starts none. -/
lemma startsTemporal_of_append {x rest : List Char}
    (h : startsTemporal (c :: (x ++ rest)) = false) : startsTemporal (c :: x) = false := by
  by_contra hx
  simp only [startsTemporal, Bool.not_eq_false, Bool.or_eq_true, Bool.and_eq_true] at hx
  have hlonger : startsTemporal (c :: (x ++ rest)) = true := by
    simp only [startsTemporal, Bool.or_eq_true, Bool.and_eq_true]
    exact hx.imp (fun hd => ⟨hd.1, head?_any_of_append hd.2⟩)
      fun hp => ⟨hp.1, startsDuration_of_append hp.2⟩
  simp [h] at hlonger

/-- A word that is neither a date nor a duration is read as a sound token. -/
lemma isSound_word (hstart : isIdentStart c = true) (htemporal : startsTemporal (c :: cs) = false)
    (h : word (c :: cs) = .ok (kind, n)) : kind.IsSound := by
  have hlexical := lexical_word hstart h
  have hpart : isIdentPart c = true := by
    simp only [isIdentStart, isIdentPart, Char.isAlphanum, Bool.or_eq_true] at hstart ⊢
    exact hstart.imp_left .inl
  simp only [word] at h
  split at h
  · cases h
    trivial
  · rename_i hkeyword
    cases h
    refine ⟨hlexical, hkeyword, ?_⟩
    rw [← List.takeWhile_append_dropWhile (p := isIdentPart) (l := cs)] at htemporal
    simpa [hpart] using startsTemporal_of_append htemporal

/-- A token as it is found is sound. -/
lemma isSound_lexeme (h : lexeme c cs = .ok (kind, n)) : kind.IsSound := by
  unfold lexeme at h
  split_ifs at h with _ _ hdate hduration hstart
  · exact isSound_number h
  · unfold string at h
    split at h <;> cases h
    trivial
  · unfold temporal at h
    split at h
    · cases h
    · dsimp only at h
      split_ifs at h <;> cases h <;> trivial
  · unfold duration at h
    split at h
    · cases h
    · split_ifs at h <;> cases h
      trivial
  · refine isSound_word hstart ?_ h
    simp only [startsTemporal, Bool.or_eq_false_iff, Bool.and_eq_false_iff, beq_eq_false_iff_ne]
    simp only [not_and_or, Bool.not_eq_true] at hdate hduration
    exact ⟨hdate, hduration⟩
  · split at h <;> cases h
    trivial

end Lexer

/-- The tokens of a source are sound. -/
lemma isSound_of_tokenize {source : String} {ts : List Token} (h : tokenize source = .ok ts) :
    ∀ t ∈ ts, t.kind.IsSound := by
  obtain ⟨init, rfl, hinit⟩ := (tokenize_eq_ok_iff.mp h).exists_init
  refine List.forall_mem_append.mpr ⟨fun t ht => ?_, List.forall_mem_singleton.mpr trivial⟩
  obtain ⟨c, cs, -, hlexeme⟩ := (hinit t ht).2
  exact Lexer.isSound_lexeme hlexeme

/-! ## Sound nodes -/

/-- What holds of a node by itself: its constant is in range and has no sign, its names are names of
the language, and no name is given twice where one names a part; its rows have as many entries as
the construct asks for. -/
def Expr.IsSound : Expr α → Prop
  | .literal _ (.int v) => 0 ≤ v ∧ v ≤ 2 ^ 63 - 1
  | .literal _ (.float x) => x.isFinite = true ∧ x.isNegative = false
  | .record _ fields => (fields.map Prod.fst).Nodup
  | .var _ name => IsName name
  | .letIn _ bindings _ => bindings ≠ [] ∧ ∀ b ∈ bindings, IsName b.1
  | .lambda _ params _ => params.Nodup ∧ ∀ p ∈ params, IsName p
  | .member _ _ field => IsName field
  | .pipe _ _ function _ => IsName function
  | .alternative _ candidates => 2 ≤ candidates.length
  | .select _ typeName policy _ args => Parser.isCapitalized typeName = true ∧
      (args.length = 1 ∨ policy = .assert ∧ args.length = 2)
  | .guarded _ _ conditions _ => conditions ≠ []
  | .literal _ _ | .array _ _ | .unary _ _ _ | .binary _ _ _ _ | .cond _ _ _ _ | .call _ _ _ => True

/-- An expression of sound tokens is sound.

**Proof sketch.** What is asked of a node itself is asked of its tokens or of its syntax. -/
lemma Expr.WellFormed.isSound {e : Expr α} (h : e.WellFormed Token.Kind.IsSound) : e.IsSound := by
  cases h with
  | @literal note kind value hkind hvalue =>
    unfold Token.Kind.literal? at hvalue
    split at hvalue
    · cases hvalue
      cases value with
      | int v => exact hkind
      | float x => exact hkind
      | _ => trivial
    · cases hvalue
      trivial
    · cases hvalue
      trivial
    · cases hvalue
      trivial
    · cases hvalue
  | record hnames _ => exact hnames
  | var hname => exact hname
  | letIn hne hnames _ _ => exact ⟨hne, hnames⟩
  | lambda hnodup hparams _ => exact ⟨hnodup, hparams⟩
  | member hfield _ => exact hfield
  | pipe hfunction _ _ => exact hfunction
  | alternative htwo _ => exact htwo
  | @select _ _ policy _ args _ hcapital harity _ _ =>
    refine ⟨hcapital, ?_⟩
    cases policy <;> simpa [Parser.arityFits] using harity
  | guarded hne _ _ => exact hne
  | array _ | unary _ | binary _ _ | cond _ _ _ | call _ _ => trivial

/-- Every node of a parsed source is sound.

**Proof sketch.** The tokens of a source are sound, the parser puts together well-formed expressions
of sound tokens, and children of well-formed expressions are well-formed. -/
theorem isSound_of_parse {source : String} {e n : Expr Span} (h : parse source = .ok e)
    (hnode : e.Node n) : n.IsSound := by
  have hwellFormed : e.WellFormed Token.Kind.IsSound :=
    wellFormed_of_parse (fun _ htokens => isSound_of_tokenize htokens) h
  exact (hnode.of_children Expr.WellFormed.children hwellFormed).isSound

/-- The tokens of a selector over an alternative. -/
def assertedCandidatesTokens : List Token :=
  [⟨.ident "Int", "Int", 0⟩, ⟨.punct .bang, "!", 3⟩, ⟨.punct .openParen, "(", 4⟩,
   ⟨.ident "x", "x", 5⟩, ⟨.punct .bar, "|", 7⟩, ⟨.literal (.int 7), "7", 9⟩,
   ⟨.punct .comma, ",", 10⟩, ⟨.literal (.string "no"), "'no'", 12⟩,
   ⟨.punct .closeParen, ")", 16⟩, Token.atEnd 17]

/-- The alternative. -/
def assertedCandidates : Expr Span :=
  .alternative ⟨5, 10⟩ [.var ⟨5, 6⟩ "x", .literal ⟨9, 10⟩ (.int 7)]

/-- The selector. -/
def candidatesSelector : Expr Span :=
  .select ⟨0, 17⟩ "Int" .assert [] [assertedCandidates, .literal ⟨12, 16⟩ (.string "no")]

/-- The alternative is a node of the selector. -/
theorem isSound_of_parse_assertedCandidates :
    parse "Int!(x | 7, 'no')" = .ok candidatesSelector ∧
      candidatesSelector.Node assertedCandidates ∧ assertedCandidates.IsSound := by
  have htokens : (tokenize "Int!(x | 7, 'no')").toOption = some assertedCandidatesTokens := by cbv
  have hparse : parse "Int!(x | 7, 'no')" = .ok candidatesSelector := parse_eq_ok htokens rfl
  have hnode : candidatesSelector.Node assertedCandidates := .child List.mem_cons_self (.self _)
  exact ⟨hparse, hnode, isSound_of_parse hparse hnode⟩

end Retarget
