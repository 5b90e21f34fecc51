import Retarget.Proofs.Parsing.Reading

set_option autoImplicit false

/-!
# Reading each construct

Rows of expressions between marks are read by loops; each construct is then read part by part. So the
tokens of every well-formed expression are read as that expression.

## Main results

* `Retarget.Parser.reads_separated`, `Retarget.Parser.reads_closed` — the loops over rows.
* `Retarget.Expr.WellFormed.readable` — the tokens of a well-formed expression are read as it.
-/

namespace Retarget

namespace Parser

variable {α β : Type} {ks ks' k : List Token.Kind} {x : Token.Kind}

/-! ## Rows -/

section Rows

variable {e : Expr Bool} {es : List (Expr Bool)} {fuel : Nat}

/-- A readable expression has tokens. -/
lemma Readable.kinds_ne_nil (h : Readable e) : e.kinds ≠ [] := by
  obtain ⟨x, xs, hx, -⟩ := h.opens.cons
  exact hx ▸ List.cons_ne_nil x xs

/-- No token that ends expressions starts one. -/
lemma Readable.head?_ne (h : Readable e) (hx : x.reach = 0) (more : List Token.Kind) :
    (e.kinds ++ more).head? ≠ some x := by
  obtain ⟨y, ys, hy, hreach, -⟩ := h.opens.cons
  rw [hy]
  rintro ⟨⟩
  omega

/-- The tokens of a readable expression are read as it where a whole expression can stand. -/
lemma Readable.expression (h : Readable e) (hk : Follows 0 k) (hfuel : 24 * e.kinds.length ≤ fuel) :
    Reads (expression fuel) e.kinds k (Alike e) := by
  have hwhole := h.readsAt 0 (Nat.zero_le _)
  rw [Expr.kindsAt_of_le (Nat.zero_le _)] at hwhole
  exact hwhole.expression h.kinds_ne_nil hk hfuel

end Rows

section Loops

variable {γ : Type} (loop : Nat → Parser (List β)) (one : Nat → Parser β) {mark close : Punct}
  {row : γ → List Token.Kind} {R : γ → β → Prop} {gs : List γ} {fuel bound : Nat}

/-- A loop over things with marks between them.

**Proof sketch.** By induction on the things. Each is read with what follows it, a mark or what
comes behind the row, and neither goes on with a thing. -/
lemma reads_separated
    (hloop : ∀ fuel, loop (fuel + 1) = do
      let first ← one fuel
      if ← eat mark then return first :: (← loop fuel)
      return [first])
    (hone : ∀ g ∈ gs, ∀ fuel k, Follows bound k → 24 * (row g).length + 7 ≤ fuel →
      Reads (one fuel) (row g) k (R g))
    (hreach : (Token.Kind.punct mark).reach ≤ bound) (hgs : gs ≠ []) (hk : Follows bound k)
    (hmark : k.head? ≠ some (.punct mark))
    (hfuel : 24 * (Expr.separated mark (gs.map row)).length + 8 ≤ fuel) :
    Reads (loop fuel) (Expr.separated mark (gs.map row)) k (List.Forall₂ R gs) := by
  induction gs generalizing fuel with
  | nil => exact absurd rfl hgs
  | cons g gs ih =>
    obtain ⟨hg, hrest⟩ := List.forall_mem_cons.mp hone
    obtain ⟨fuel, rfl⟩ : ∃ n, fuel = n + 1 := ⟨fuel - 1, by omega⟩
    rw [hloop]
    cases gs with
    | nil =>
      refine (hg fuel k hk (by simpa [Expr.separated] using hfuel)).last fun b hb => ?_
      exact leads_pass hmark (reads_pure (.cons hb .nil))
    | cons g' gs =>
      rw [List.map_cons, List.map_cons, Expr.separated_cons_cons, List.length_append,
        List.length_cons] at hfuel
      refine (hg fuel _ (follows_cons hreach) (by omega)).bind fun b hb => leads_eat ?_
      refine (ih hrest (List.cons_ne_nil _ _) (by simpa using by omega)).last fun bs hbs => ?_
      exact reads_pure (.cons hb hbs)

/-- A loop over things with commas between them up to a closing mark.

**Proof sketch.** By induction on the things. Each is read with what follows it, a comma or the
closing mark, and neither goes on with an expression. The closing mark is asked for before a thing,
so no thing may start with it (`hopen`). -/
lemma reads_closed
    (hloop : ∀ fuel, loop (fuel + 1) = do
      if ← eat close then return []
      let first ← one fuel
      if ← eat .comma then return first :: (← loop fuel)
      expect close
      return [first])
    (hone : ∀ g ∈ gs, ∀ fuel k, Follows 0 k → 24 * (row g).length + 7 ≤ fuel →
      Reads (one fuel) (row g) k (R g))
    (hopen : ∀ g ∈ gs, ∀ more, (row g ++ more).head? ≠ some (.punct close))
    (hreach : (Token.Kind.punct close).reach = 0) (hclose : close ≠ .comma)
    (hfuel : 24 * (Expr.separated .comma (gs.map row)).length + 8 ≤ fuel) :
    Reads (loop fuel) (Expr.separated .comma (gs.map row) ++ [.punct close]) k
      (List.Forall₂ R gs) := by
  induction gs generalizing fuel with
  | nil =>
    obtain ⟨fuel, rfl⟩ : ∃ n, fuel = n + 1 := ⟨fuel - 1, by omega⟩
    rw [hloop]
    exact leads_eat (reads_pure .nil)
  | cons g gs ih =>
    obtain ⟨hg, hrest⟩ := List.forall_mem_cons.mp hone
    obtain ⟨hfirst, hothers⟩ := List.forall_mem_cons.mp hopen
    obtain ⟨fuel, rfl⟩ : ∃ n, fuel = n + 1 := ⟨fuel - 1, by omega⟩
    rw [hloop]
    cases gs with
    | nil =>
      refine leads_pass (by rw [List.append_assoc]; exact hfirst _) ?_
      refine (hg fuel _ (follows_cons (Nat.le_of_eq hreach)) (by simpa [Expr.separated] using hfuel)).bind
        fun b hb => ?_
      exact leads_pass (by simpa using hclose) (leads_expect (reads_pure (.cons hb .nil)))
    | cons g' gs =>
      rw [List.map_cons, List.map_cons, Expr.separated_cons_cons, List.length_append,
        List.length_cons] at hfuel
      rw [List.map_cons, List.map_cons, Expr.separated_cons_cons, List.append_assoc]
      refine leads_pass (by rw [List.append_assoc]; exact hfirst _) ?_
      refine (hg fuel _ (follows_cons (by decide)) (by omega)).bind fun b hb => leads_eat ?_
      refine (ih hrest hothers (by simpa using by omega)).last fun bs hbs => ?_
      exact reads_pure (.cons hb hbs)

end Loops

section Lists

variable {es : List (Expr Bool)} {fuel : Nat}

/-- Rows of expressions that are alike are the same without their notes. -/
lemma plains_of_forall₂ {vs : List (Expr Span)} (h : List.Forall₂ Alike es vs) :
    Expr.plains vs = Expr.plains es := by
  induction h with
  | nil => rfl
  | cons h _ ih => exact congrArg₂ List.cons h ih

/-- Expressions between commas up to a closing mark. -/
lemma reads_items {close : Punct} (hes : ∀ e ∈ es, Readable e)
    (hreach : (Token.Kind.punct close).reach = 0) (hclose : close ≠ .comma)
    (hfuel : 24 * (Expr.separated .comma (Expr.rows 0 0 es)).length + 8 ≤ fuel) :
    Reads (items fuel close) (Expr.separated .comma (Expr.rows 0 0 es) ++ [.punct close]) k
      fun vs => Expr.plains vs = Expr.plains es := by
  rw [Expr.rows_eq_map] at hfuel ⊢
  refine (reads_closed (items · close) expression (fun _ => rfl) (fun e he fuel k hk hfuel => ?_)
    (fun e he more => ?_) hreach hclose hfuel).imp fun vs => plains_of_forall₂
  · rw [Expr.kindsAt_zero] at hfuel ⊢
    exact (hes e he).expression hk (by omega)
  · rw [Expr.kindsAt_zero]
    exact (hes e he).head?_ne hreach more

/-- Arguments in parentheses, the opening one taken. -/
lemma reads_arguments (hes : ∀ e ∈ es, Readable e)
    (hfuel : 24 * (Expr.separated .comma (Expr.rows 0 0 es)).length + 8 ≤ fuel) :
    Reads (items fuel .closeParen)
      (Expr.separated .comma (Expr.rows 0 0 es) ++ [.punct .closeParen]) k
      fun vs => Expr.plains vs = Expr.plains es :=
  reads_items hes rfl (by decide) hfuel

/-- The candidates behind the first one. -/
lemma reads_candidates (hes : ∀ e ∈ es, Readable e) (hne : es ≠ []) (hk : Follows 1 k)
    (hfuel : 24 * (Expr.separated .bar (Expr.rows 3 3 es)).length + 8 ≤ fuel) :
    Reads (candidates fuel) (Expr.separated .bar (Expr.rows 3 3 es)) k
      fun vs => Expr.plains vs = Expr.plains es := by
  rw [Expr.rows_eq_map] at hfuel ⊢
  have htwo : Follows 2 k := hk.mono (by decide)
  refine (reads_separated candidates (binary · .disjunction) (fun _ => rfl)
    (fun e he fuel k hk hfuel => ?_) (by decide) hne htwo (hk.head?_ne (by decide)) hfuel).imp
    fun vs => plains_of_forall₂
  obtain ⟨x, xs, hx, -⟩ := ((hes e he).opens.at 3).cons
  exact (((hes e he).readsAt 3 (by decide)).mono (by decide)).finish (hx ▸ List.cons_ne_nil x xs)
    (.inr (by decide)) hk (by simp only [Stage.ofRank, Stage.depth]; omega)

/-- Named expressions that are the same but for their notes. -/
def AlikeNamed (p : String × Expr Bool) (p' : String × Expr Span) : Prop :=
  p'.1 = p.1 ∧ Alike p.2 p'.2

/-- Rows of named expressions that are alike are the same without their notes. -/
lemma plainNamed_of_forall₂ {ps : List (String × Expr Bool)} {ps' : List (String × Expr Span)}
    (h : List.Forall₂ AlikeNamed ps ps') : Expr.plainNamed ps' = Expr.plainNamed ps := by
  induction h with
  | nil => rfl
  | cons h _ ih => exact congrArg₂ List.cons (Prod.ext h.1 h.2) ih

/-- One binding of a `let`. -/
def binding (fuel : Nat) : Parser (String × Expr Span) := do
  let name ← identifier
  expect .assign
  let value ← expression fuel
  return (name, value)

/-- Bindings are read one after the other, as long as a comma follows. -/
lemma bindings_succ (fuel : Nat) : bindings (fuel + 1) = do
    let first ← binding fuel
    if ← eat .comma then return first :: (← bindings fuel)
    return [first] := by
  simp only [bindings, binding, bind_assoc, pure_bind]

/-- The bindings of a `let`. -/
lemma reads_bindings {bound : List (String × Expr Bool)} (hvalues : ∀ b ∈ bound, Readable b.2)
    (hne : bound ≠ []) (hk : Follows 0 k) (hcomma : k.head? ≠ some (.punct .comma))
    (hfuel : 24 * (Expr.separated .comma (Expr.namedRows Expr.bindingKinds bound)).length + 8 ≤ fuel) :
    Reads (bindings fuel) (Expr.separated .comma (Expr.namedRows Expr.bindingKinds bound)) k
      fun bs => Expr.plainNamed bs = Expr.plainNamed bound := by
  rw [Expr.namedRows_eq_map] at hfuel ⊢
  refine (reads_separated bindings binding bindings_succ (fun b hb fuel k hk hfuel => ?_) (by decide)
    hne hk hcomma hfuel).imp fun bs => plainNamed_of_forall₂
  simp only [Expr.bindingKinds, List.length_append, List.length_cons, List.length_nil] at hfuel
  refine leads_identifier (leads_expect (((hvalues b hb).expression hk (by omega)).last fun v hv => ?_))
  exact reads_pure ⟨rfl, hv⟩

/-- Conditions that are the same but for their notes. -/
def AlikeCondition (c : Condition (Expr Bool)) (c' : Condition (Expr Span)) : Prop :=
  c'.label = c.label ∧ Alike c.test c'.test

/-- Rows of conditions that are alike are the same without their notes. -/
lemma plainConditions_of_forall₂ {cs : List (Condition (Expr Bool))}
    {cs' : List (Condition (Expr Span))} (h : List.Forall₂ AlikeCondition cs cs') :
    Expr.plainConditions cs' = Expr.plainConditions cs := by
  induction h with
  | nil => rfl
  | @cons c c' _ _ h _ ih =>
    obtain ⟨label, test⟩ := c
    obtain ⟨label', test'⟩ := c'
    obtain ⟨rfl, htest⟩ := h
    exact congrArg₂ List.cons (congrArg (Condition.mk label') htest) ih

section Conditions

variable {cs : List (Condition (Expr Bool))}

/-- One condition. The first tokens of a test are no label. -/
lemma reads_condition {c : Condition (Expr Bool)} (h : Readable c.test) (hk : Follows 0 k)
    (hfuel : 24 * (Expr.labelKinds c.label ++ c.test.kinds).length + 7 ≤ fuel) :
    Reads (condition fuel) (Expr.labelKinds c.label ++ c.test.kinds) k (AlikeCondition c) := by
  rw [List.length_append] at hfuel
  obtain ⟨fuel, rfl⟩ : ∃ n, fuel = n + 1 := ⟨fuel - 1, by omega⟩
  refine leads_label (fun _ => h.opens.unlabelled k (hk.head?_ne (by decide))) ?_
  exact (h.expression hk (by omega)).last fun v hv => reads_pure ⟨rfl, hv⟩

/-- The tokens of conditions are read as them. -/
lemma reads_conditions (htests : ∀ c ∈ cs, Readable c.test) (hne : cs ≠ []) (hk : Follows 0 k)
    (hcomma : k.head? ≠ some (.punct .comma))
    (hfuel : 24 * (Expr.separated .comma (Expr.conditionRows cs)).length + 8 ≤ fuel) :
    Reads (conditions fuel) (Expr.separated .comma (Expr.conditionRows cs)) k
      fun cs' => Expr.plainConditions cs' = Expr.plainConditions cs := by
  rw [Expr.conditionRows_eq_map] at hfuel ⊢
  exact (reads_separated conditions condition (fun _ => rfl)
    (fun c hc fuel k hk hfuel => reads_condition (htests c hc) hk hfuel) (by decide) hne hk hcomma
    hfuel).imp fun cs' => plainConditions_of_forall₂

/-- The tokens of the constraints of a selector and the closing brace are read as the constraints.
-/
lemma reads_constraints (htests : ∀ c ∈ cs, Readable c.test)
    (hfuel : 24 * (Expr.separated .comma (Expr.conditionRows cs)).length + 8 ≤ fuel) :
    Reads (constraints fuel)
      (Expr.separated .comma (Expr.conditionRows cs) ++ [.punct .closeBrace]) k
      fun cs' => Expr.plainConditions cs' = Expr.plainConditions cs := by
  rw [Expr.conditionRows_eq_map] at hfuel ⊢
  refine (reads_closed constraints condition (fun _ => rfl)
    (fun c hc fuel k hk hfuel => reads_condition (htests c hc) hk hfuel) (fun c hc more => ?_) rfl
    (by decide) hfuel).imp fun cs' => plainConditions_of_forall₂
  cases hlabel : c.label with
  | none => exact (htests c hc).head?_ne rfl more
  | some name => simp [Expr.labelKinds]

end Conditions

/-- The first of fresh names has not been seen, and the others are fresh behind it. -/
lemma Fresh.of_cons {seen names : List String} {name : String} (h : Fresh seen (name :: names)) :
    name ∉ seen ∧ Fresh (name :: seen) names := by
  obtain ⟨hnodup, hdisjoint⟩ := h
  obtain ⟨hname, hnodup⟩ := List.nodup_cons.mp hnodup
  obtain ⟨hseen, hdisjoint⟩ := List.disjoint_cons_left.mp hdisjoint
  exact ⟨hseen, hnodup, List.disjoint_cons_right.mpr ⟨hname, hdisjoint⟩⟩

/-- The fields of a record, whose names are distinct.

**Proof sketch.** Induction over the fields. The name of a field is a token of its own, which has
not been seen before; then come a colon, the value, and the closing brace or a comma with the other
fields behind it. -/
lemma reads_fields {fs : List (String × Expr Bool)} {seen : List String}
    (hvalues : ∀ f ∈ fs, Readable f.2) (hfresh : Fresh seen (fs.map Prod.fst))
    (hfuel : 24 * (Expr.separated .comma (Expr.namedRows Expr.fieldKinds fs)).length + 8 ≤ fuel) :
    Reads (fields fuel seen)
      (Expr.separated .comma (Expr.namedRows Expr.fieldKinds fs) ++ [.punct .closeBrace]) k
      fun fs' => Expr.plainNamed fs' = Expr.plainNamed fs := by
  induction fs generalizing fuel seen with
  | nil =>
    obtain ⟨fuel, rfl⟩ : ∃ n, fuel = n + 1 := ⟨fuel - 1, by omega⟩
    exact leads_eat (reads_pure rfl)
  | cons f fs ih =>
    obtain ⟨name, value⟩ := f
    obtain ⟨hvalue, hmore⟩ := List.forall_mem_cons.mp hvalues
    have hvalue : Readable value := hvalue
    obtain ⟨hname, hfresh⟩ := hfresh.of_cons
    obtain ⟨fuel, rfl⟩ : ∃ n, fuel = n + 1 := ⟨fuel - 1, by omega⟩
    -- Behind the last field there is the brace, behind any other one a comma.
    cases fs with
    | nil =>
      simp only [Expr.namedRows, Expr.separated, Expr.fieldKinds, List.length_append,
        List.length_cons, List.length_nil] at hfuel
      refine leads_pass (by simp [Expr.namedRows, Expr.separated, Expr.fieldKinds])
        (leads_here fun start => leads_fieldName ?_)
      rw [if_neg hname]
      refine leads_expect ((hvalue.expression (follows_cons (by decide)) (by omega)).bind
        fun v hv => ?_)
      refine leads_pass (by simp) (leads_expect (reads_pure ?_))
      exact congrArg (fun v => [(name, v)]) hv
    | cons f' fs =>
      have hshape : Expr.separated .comma (Expr.namedRows Expr.fieldKinds ((name, value) :: f' :: fs)) =
          .literal (.string name) :: .punct .colon :: (value.kinds ++ .punct .comma ::
            Expr.separated .comma (Expr.namedRows Expr.fieldKinds (f' :: fs))) := rfl
      rw [hshape] at hfuel ⊢
      simp only [List.length_append, List.length_cons] at hfuel
      simp only [List.cons_append, List.append_assoc]
      refine leads_pass (by simp) (leads_here fun start => leads_fieldName ?_)
      rw [if_neg hname]
      refine leads_expect ((hvalue.expression (follows_cons (by decide)) (by omega)).bind
        fun v hv => leads_eat ((ih hmore hfresh (by omega)).last fun vs hvs => reads_pure ?_))
      exact congrArg₂ (fun v vs => (name, v) :: vs) hv hvs

/-- The parameters of a function, which are distinct. -/
lemma reads_params {names seen : List String} (hfresh : Fresh seen names)
    (hfuel : names.length < fuel) :
    Reads (params fuel seen)
      (Expr.separated .comma (names.map fun p => [.ident p]) ++ [.punct .arrow]) k
      fun ps => ps = names := by
  induction names generalizing fuel seen with
  | nil =>
    obtain ⟨fuel, rfl⟩ : ∃ n, fuel = n + 1 := ⟨fuel - 1, by omega⟩
    exact leads_eat (reads_pure rfl)
  | cons p ps ih =>
    obtain ⟨hp, hfresh⟩ := hfresh.of_cons
    obtain ⟨fuel, rfl⟩ : ∃ n, fuel = n + 1 := ⟨fuel - 1, by omega⟩
    cases ps with
    | nil =>
      refine leads_pass (by simp [Expr.separated]) (leads_here fun start => leads_identifier ?_)
      rw [if_neg hp]
      exact leads_pass (by simp) (leads_expect (reads_pure rfl))
    | cons p' ps =>
      refine leads_pass (by simp [Expr.separated]) (leads_here fun start => leads_identifier ?_)
      rw [if_neg hp]
      refine leads_eat ((ih hfresh (by simpa using hfuel)).last fun rest hrest => ?_)
      exact reads_pure (congrArg _ hrest)

end Lists

/-! ## Innermost expressions -/

section Primary

variable {fuel : Nat}

/-- The token of a constant is read as it. -/
lemma readsAt_literal {note : Bool} (value : Literal) :
    ReadsAt 12 12 [value.kind] (.literal note value) := by
  refine readsAt_of_primary (List.cons_ne_nil _ _) fun fuel k _ _ => ?_
  refine leads_here fun start => leads_peek rfl fun t ht => ?_
  rw [ht]
  cases value with
  | bool b => cases b <;> exact leads_advance (leads_spanFrom fun span => reads_pure rfl)
  | _ => exact leads_advance (leads_spanFrom fun span => reads_pure rfl)

/-- The tokens of an array are read as it. -/
lemma readsAt_array {note : Bool} {es : List (Expr Bool)} (hes : ∀ e ∈ es, Readable e) :
    ReadsAt 12 12 (Expr.array note es).kinds (.array note es) := by
  refine readsAt_of_primary (List.cons_ne_nil _ _) fun fuel k _ hfuel => ?_
  simp only [Expr.kinds_array, Expr.between, List.length_cons, List.length_append, List.length_nil] at hfuel
  refine leads_here fun start => leads_peek rfl fun t ht => ?_
  rw [ht]
  refine leads_advance ((reads_items hes rfl (by decide) (by omega)).last fun vs hvs => ?_)
  exact leads_spanFrom fun span => reads_pure (congrArg (Expr.array ()) hvs)

/-- The tokens of a record are read as it. -/
lemma readsAt_record {note : Bool} {fs : List (String × Expr Bool)} (hnames : (fs.map Prod.fst).Nodup)
    (hvalues : ∀ f ∈ fs, Readable f.2) :
    ReadsAt 12 12 (Expr.record note fs).kinds (.record note fs) := by
  refine readsAt_of_primary (List.cons_ne_nil _ _) fun fuel k _ hfuel => ?_
  simp only [Expr.kinds_record, Expr.between, List.length_cons, List.length_append, List.length_nil] at hfuel
  refine leads_here fun start => leads_peek rfl fun t ht => ?_
  rw [ht]
  have hfresh : Fresh [] (fs.map Prod.fst) := ⟨hnames, List.disjoint_nil_right _⟩
  refine leads_advance ((reads_fields hvalues hfresh (by omega)).last fun vs hvs => ?_)
  exact leads_spanFrom fun span => reads_pure (congrArg (Expr.record ()) hvs)

/-- What becomes of a name depends on the two tokens behind it. -/
lemma leads_name {name : String} {Q : Parser (Expr Span) → Prop} {x y : Token.Kind}
    (hx : (ks ++ k)[0]?.getD .eof = x) (hy : (ks ++ k)[1]?.getD .eof = y)
    (h : ∀ start, Leads
      (if x = .punct .arrow then do
        advance
        let body ← expression fuel
        return .lambda (← spanFrom start) [name] body
      else if isCapitalized name && opensSelector x y then selector fuel start name
      else do return .var (← spanFrom start) name) ks k Q) :
    Leads (primary (fuel + 1)) (.ident name :: ks) k Q := by
  subst hx hy
  refine leads_here fun start => leads_peek rfl fun t ht => ?_
  rw [ht]
  exact leads_peekKind (leads_peekKind (leads_advance (h start)))

/-- What makes a name a selector reaches to names. -/
lemma reach_of_opensSelector {x y : Token.Kind} (h : opensSelector x y = true) : 12 ≤ x.reach := by
  unfold opensSelector at h
  split at h <;> first | decide | cases h

/-- The token of a variable is read as it. -/
lemma readsAt_var {note : Bool} (name : String) :
    ReadsAt 12 (Expr.var note name).rank [.ident name] (.var note name) := by
  refine readsAt_of_primary (List.cons_ne_nil _ _) fun fuel k hk _ => ?_
  obtain ⟨x, xs, rfl, hx⟩ := hk
  have harrow : x ≠ .punct .arrow := by
    rintro rfl
    simp only [Token.Kind.reach, Expr.rank] at hx
    split_ifs at hx <;> omega
  have hselector (y : Token.Kind) : (isCapitalized name && opensSelector x y) = false := by
    by_contra hopens
    simp only [Bool.not_eq_false, Bool.and_eq_true] at hopens
    have hreach := reach_of_opensSelector hopens.2
    simp only [Expr.rank, hopens.1, if_true] at hx
    omega
  refine leads_name (x := x) rfl rfl fun start => ?_
  rw [if_neg harrow, if_neg (by simp [hselector])]
  exact leads_spanFrom fun span => reads_pure rfl

/-- The tokens of a conditional are read as it. -/
lemma readsAt_cond {note : Bool} {test yes no : Expr Bool} (htest : Readable test)
    (hyes : Readable yes) (hno : Readable no) :
    ReadsAt 12 0 (Expr.cond note test yes no).kinds (.cond note test yes no) := by
  refine readsAt_of_primary (List.cons_ne_nil _ _) fun fuel k hk hfuel => ?_
  simp only [Expr.kinds_cond, List.length_cons, List.length_append] at hfuel
  refine leads_here fun start => leads_peek rfl fun t ht => ?_
  rw [ht]
  refine leads_advance ((htest.expression (follows_cons (by decide)) (by omega)).bind fun a ha => ?_)
  refine leads_expectKeyword ((hyes.expression (follows_cons (by decide)) (by omega)).bind
    fun b hb => ?_)
  refine leads_expectKeyword ((hno.expression hk (by omega)).last fun c hc => ?_)
  refine leads_spanFrom fun span => reads_pure ?_
  simp only [Alike, Expr.plain] at ha hb hc ⊢
  rw [ha, hb, hc]

/-- The tokens of a `let` are read as it. -/
lemma readsAt_letIn {note : Bool} {bound : List (String × Expr Bool)} {body : Expr Bool}
    (hne : bound ≠ []) (hvalues : ∀ b ∈ bound, Readable b.2) (hbody : Readable body) :
    ReadsAt 12 0 (Expr.letIn note bound body).kinds (.letIn note bound body) := by
  refine readsAt_of_primary (List.cons_ne_nil _ _) fun fuel k hk hfuel => ?_
  simp only [Expr.kinds_letIn, List.length_cons, List.length_append] at hfuel
  refine leads_here fun start => leads_peek rfl fun t ht => ?_
  rw [ht]
  refine leads_advance ((reads_bindings hvalues hne (follows_cons (by decide)) (by simp)
    (by omega)).bind fun bs hbs => ?_)
  refine leads_expectKeyword ((hbody.expression hk (by omega)).last fun v hv => ?_)
  exact leads_spanFrom fun span => reads_pure (congrArg₂ (Expr.letIn ()) hbs hv)

/-- There are no more parameters than tokens of them. -/
lemma length_le_params (names : List String) :
    names.length ≤ (Expr.separated .comma (names.map fun p => [.ident p])).length := by
  induction names with
  | nil => exact Nat.le_refl 0
  | cons p ps ih =>
    cases ps with
    | nil => exact Nat.le_refl 1
    | cons p' ps =>
      rw [List.map_cons, List.map_cons, Expr.separated_cons_cons]
      rw [List.map_cons] at ih
      simp only [List.length_append, List.length_cons] at ih ⊢
      omega

/-- A function in its short form. -/
lemma readsAt_arrow {short : Bool} {name : String} {body : Expr Bool} (hbody : Readable body) :
    ReadsAt 12 0 (.ident name :: .punct .arrow :: body.kinds) (.lambda short [name] body) := by
  refine readsAt_of_primary (List.cons_ne_nil _ _) fun fuel k hk hfuel => ?_
  simp only [List.length_cons] at hfuel
  refine leads_name (x := .punct .arrow) rfl rfl fun start => ?_
  rw [if_pos rfl]
  refine leads_advance ((hbody.expression hk (by omega)).last fun v hv => ?_)
  exact leads_spanFrom fun span => reads_pure (congrArg (Expr.lambda () [name]) hv)

/-- A function in its long form. -/
lemma readsAt_fn {short : Bool} {names : List String} {body : Expr Bool} (hnames : names.Nodup)
    (hbody : Readable body) :
    ReadsAt 12 0 (.keyword .fn :: Expr.between .openParen
      (Expr.separated .comma (names.map fun p => [.ident p]) ++ .punct .arrow :: body.kinds)
      .closeParen) (.lambda short names body) := by
  refine readsAt_of_primary (List.cons_ne_nil _ _) fun fuel k hk hfuel => ?_
  have hlength := length_le_params names
  simp only [Expr.between, List.length_cons, List.length_append, List.length_nil] at hfuel
  have hshape : Expr.separated .comma (names.map fun p => [.ident p]) ++
        .punct .arrow :: body.kinds ++ [.punct .closeParen] =
      (Expr.separated .comma (names.map fun p => [.ident p]) ++ [.punct .arrow]) ++
        (body.kinds ++ [.punct .closeParen]) := by simp
  rw [Expr.between, hshape]
  refine leads_here fun start => leads_peek rfl fun t ht => ?_
  rw [ht]
  refine leads_advance (leads_expect ((reads_params ⟨hnames, List.disjoint_nil_right _⟩
    (by omega)).bind fun ps hps => ?_))
  refine (hbody.expression (follows_cons (by decide)) (by omega)).bind fun v hv => ?_
  subst hps
  exact leads_expect (leads_spanFrom fun span => reads_pure (congrArg (Expr.lambda () ps) hv))

/-- The tokens of a function are read as it, in its short form and in its long one. -/
lemma readsAt_lambda {short : Bool} {names : List String} {body : Expr Bool} (hnames : names.Nodup)
    (hbody : Readable body) :
    ReadsAt 12 0 (Expr.lambda short names body).kinds (.lambda short names body) := by
  change ReadsAt 12 0 (Expr.lambdaKinds short names body.kinds) _
  unfold Expr.lambdaKinds
  split
  · exact readsAt_arrow hbody
  · exact readsAt_fn hnames hbody

/-- The tokens of a guard or a check are read as it. -/
lemma readsAt_guarded {note : Bool} {kind : GuardKind} {cs : List (Condition (Expr Bool))}
    {body : Expr Bool} (hne : cs ≠ []) (htests : ∀ c ∈ cs, Readable c.test) (hbody : Readable body) :
    ReadsAt 12 0 (Expr.guarded note kind cs body).kinds (.guarded note kind cs body) := by
  refine readsAt_of_primary (List.cons_ne_nil _ _) fun fuel k hk hfuel => ?_
  simp only [Expr.kinds_guarded, List.length_cons, List.length_append] at hfuel
  obtain ⟨fuel, rfl⟩ : ∃ n, fuel = n + 1 := ⟨fuel - 1, by omega⟩
  have hguarded (start : Nat) : Reads (guarded (fuel + 1) start kind)
      (Expr.separated .comma (Expr.conditionRows cs) ++ .keyword .in :: body.kinds) k
      (Alike (.guarded note kind cs body)) := by
    refine (reads_conditions htests hne (follows_cons (by decide)) (by simp) (by omega)).bind
      fun cs' hcs => leads_expectKeyword ((hbody.expression hk (by omega)).last fun v hv => ?_)
    exact leads_spanFrom fun span => reads_pure (congrArg₂ (Expr.guarded () kind) hcs hv)
  refine leads_here fun start => leads_peek rfl fun t ht => ?_
  rw [ht]
  cases kind <;> exact leads_advance (hguarded start)

/-- The tokens behind the type name make it a selector. -/
lemma opensSelector_selectorKinds (mark : SelectPolicy) (constraints args : List (List Token.Kind))
    (k : List Token.Kind) :
    ∃ x, (Expr.selectorKinds mark constraints args ++ k)[0]?.getD .eof = x ∧ x ≠ .punct .arrow ∧
      opensSelector x ((Expr.selectorKinds mark constraints args ++ k)[1]?.getD .eof) = true := by
  cases constraints with
  | nil =>
    cases mark with
    | raise => exact ⟨.punct .openParen, rfl, by decide, rfl⟩
    | orNull => exact ⟨.punct .doubleQuestion, rfl, by decide, rfl⟩
    | check => exact ⟨.punct .question, rfl, by decide, rfl⟩
    | assert => exact ⟨.punct .bang, rfl, by decide, rfl⟩
  | cons row rows => exact ⟨.punct .openBrace, rfl, by decide, rfl⟩

/-- The tokens of a selector are read as it.

**Proof sketch.** The name of a type that opens a selector is followed by the constraints, if there
are any, by the mark of the policy and by the arguments in parentheses. Both forms go on with the
mark in the same way. -/
lemma readsAt_select {note : Bool} {typeName : String} {mark : SelectPolicy}
    {cs : List (Condition (Expr Bool))} {args : List (Expr Bool)}
    (hcapital : isCapitalized typeName = true) (harity : arityFits mark args.length = true)
    (htests : ∀ c ∈ cs, Readable c.test) (hargs : ∀ e ∈ args, Readable e) :
    ReadsAt 12 12 (Expr.select note typeName mark cs args).kinds
      (.select note typeName mark cs args) := by
  refine readsAt_of_primary (List.cons_ne_nil _ _) fun fuel k hk hfuel => ?_
  simp only [Expr.kinds_select, Expr.selectorKinds, Expr.argumentKinds, Expr.between, List.length_cons,
    List.length_append, List.length_nil] at hfuel
  obtain ⟨x, hx, harrow, hopens⟩ :=
    opensSelector_selectorKinds mark (Expr.conditionRows cs) (Expr.rows 0 0 args) k
  obtain ⟨fuel, rfl⟩ : ∃ n, fuel = n + 1 := ⟨fuel - 1, by omega⟩
  refine leads_name hx rfl fun start => ?_
  rw [if_neg harrow, if_pos (by rw [hcapital, hopens]; rfl)]
  -- What stands from the mark on, whichever constraints were read before it.
  have hmark {cs' : List (Condition (Expr Span))}
      (hcs : Expr.plainConditions cs' = Expr.plainConditions cs) :
      Leads (do
        let mark ← policy
        let opening ← here
        expect .openParen
        let args ← items fuel .closeParen
        if !arityFits mark args.length then failAt opening (.selectorArity typeName args.length)
        return .select (← spanFrom start) typeName mark cs' args)
      (mark.kinds ++ Expr.argumentKinds (Expr.rows 0 0 args)) k
      (fun q => ∃ a, Alike (.select note typeName mark cs args) a ∧ q = pure a) := by
    refine leads_policy rfl (leads_here fun opening => leads_expect ?_)
    refine (reads_arguments hargs (by omega)).last fun vs hvs => ?_
    have hlength : vs.length = args.length := by
      simpa [Expr.plains_eq_map] using congrArg List.length hvs
    rw [hlength, harity]
    refine leads_spanFrom fun span => reads_pure ?_
    exact congrArg₂ (Expr.select () typeName mark) hcs hvs
  cases cs with
  | nil =>
    have hbrace : (mark.kinds ++ Expr.argumentKinds (Expr.rows 0 0 args) ++ k).head? ≠
        some (.punct .openBrace) := by
      cases mark <;> simp [SelectPolicy.kinds, Expr.argumentKinds, Expr.between]
    exact leads_pass hbrace (hmark rfl)
  | cons c cs =>
    have hshape : Expr.selectorKinds mark (Expr.conditionRows (c :: cs)) (Expr.rows 0 0 args) =
        .punct .openBrace :: ((Expr.separated .comma (Expr.conditionRows (c :: cs)) ++
          [.punct .closeBrace]) ++ (mark.kinds ++ Expr.argumentKinds (Expr.rows 0 0 args))) := rfl
    have hlength : (Expr.constraintKinds (Expr.conditionRows (c :: cs))).length =
        (Expr.separated .comma (Expr.conditionRows (c :: cs))).length + 2 := by
      simp [Expr.conditionRows, Expr.constraintKinds, Expr.between]
    rw [hlength] at hfuel
    rw [hshape]
    exact leads_eat ((reads_constraints htests (by omega)).bind fun cs' hcs => hmark hcs)

end Primary

/-! ## Chains and operations -/

section Operations

variable {note : Bool}

/-- A readable expression has tokens at every place. -/
lemma Readable.length_pos {e : Expr Bool} (h : Readable e) (place : Nat) :
    0 < (e.kindsAt place).length := by
  obtain ⟨x, xs, hx, -⟩ := (h.opens.at place).cons
  rw [hx]
  exact Nat.succ_pos _

/-- The tokens of a call are read as it. -/
lemma readsAt_call {callee : Expr Bool} {args : List (Expr Bool)} (hcallee : Readable callee)
    (hargs : ∀ e ∈ args, Readable e) :
    ReadsAt 12 12 (Expr.call note callee args).kinds (.call note callee args) := by
  change ReadsAt 12 12 (callee.kindsAt 12 ++ Expr.argumentKinds (Expr.rows 0 0 args)) _
  intro fuel k hk hfuel
  have hlength := hcallee.length_pos 12
  have hdepth := (Stage.ofRank 12).depth_le
  simp only [Expr.argumentKinds, Expr.between, List.length_cons, List.length_append,
    List.length_nil] at hfuel
  refine (hcallee.readsAt 12 (by decide) fuel _ (follows_cons (by decide)) (by omega)).trans ?_
  rintro _ ⟨left, start, v, rfl, hleft, hv⟩
  obtain ⟨left, rfl⟩ : ∃ n, left = n + 1 := ⟨left - 1, by omega⟩
  refine leads_pass (by simp [Expr.argumentKinds, Expr.between]) (leads_eat ?_)
  refine (reads_arguments hargs (by omega)).last fun vs hvs => leads_spanFrom fun span => ?_
  refine leads_self ⟨left, start, _, rfl, ?_, congrArg₂ (Expr.call ()) hv hvs⟩
  simp only [Expr.argumentKinds, Expr.between, List.length_cons, List.length_append,
    List.length_nil]
  omega

/-- The tokens of a member read are read as it. -/
lemma readsAt_member {object : Expr Bool} {field : String} (hobject : Readable object) :
    ReadsAt 12 12 (Expr.member note object field).kinds (.member note object field) := by
  change ReadsAt 12 12 (object.kindsAt 11 ++ [.punct .dot, .ident field]) _
  intro fuel k hk hfuel
  have hlength := hobject.length_pos 11
  have hdepth : (Stage.ofRank 12).depth = 15 := rfl
  simp only [List.length_cons, List.length_append, List.length_nil] at hfuel
  refine (hobject.readsAt 11 (by decide) fuel _ (follows_cons (by decide)) (by simp only [Stage.ofRank, Stage.depth]; omega)).trans ?_
  rintro _ ⟨left, start, v, rfl, hleft, hv⟩
  obtain ⟨left, rfl⟩ : ∃ n, left = n + 1 := ⟨left - 1, by omega⟩
  refine leads_eat (leads_identifier (leads_spanFrom fun span => ?_))
  refine leads_self ⟨left, start, _, rfl, ?_, congrArg (Expr.member () · field) hv⟩
  simp only [List.length_cons, List.length_append, List.length_nil]
  omega

/-- The token of an operator in front of its operand is that of this operator. -/
lemma ofToken?_kind (op : UnaryOp) : UnaryOp.ofToken? op.kind = some op := by cases op <;> rfl

/-- The tokens of an operation with one operand are read as it. -/
lemma readsAt_unary {op : UnaryOp} {operand : Expr Bool} (hoperand : Readable operand) :
    ReadsAt 10 10 (Expr.unary note op operand).kinds (.unary note op operand) := by
  change ReadsAt 10 10 (op.kind :: operand.kindsAt 10) _
  intro fuel k hk hfuel
  rw [List.length_cons] at hfuel
  have hdepth := (Stage.ofRank 10).depth_le
  obtain ⟨fuel, rfl⟩ : ∃ n, fuel = n + 1 := ⟨fuel - 1, by omega⟩
  refine leads_here fun start => leads_peek rfl fun t ht => ?_
  rw [ht, ofToken?_kind]
  have hread : Reads (unary fuel) (operand.kindsAt 10) k (Alike operand) := by
    refine (hoperand.readsAt 10 (by decide) fuel k hk (by omega)).finish ?_
    rintro _ ⟨_, _, v, rfl, _, hv⟩
    exact reads_pure hv
  refine leads_advance (hread.last fun v hv => leads_spanFrom fun span => ?_)
  exact leads_self ⟨fuel, start, _, rfl, by rw [List.length_cons]; omega, congrArg (Expr.unary () op) hv⟩

section Levels

variable {op : BinaryOp} {l : Level} (hl : op.rank = l.rank)
include hl

/-- The left operand needs the rank of its level. -/
lemma leftRank_eq : op.leftRank = l.rank := by
  cases op <;> first | exact hl | (cases l <;> cases hl)

/-- The right operand needs a higher rank than its level. -/
lemma rightRank_eq : op.rightRank = l.rank + 1 := by
  cases op <;> first | exact congrArg (· + 1) hl | (cases l <;> cases hl)

/-- The operator can stand behind places of the rank of its level. -/
lemma reach_kind : op.kind.reach = l.rank :=
  Level.operator?_eq_some (Level.operator?_kind hl)

/-- An operation that groups to the left.

**Proof sketch.** The left operand is read first, at the rank of the operation, and the stage goes
on where it ends. The operator found there takes its right operand at the next higher rank, which
leaves the loop with the operation as its value. -/
lemma readsAt_leftward {lhs rhs : Expr Bool} (hlhs : Readable lhs) (hrhs : Readable rhs) :
    ReadsAt op.rank op.rank (Expr.binary note op lhs rhs).kinds (.binary note op lhs rhs) := by
  change ReadsAt op.rank op.rank (lhs.kindsAt op.leftRank ++ op.kind :: rhs.kindsAt op.rightRank) _
  rw [leftRank_eq hl, rightRank_eq hl, hl]
  intro fuel k hk hfuel
  have hrank : 3 ≤ l.rank ∧ l.rank ≤ 8 := by cases l <;> decide
  have hstage : Stage.ofRank l.rank = .level l := by cases l <;> rfl
  have hoperand (fuel : Nat) : operand (fuel + 1) l = (Stage.ofRank (l.rank + 1)).step fuel := by
    cases l <;> rfl
  have hlength := hlhs.length_pos l.rank
  have hdepth := (Stage.ofRank l.rank).depth_le
  rw [List.length_append, List.length_cons] at hfuel ⊢
  refine (hlhs.readsAt l.rank (by omega) fuel _ (follows_cons (Nat.le_of_eq (reach_kind hl)))
    (by omega)).trans ?_
  rintro _ ⟨left, start, a, rfl, hleft, ha⟩
  obtain ⟨left, rfl⟩ : ∃ n, left = n + 2 := ⟨left - 2, by omega⟩
  rw [hstage]
  refine leads_peek rfl fun t ht => ?_
  rw [ht, Level.operator?_kind hl]
  have hread : Reads (operand (left + 1) l) (rhs.kindsAt (l.rank + 1)) k (Alike rhs) := by
    rw [hoperand]
    obtain ⟨x, xs, hx, -⟩ := (hrhs.opens.at (l.rank + 1)).cons
    exact ((hrhs.readsAt (l.rank + 1) (by omega)).mono (Nat.le_succ _)).finish
      (hx ▸ List.cons_ne_nil x xs) (.inr (by omega)) hk (by omega)
  refine leads_advance (hread.last fun b hb => leads_spanFrom fun span => ?_)
  exact leads_self ⟨left + 1, start, _, rfl, by omega, congrArg₂ (Expr.binary () op) ha hb⟩

end Levels

/-- A power, which groups to the right.

**Proof sketch.** The base is read at the next higher rank. The exponent is read at the rank of the
power itself, so a row of powers groups to the right. -/
lemma readsAt_power {base exponent : Expr Bool} (hbase : Readable base)
    (hexponent : Readable exponent) :
    ReadsAt 9 9 (Expr.binary note .pow base exponent).kinds (.binary note .pow base exponent) := by
  change ReadsAt 9 9 (base.kindsAt 10 ++ .punct .caret :: exponent.kindsAt 9) _
  intro fuel k hk hfuel
  have hdepth : (Stage.ofRank 9).depth = 13 := rfl
  have hdepth' : (Stage.ofRank 10).depth = 14 := rfl
  rw [List.length_append, List.length_cons] at hfuel ⊢
  obtain ⟨fuel, rfl⟩ : ∃ n, fuel = n + 1 := ⟨fuel - 1, by omega⟩
  have hread : Reads (unary fuel) (base.kindsAt 10) (.punct .caret :: exponent.kindsAt 9 ++ k)
      (Alike base) := by
    refine (hbase.readsAt 10 (by decide) fuel _ (follows_cons (by decide)) (by omega)).finish ?_
    rintro _ ⟨_, _, v, rfl, _, hv⟩
    exact reads_pure hv
  have hread' : Reads (power fuel) (exponent.kindsAt 9) k (Alike exponent) := by
    refine (hexponent.readsAt 9 (by decide) fuel k hk (by omega)).finish ?_
    rintro _ ⟨_, _, v, rfl, _, hv⟩
    exact reads_pure hv
  refine leads_here fun start => hread.bind fun a ha => leads_eat ?_
  refine hread'.last fun b hb => leads_spanFrom fun span => ?_
  exact leads_self ⟨fuel, start, _, rfl, by omega, congrArg₂ (Expr.binary () .pow) ha hb⟩

/-- The tokens of an operation with two operands are read as it. -/
lemma readsAt_binary {op : BinaryOp} {lhs rhs : Expr Bool} (hlhs : Readable lhs)
    (hrhs : Readable rhs) :
    ReadsAt op.rank op.rank (Expr.binary note op lhs rhs).kinds (.binary note op lhs rhs) := by
  cases op with
  | or => exact readsAt_leftward (l := .disjunction) rfl hlhs hrhs
  | and => exact readsAt_leftward (l := .conjunction) rfl hlhs hrhs
  | eq | neq => exact readsAt_leftward (l := .equality) rfl hlhs hrhs
  | lt | lte | gt | gte => exact readsAt_leftward (l := .comparison) rfl hlhs hrhs
  | add | sub => exact readsAt_leftward (l := .sum) rfl hlhs hrhs
  | mul | div | mod => exact readsAt_leftward (l := .product) rfl hlhs hrhs
  | pow => exact readsAt_power hlhs hrhs

/-- The tokens of a pipe are read as it, in its short form and in its long one.

**Proof sketch.** The value is read first, and the pipe behind it is taken with its function. In its
short form no parenthesis follows, and in its long one the arguments do; both go on with the pipes
that may follow. -/
lemma readsAt_pipe {short : Bool} {value : Expr Bool} {function : String} {args : List (Expr Bool)}
    (hvalue : Readable value) (hargs : ∀ e ∈ args, Readable e) :
    ReadsAt 2 2 (Expr.pipe short value function args).kinds (.pipe short value function args) := by
  change ReadsAt 2 2 (value.kindsAt 1 ++ .punct .pipe :: .ident function ::
    Expr.pipeKinds short (Expr.rows 0 0 args)) _
  intro fuel k hk hfuel
  have hlength := hvalue.length_pos 1
  have hdepth : (Stage.ofRank 2).depth = 0 := rfl
  have hdepth' : (Stage.ofRank 1).depth = 0 := rfl
  simp only [List.length_append, List.length_cons] at hfuel ⊢
  refine (hvalue.readsAt 1 (by decide) fuel _ (follows_cons (by decide)) (by omega)).trans ?_
  rintro _ ⟨left, start, v, rfl, hleft, hv⟩
  obtain ⟨left, rfl⟩ : ∃ n, left = n + 1 := ⟨left - 1, by omega⟩
  refine leads_pass (by simp) (leads_eat (leads_identifier ?_))
  -- How the pipeline goes on behind the arguments.
  have hgo (vs : List (Expr Span)) {taken : Nat} (hvs : Expr.plains vs = Expr.plains args)
      (htaken : fuel ≤ left + taken) :
      Leads (do pipeline left start (.pipe (← spanFrom start) v function vs)) [] k fun q =>
        ∃ left' start' e', q = (Stage.ofRank 2).resume left' start' e' ∧ fuel ≤ left' + taken ∧
          Alike (.pipe short value function args) e' := by
    refine leads_spanFrom fun span => leads_self ⟨left, start, _, rfl, htaken, ?_⟩
    exact congrArg₂ (Expr.pipe () · function) hv hvs
  unfold Expr.pipeKinds at hfuel ⊢
  split at hfuel
  · rename_i hnone
    have hnil : args = [] := by
      cases args with
      | nil => rfl
      | cons e es => cases hnone
    refine leads_pass (hk.head?_ne (by decide)) (hgo [] (by rw [hnil]; rfl) (by omega))
  · simp only [Expr.argumentKinds, Expr.between, List.length_cons, List.length_append,
      List.length_nil] at hfuel
    exact leads_eat ((reads_arguments hargs (by omega)).last fun vs hvs => hgo vs hvs (by omega))

/-- The tokens of an alternative are read as it.

**Proof sketch.** The first candidate is read at rank two, where the bar ends it, and the loop takes
the bar; the others are read with bars between them (`reads_candidates`). -/
lemma readsAt_alternative {cs : List (Expr Bool)} (hcount : 2 ≤ cs.length)
    (hcs : ∀ e ∈ cs, Readable e) :
    ReadsAt 1 1 (Expr.alternative note cs).kinds (.alternative note cs) := by
  rcases cs with - | ⟨c, - | ⟨d, ds⟩⟩
  · simp at hcount
  · simp at hcount
  obtain ⟨hc, hrest⟩ := List.forall_mem_cons.mp hcs
  change ReadsAt 1 1 (c.kindsAt 2 ++ .punct .bar :: Expr.separated .bar (Expr.rows 3 3 (d :: ds))) _
  intro fuel k hk hfuel
  have hlength := hc.length_pos 2
  have hdepth : (Stage.ofRank 1).depth = 0 := rfl
  have hdepth' : (Stage.ofRank 2).depth = 0 := rfl
  rw [List.length_append, List.length_cons] at hfuel ⊢
  refine (hc.readsAt 2 (by decide) fuel _ (follows_cons (by decide)) (by omega)).trans ?_
  rintro _ ⟨left, start, v, rfl, hleft, hv⟩
  obtain ⟨left, rfl⟩ : ∃ n, left = n + 1 := ⟨left - 1, by omega⟩
  refine leads_eat ((reads_candidates hrest (List.cons_ne_nil _ _) hk (by omega)).last
    fun vs hvs => leads_spanFrom fun span => ?_)
  refine leads_self ⟨left, start, _, rfl, by omega, ?_⟩
  exact congrArg₂ (fun v vs => Expr.alternative () (v :: vs)) hv hvs

end Operations

end Parser

open Retarget.Parser

/-- The tokens of a well-formed expression are read as it, at every place.

**Proof sketch.** Induction over the expression. Each construct is read from its bare tokens at the
places of its rank, where its parts are readable; at a place of a higher rank it stands in
parentheses, which are read around the bare tokens. -/
theorem Expr.WellFormed.readable {K : Token.Kind → Prop} {e : Expr Bool} (h : e.WellFormed K) :
    Readable e := by
  have hopens := h.opening
  induction h with
  | @literal _ _ value _ _ => exact readable_of_bare hopens (readsAt_literal value)
  | array hitems ih =>
    exact readable_of_bare hopens (readsAt_array fun e he => ih e he (hitems e he).opening)
  | record hnames hvalues ih =>
    exact readable_of_bare hopens
      (readsAt_record hnames fun p hp => ih p hp (hvalues p hp).opening)
  | @var note name _ =>
    refine readable_of_bare hopens ?_
    -- A capital keeps a variable from the places of callees, but not from the step that reads it.
    have hread : ReadsAt 12 (Expr.var note name).rank [.ident name] (.var note name) :=
      readsAt_var name
    by_cases hcapital : isCapitalized name
    · have hrank : (Expr.var note name).rank = 11 := if_pos hcapital
      rw [hrank] at hread hopens ⊢
      exact hread.lower_le (by decide) (Nat.le_refl _) (hopens.mono fun hs => absurd hs.1 (by decide))
    · have hrank : (Expr.var note name).rank = 12 := if_neg hcapital
      rw [hrank] at hread ⊢
      exact hread
  | unary he ih => exact readable_of_bare hopens (readsAt_unary (ih he.opening))
  | @binary _ op _ _ ha hb iha ihb =>
    refine readable_of_bare hopens ?_
    have htightest : tightest op.rank = op.rank := if_neg (by cases op <;> decide)
    change ReadsAt (tightest op.rank) op.rank _ _
    rw [htightest]
    exact readsAt_binary (iha ha.opening) (ihb hb.opening)
  | cond htest hyes hno ihtest ihyes ihno =>
    exact readable_of_bare hopens
      (readsAt_cond (ihtest htest.opening) (ihyes hyes.opening) (ihno hno.opening))
  | letIn hne _ hvalues hbody ihvalues ihbody =>
    exact readable_of_bare hopens (readsAt_letIn hne
      (fun p hp => ihvalues p hp (hvalues p hp).opening) (ihbody hbody.opening))
  | lambda hparams _ hbody ih =>
    exact readable_of_bare hopens (readsAt_lambda hparams (ih hbody.opening))
  | call hcallee hargs ihcallee ihargs =>
    exact readable_of_bare hopens (readsAt_call (ihcallee hcallee.opening)
      fun e he => ihargs e he (hargs e he).opening)
  | member _ hobject ih => exact readable_of_bare hopens (readsAt_member (ih hobject.opening))
  | pipe _ hvalue hargs ihvalue ihargs =>
    exact readable_of_bare hopens (readsAt_pipe (ihvalue hvalue.opening)
      fun e he => ihargs e he (hargs e he).opening)
  | alternative hcount hcandidates ih =>
    exact readable_of_bare hopens
      (readsAt_alternative hcount fun e he => ih e he (hcandidates e he).opening)
  | select _ hcapital harity hconstraints hargs ihconstraints ihargs =>
    exact readable_of_bare hopens (readsAt_select hcapital harity
      (fun c hc => ihconstraints c hc (hconstraints c hc).opening)
      fun e he => ihargs e he (hargs e he).opening)
  | guarded hne hconditions hbody ihconditions ihbody =>
    exact readable_of_bare hopens (readsAt_guarded hne
      (fun c hc => ihconditions c hc (hconditions c hc).opening) (ihbody hbody.opening))

/-- Tokens of the kinds of a well-formed expression, up to the end of the source, denote it. -/
theorem parseTokens_of_kinds {K : Token.Kind → Prop} {e : Expr Bool} (h : e.WellFormed K)
    {tokens : List Token} (hkinds : tokens.map Token.kind = e.kinds ++ [Token.Kind.eof]) :
    ∃ e', parseTokens tokens = .ok e' ∧ e'.plain = e.plain := by
  have hlength : tokens.length = e.kinds.length + 1 := by
    simpa using congrArg List.length hkinds
  have hread : Reads (whole (24 * (tokens.length + 1))) e.kinds [.eof] (Alike e) := by
    refine (h.readable.expression (follows_cons (by decide)) (by omega)).last fun v hv => ?_
    refine leads_peek rfl fun t ht => ?_
    rw [if_pos ht]
    exact reads_pure hv
  obtain ⟨_, c, ⟨v, hv, rfl⟩, -, hrun⟩ := hread (List.cons_ne_nil _ _) ⟨tokens, 0⟩ hkinds
  refine ⟨v, ?_, hv⟩
  have hrun : (whole (24 * (tokens.length + 1))).run ⟨tokens, 0⟩ = .ok (v, c) := hrun
  rw [parseTokens, hrun]
  rfl

end Retarget
