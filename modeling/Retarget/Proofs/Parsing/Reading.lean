import Retarget.Proofs.Parsing.Printing

set_option autoImplicit false

/-!
# Reading printed expressions

Behind the tokens of an expression the parser has read that expression, as long as the token that
follows does not reach into it. Where operators group to the left, the parser does not return there
but goes on with the operators behind the expression; so what is shown of an expression at a place is
as what step the parser goes on behind it.

## Main definitions

* `Retarget.Parser.Leads`, `Retarget.Parser.Reads` — a step goes on as another one behind given tokens,
  or returns there.
* `Retarget.Parser.Stage` — the steps that read the expressions at the places of a rank.
* `Retarget.Parser.ReadsAt` — the tokens are read as the expression at a place.

* `Retarget.Parser.Readable` — the tokens of an expression are read as it at every place.

## Main results

* `Retarget.Parser.readable_of_bare` — an expression is read at every place if its bare tokens are
  read at the tightest place where they stand bare.
-/

namespace Retarget

/-- The kinds of the tokens that are left. -/
def Cursor.kinds (c : Cursor) : List Token.Kind := c.rest.map Token.kind

namespace Parser

variable {α β : Type} {ks ks' k : List Token.Kind} {x : Token.Kind}

/-! ## Steps over tokens -/

/-- Where the tokens are `ks` and then `k`, which is not empty, the step goes on as another one behind
`ks`. -/
def Leads (p : Parser α) (ks k : List Token.Kind) (Q : Parser α → Prop) : Prop :=
  k ≠ [] → ∀ c : Cursor, c.kinds = ks ++ k → ∃ q c', Q q ∧ c'.kinds = k ∧ p c = q c'

/-- Where the tokens are `ks` and then `k`, which is not empty, the step returns behind `ks`. -/
def Reads (p : Parser α) (ks k : List Token.Kind) (P : α → Prop) : Prop :=
  Leads p ks k fun q => ∃ a, P a ∧ q = pure a

section Steps

variable {p : Parser α} {f : α → Parser β} {P : α → Prop} {Q Q' : Parser β → Prop}

/-- A step goes on as itself. -/
lemma leads_self {q : Parser β} (h : Q q) : Leads q [] k Q := fun _ c hc => ⟨q, c, h, hc, rfl⟩

/-- A value is returned behind no tokens. -/
lemma reads_pure {a : α} (h : P a) : Reads (pure a) [] k P := leads_self ⟨a, h, rfl⟩

/-- One step after another. -/
lemma Reads.bind (hp : Reads p ks (ks' ++ k) P) (hf : ∀ a, P a → Leads (f a) ks' k Q) :
    Leads (p >>= f) (ks ++ ks') k Q := by
  intro hk c hc
  rw [List.append_assoc] at hc
  obtain ⟨_, c', ⟨a, ha, rfl⟩, hc', hpc⟩ := hp (List.append_ne_nil_of_right_ne_nil _ hk) c hc
  obtain ⟨q, c'', hq, hc'', hfc⟩ := hf a ha hk c' hc'
  exact ⟨q, c'', hq, hc'', (bind_of_eq hpc).trans hfc⟩

/-- A step after which nothing more is taken. -/
lemma Reads.last (hp : Reads p ks k P) (hf : ∀ a, P a → Leads (f a) [] k Q) :
    Leads (p >>= f) ks k Q := by
  have h : Leads (p >>= f) (ks ++ []) k Q := Reads.bind hp hf
  rwa [List.append_nil] at h

/-- What is returned may be said to be less. -/
lemma Reads.imp {P' : α → Prop} (hp : Reads p ks k P) (h : ∀ a, P a → P' a) : Reads p ks k P' := by
  intro hk c hc
  obtain ⟨_, c', ⟨a, ha, rfl⟩, hc', hpc⟩ := hp hk c hc
  exact ⟨_, c', ⟨a, h a ha, rfl⟩, hc', hpc⟩

/-- A step that goes on as one that takes more. -/
lemma Leads.trans {p : Parser β} (hp : Leads p ks (ks' ++ k) Q)
    (hq : ∀ q, Q q → Leads q ks' k Q') : Leads p (ks ++ ks') k Q' := by
  intro hk c hc
  rw [List.append_assoc] at hc
  obtain ⟨q, c', hQ, hc', hpc⟩ := hp (List.append_ne_nil_of_right_ne_nil _ hk) c hc
  obtain ⟨q', c'', hQ', hc'', hqc⟩ := hq q hQ hk c' hc'
  exact ⟨q', c'', hQ', hc'', hpc.trans hqc⟩

/-- A step that goes on as another one, which ends. -/
lemma Leads.finish {p : Parser β} (hp : Leads p ks k Q) (hq : ∀ q, Q q → Leads q [] k Q') :
    Leads p ks k Q' := by
  have h : Leads p (ks ++ []) k Q' := Leads.trans hp hq
  rwa [List.append_nil] at h

/-- A step that only looks at the tokens. -/
lemma leads_look (hp : ∀ c : Cursor, c.kinds = ks ++ k → ∃ a, P a ∧ p c = .ok (a, c))
    (h : ∀ a, P a → Leads (f a) ks k Q) : Leads (p >>= f) ks k Q := by
  intro hk c hc
  obtain ⟨a, ha, hpc⟩ := hp c hc
  obtain ⟨q, c', hQ, hc', hfc⟩ := h a ha hk c hc
  exact ⟨q, c', hQ, hc', (bind_of_eq hpc).trans hfc⟩

/-- Looking at the next token takes none. -/
lemma leads_peek {f : Token → Parser β} (hx : (ks ++ k).head? = some x)
    (h : ∀ t : Token, t.kind = x → Leads (f t) ks k Q) : Leads (peek >>= f) ks k Q := by
  refine leads_look (P := fun t : Token => t.kind = x) (fun c hc => ⟨_, ?_, rfl⟩) h
  obtain ⟨rest, stop⟩ := c
  cases rest with
  | nil => simp [← hc, Cursor.kinds] at hx
  | cons t ts => simpa [← hc, Cursor.kinds] using hx

/-- Looking at the kind of a token ahead takes none. -/
lemma leads_peekKind {f : Token.Kind → Parser β} {n : Nat}
    (h : Leads (f ((ks ++ k)[n]?.getD .eof)) ks k Q) : Leads (peekKind n >>= f) ks k Q := by
  refine leads_look (P := fun y => y = (ks ++ k)[n]?.getD .eof) (fun c hc => ⟨_, ?_, rfl⟩) ?_
  · rw [← hc, Cursor.kinds, List.getElem?_map]
  · rintro _ rfl
    exact h

/-- Asking for the position takes no token. -/
lemma leads_here {f : Nat → Parser β} (h : ∀ start, Leads (f start) ks k Q) :
    Leads (here >>= f) ks k Q :=
  leads_look (P := fun _ => True) (fun _ _ => ⟨_, trivial, rfl⟩) fun start _ => h start

/-- Asking for a span takes no token. -/
lemma leads_spanFrom {f : Span → Parser β} {start : Nat} (h : ∀ span, Leads (f span) ks k Q) :
    Leads (spanFrom start >>= f) ks k Q :=
  leads_look (P := fun _ => True) (fun _ _ => ⟨_, trivial, rfl⟩) fun span _ => h span

/-- A step ahead takes one token. -/
lemma reads_advance : Reads advance [x] k fun _ => True := by
  rintro hk ⟨rest, stop⟩ hc
  obtain ⟨y, ys, rfl⟩ := List.exists_cons_of_ne_nil hk
  rcases rest with - | ⟨t, - | ⟨u, us⟩⟩
  · cases hc
  · cases hc
  · exact ⟨pure (), ⟨u :: us, t.stop⟩, ⟨(), trivial, rfl⟩, (List.cons.inj hc).2, rfl⟩

/-- A step ahead takes one token. -/
lemma leads_advance {f : Unit → Parser β} (h : Leads (f ()) ks k Q) :
    Leads (advance >>= f) (x :: ks) k Q :=
  reads_advance.bind fun _ _ => h

/-- A token of the kind is taken. -/
lemma leads_eatKind {f : Bool → Parser β} (h : Leads (f true) ks k Q) :
    Leads (eatKind x >>= f) (x :: ks) k Q := by
  have heat : Reads (eatKind x) [x] (ks ++ k) fun eaten => eaten = true :=
    leads_peek rfl fun t ht => by
      rw [if_pos ht]
      exact leads_advance (reads_pure rfl)
  refine heat.bind fun eaten heaten => ?_
  rw [heaten]
  exact h

/-- A token of another kind is left. -/
lemma leads_passKind {f : Bool → Parser β} (hx : (ks ++ k).head? ≠ some x)
    (h : Leads (f false) ks k Q) : Leads (eatKind x >>= f) ks k Q := by
  intro hk
  obtain ⟨y, ys, hy⟩ := List.exists_cons_of_ne_nil (List.append_ne_nil_of_right_ne_nil ks hk)
  have hne : y ≠ x := by simpa [hy] using hx
  have hpass : Reads (eatKind x) [] (ks ++ k) fun eaten => eaten = false :=
    leads_peek (by rw [List.nil_append, hy]; rfl) fun t ht => by
      rw [if_neg (ht ▸ hne)]
      exact reads_pure rfl
  refine hpass.bind (fun eaten heaten => ?_) hk
  rw [heaten]
  exact h

section Marks

variable {mark : Punct} {A B : Parser β}

/-- A mark that is there is taken. -/
lemma leads_eat (h : Leads A ks k Q) :
    Leads (eat mark >>= fun eaten => if eaten = true then A else B) (.punct mark :: ks) k Q :=
  leads_eatKind h

/-- A mark that is not there is passed over. -/
lemma leads_pass (hmark : (ks ++ k).head? ≠ some (.punct mark)) (h : Leads B ks k Q) :
    Leads (eat mark >>= fun eaten => if eaten = true then A else B) ks k Q :=
  leads_passKind hmark h

end Marks

section Expected

variable {f : Unit → Parser β}

/-- A mark that is asked for is taken. -/
lemma leads_expect {mark : Punct} (h : Leads (f ()) ks k Q) :
    Leads (expect mark >>= f) (.punct mark :: ks) k Q := by
  have hexpect : Reads (expect mark) [.punct mark] (ks ++ k) fun _ => True :=
    leads_eatKind (reads_pure trivial)
  exact hexpect.bind fun _ _ => h

/-- A keyword that is asked for is taken. -/
lemma leads_expectKeyword {word : Keyword} (h : Leads (f ()) ks k Q) :
    Leads (expectKeyword word >>= f) (.keyword word :: ks) k Q := by
  have hexpect : Reads (expectKeyword word) [.keyword word] (ks ++ k) fun _ => True :=
    leads_eatKind (reads_pure trivial)
  exact hexpect.bind fun _ _ => h

end Expected

section Names

variable {f : String → Parser β} {name : String}

/-- A name that is asked for is taken. -/
lemma leads_identifier (h : Leads (f name) ks k Q) :
    Leads (identifier >>= f) (.ident name :: ks) k Q := by
  have hname : Reads identifier [.ident name] (ks ++ k) fun n => n = name :=
    leads_peek rfl fun t ht => by
      rw [ht]
      exact leads_advance (reads_pure rfl)
  refine hname.bind fun n hn => ?_
  rw [hn]
  exact h

/-- The name of a field in quotes is taken. -/
lemma leads_fieldName (h : Leads (f name) ks k Q) :
    Leads (fieldName >>= f) (.literal (.string name) :: ks) k Q := by
  have hname : Reads fieldName [.literal (.string name)] (ks ++ k) fun n => n = name :=
    leads_peek rfl fun t ht => by
      rw [ht]
      exact leads_advance (reads_pure rfl)
  refine hname.bind fun n hn => ?_
  rw [hn]
  exact h

end Names

/-- The label of a condition is taken, if it has one.

**Proof sketch.** With a label the two tokens are taken. Without one, what stands there is either no
name or string, or has no colon behind it, and nothing is taken. -/
lemma leads_label {f : Option String → Parser β} {label : Option String}
    (hlabel : label = none → Expr.isLabelled (ks ++ k) = false) (h : Leads (f label) ks k Q) :
    Leads (Parser.label >>= f) (Expr.labelKinds label ++ ks) k Q := by
  have hread : Reads Parser.label (Expr.labelKinds label) (ks ++ k) fun l => l = label := by
    intro hk
    obtain ⟨x, xs, hx⟩ := List.exists_cons_of_ne_nil hk
    cases label with
    | some name =>
      refine leads_peek rfl (fun t ht => leads_peekKind ?_) hk
      rw [ht]
      exact leads_advance (leads_advance (reads_pure rfl))
    | none =>
      have hfree := hlabel rfl
      rw [hx] at hfree ⊢
      have hcolon : Expr.isLabel x = true → (x :: xs)[1]?.getD .eof ≠ .punct .colon := by
        intro hname
        cases xs <;> simp_all [Expr.isLabelled]
      refine leads_peek rfl (fun t ht => leads_peekKind ?_) (List.cons_ne_nil x xs)
      rw [ht]
      split
      · exact absurd ‹_› (hcolon rfl)
      · exact absurd ‹_› (hcolon rfl)
      · exact reads_pure rfl
  refine hread.bind fun l hl => ?_
  rw [hl]
  exact h

/-- The mark of a policy is taken. -/
lemma leads_policy {f : SelectPolicy → Parser β} {mark : SelectPolicy}
    (hks : (ks ++ k).head? = some (.punct .openParen)) (h : Leads (f mark) ks k Q) :
    Leads (policy >>= f) (mark.kinds ++ ks) k Q := by
  have hread : Reads policy mark.kinds (ks ++ k) fun m => m = mark := by
    cases mark with
    | orNull => exact leads_eat (reads_pure rfl)
    | check => exact leads_pass (by simp [SelectPolicy.kinds]) (leads_eat (reads_pure rfl))
    | assert =>
      exact leads_pass (by simp [SelectPolicy.kinds]) (leads_pass (by simp [SelectPolicy.kinds])
        (leads_eat (reads_pure rfl)))
    | raise =>
      refine leads_pass ?_ (leads_pass ?_ (leads_pass ?_ (reads_pure rfl))) <;>
        simp [SelectPolicy.kinds, hks]
  refine hread.bind fun m hm => ?_
  rw [hm]
  exact h

end Steps

/-! ## Places -/

/-- The steps that read expressions, by how tight the operators are that they take. -/
inductive Stage
  | whole | level (level : Level) | power | unary | chain

namespace Stage

/-- The stage that reads the expressions at the places of a rank. -/
def ofRank : Nat → Stage
  | 0 | 1 | 2 => .whole
  | 3 => .level .disjunction
  | 4 => .level .conjunction
  | 5 => .level .equality
  | 6 => .level .comparison
  | 7 => .level .sum
  | 8 => .level .product
  | 9 => .power
  | 10 => .unary
  | _ => .chain

/-- The step of the stage. -/
def step : Stage → Nat → Parser (Expr Span)
  | .whole, fuel => expression fuel
  | .level l, fuel => binary fuel l
  | .power, fuel => Parser.power fuel
  | .unary, fuel => Parser.unary fuel
  | .chain, fuel => Parser.chain fuel

/-- How the stage goes on behind an expression. -/
def resume : Stage → Nat → Nat → Expr Span → Parser (Expr Span)
  | .whole, fuel, start, e => pipeline fuel start e
  | .level l, fuel, start, e => binaryTail fuel l start e
  | .power, _, _, e | .unary, _, _, e => pure e
  | .chain, fuel, start, e => chainTail fuel start e

/-- How many steps lead to the stage from that of whole expressions. -/
def depth : Stage → Nat
  | .whole => 0
  | .level .disjunction => 1
  | .level .conjunction => 3
  | .level .equality => 5
  | .level .comparison => 7
  | .level .sum => 9
  | .level .product => 11
  | .power => 13
  | .unary => 14
  | .chain => 15

/-- At most fifteen steps lead to a stage. -/
lemma depth_le (s : Stage) : s.depth ≤ 15 := by
  rcases s with - | l | - | - | -
  · decide
  · cases l <;> decide
  all_goals decide

end Stage

/-- The tokens start with one that can stand behind the places of a rank. -/
def Follows (bound : Nat) (k : List Token.Kind) : Prop := ∃ x xs, k = x :: xs ∧ x.reach ≤ bound

/-- A token follows places of the ranks that it can stand behind. -/
lemma follows_cons {bound : Nat} (h : x.reach ≤ bound) : Follows bound (x :: k) := ⟨x, k, rfl, h⟩

/-- What follows places of a rank follows those of higher ranks. -/
lemma Follows.mono {b b' : Nat} (h : Follows b k) (hle : b ≤ b') : Follows b' k := by
  obtain ⟨x, xs, rfl, hx⟩ := h
  exact ⟨x, xs, rfl, Nat.le_trans hx hle⟩

/-- A token with a longer reach does not follow. -/
lemma Follows.head?_ne {bound : Nat} (h : Follows bound k) (hx : bound < x.reach) :
    k.head? ≠ some x := by
  obtain ⟨y, ys, rfl, hy⟩ := h
  rintro ⟨⟩
  omega

/-- Expressions that are the same but for their notes. -/
def Alike (e : Expr Bool) (e' : Expr Span) : Prop := e'.plain = e.plain

/-- The tokens are read as the expression at a place of the given rank, if a token that can stand
behind the places of rank `bound` follows. Twenty-four steps for every token suffice. -/
def ReadsAt (place bound : Nat) (ks : List Token.Kind) (e : Expr Bool) : Prop :=
  ∀ fuel k, Follows bound k → 24 * ks.length ≤ fuel + (Stage.ofRank place).depth →
    Leads ((Stage.ofRank place).step fuel) ks k fun q => ∃ left start e',
      q = (Stage.ofRank place).resume left start e' ∧ fuel ≤ left + ks.length ∧ Alike e e'

section Places

variable {place bound fuel : Nat} {e : Expr Bool}

/-- Tokens that are read before what follows a rank are read before what follows a lower one. -/
lemma ReadsAt.mono {bound' : Nat} (h : ReadsAt place bound ks e) (hle : bound' ≤ bound) :
    ReadsAt place bound' ks e :=
  fun fuel k hk => h fuel k (hk.mono hle)

section Stops

variable {left : Nat} (start : Nat) (v : Expr Span)

/-- Nothing that follows a whole expression goes on with it. -/
lemma reads_pipeline (hk : Follows 0 k) :
    Reads (pipeline (left + 1) start v) [] k fun v' => v' = v :=
  leads_pass (hk.head?_ne (by decide)) (leads_pass (hk.head?_ne (by decide)) (reads_pure rfl))

/-- No operation goes on before a token that follows places of a lower rank. -/
lemma reads_binaryTail {l : Level} (hk : Follows bound k) (hbound : bound < l.rank) :
    Reads (binaryTail (left + 1) l start v) [] k fun v' => v' = v := by
  obtain ⟨x, xs, rfl, hx⟩ := hk
  refine leads_peek rfl fun t ht => ?_
  rw [ht]
  cases hop : l.operator? x with
  | none => exact reads_pure rfl
  | some op =>
    have := Level.operator?_eq_some hop
    omega

/-- No call and no member read go on before a token that follows places of a low rank. -/
lemma reads_chainTail (hk : Follows 10 k) :
    Reads (chainTail (left + 1) start v) [] k fun v' => v' = v :=
  leads_pass (hk.head?_ne (by decide)) (leads_pass (hk.head?_ne (by decide)) (reads_pure rfl))

end Stops

/-- Tokens that can stand behind the places of rank `bound` end what stands at a place. -/
def Ends (place bound : Nat) : Prop := bound = 0 ∨ 3 ≤ place ∧ bound < place ∧ bound ≤ 10

/-- A stage stops where a token follows that ends its expressions. -/
lemma reads_resume (hends : Ends place bound) (hk : Follows bound k) {left : Nat} (hleft : 0 < left)
    (start : Nat) (v : Expr Span) :
    Reads ((Stage.ofRank place).resume left start v) [] k fun v' => v' = v := by
  obtain ⟨left, rfl⟩ := Nat.exists_eq_succ_of_ne_zero (Nat.ne_of_gt hleft)
  unfold Ends at hends
  match place with
  | 0 | 1 | 2 => exact reads_pipeline start v (hk.mono (by omega))
  | 3 | 4 | 5 | 6 | 7 | 8 => exact reads_binaryTail start v hk (by simp only [Level.rank]; omega)
  | 9 | 10 => exact reads_pure rfl
  | place + 11 => exact reads_chainTail start v (hk.mono (by omega))

/-- Behind an expression to which the next token does not reach, the stage returns it. -/
lemma ReadsAt.finish (h : ReadsAt place bound ks e) (hks : ks ≠ []) (hends : Ends place bound)
    (hk : Follows bound k)
    (hfuel : 24 * ks.length ≤ fuel + (Stage.ofRank place).depth) :
    Reads ((Stage.ofRank place).step fuel) ks k (Alike e) := by
  refine (h fuel k hk hfuel).finish ?_
  rintro _ ⟨left, start, e', rfl, hleft, he'⟩
  have hlength := List.length_pos_iff.mpr hks
  have hdepth := (Stage.ofRank place).depth_le
  refine (reads_resume hends hk (by omega) start e').finish ?_
  rintro _ ⟨_, rfl, rfl⟩
  exact reads_pure he'

/-- What is read at a place is read at a place of the next lower rank.

**Proof sketch.** By cases on the rank, that is on the function of the grammar that reads there:
each asks the next one first, and returns what that has read when its own operator does not follow.
-/
lemma ReadsAt.lower {r : Nat} (h : ReadsAt (r + 1) bound ks e) (hbound : bound ≤ r)
    (hks : Expr.Opens (r = 10) ks) : ReadsAt r bound ks e := by
  obtain ⟨⟨x, xs, rfl, -, hunary⟩, -⟩ := hks
  intro fuel k hk hfuel
  have hlength : 0 < (x :: xs).length := Nat.succ_pos _
  have hread (hr : 2 ≤ r ∧ r ≤ 10) {fuel : Nat}
      (hfuel : 24 * (x :: xs).length ≤ fuel + (Stage.ofRank (r + 1)).depth) :
      Reads ((Stage.ofRank (r + 1)).step fuel) (x :: xs) k (Alike e) :=
    h.finish (List.cons_ne_nil x xs) (.inr (by omega)) hk hfuel
  obtain ⟨fuel, rfl⟩ : ∃ n, fuel = n + 2 := ⟨fuel - 2, by have := (Stage.ofRank r).depth_le; omega⟩
  match r with
  | 0 | 1 => exact h _ k hk hfuel
  | 2 | 3 | 4 | 5 | 6 | 7 | 8 =>
    refine leads_here fun start => (hread (by omega) hfuel).last fun v hv => ?_
    exact leads_self ⟨fuel + 1, start, v, rfl, by omega, hv⟩
  | 9 =>
    refine leads_here fun start => (hread (by omega) hfuel).last fun v hv => ?_
    exact leads_pass ((hk.mono hbound).head?_ne (by decide))
      (leads_self ⟨fuel + 2, start, v, rfl, by omega, hv⟩)
  | 10 =>
    refine leads_here fun start => leads_peek rfl fun t ht => ?_
    rw [ht, hunary rfl]
    refine (hread (by omega) hfuel).finish ?_
    rintro _ ⟨v, hv, rfl⟩
    exact leads_self ⟨fuel + 2, start, v, rfl, by omega, hv⟩
  | r + 11 => exact h _ k hk hfuel

/-- What is read at a place is read at all places of lower ranks that the following token does not
reach into. -/
lemma ReadsAt.lower_le {r s : Nat} (h : ReadsAt s bound ks e) (hle : r ≤ s) (hbound : bound ≤ r)
    (hks : Expr.Opens (r ≤ 10 ∧ 11 ≤ s) ks) : ReadsAt r bound ks e := by
  induction hle with
  | refl => exact h
  | @step s hle ih =>
    have hle : r ≤ s := hle
    have hlower := h.lower (Nat.le_trans hbound hle) (hks.mono fun hs => by omega)
    exact ih hlower (hks.mono fun hs => by omega)

/-- A step of the grammar for the innermost expressions takes the tokens. -/
lemma readsAt_of_primary (hks : ks ≠ []) (h : ∀ fuel k, Follows bound k →
    24 * ks.length ≤ fuel + 17 → Reads (primary (fuel + 1)) ks k (Alike e)) :
    ReadsAt 12 bound ks e := by
  intro fuel k hk hfuel
  have hlength := List.length_pos_iff.mpr hks
  have hdepth : (Stage.ofRank 12).depth = 15 := rfl
  obtain ⟨fuel, rfl⟩ : ∃ n, fuel = n + 2 := ⟨fuel - 2, by omega⟩
  refine leads_here fun start => (h fuel k hk (by omega)).last fun v hv => ?_
  exact leads_self ⟨fuel + 1, start, v, rfl, by omega, hv⟩

/-- A whole expression. -/
lemma ReadsAt.expression (h : ReadsAt 0 0 ks e) (hks : ks ≠ []) (hk : Follows 0 k)
    (hfuel : 24 * ks.length ≤ fuel) : Reads (expression fuel) ks k (Alike e) :=
  h.finish hks (.inl rfl) hk hfuel

/-- An expression in parentheses. -/
lemma ReadsAt.parens (h : ReadsAt 0 0 ks e) (hks : ks ≠ []) :
    ReadsAt 12 12 (Expr.between .openParen ks .closeParen) e := by
  refine readsAt_of_primary (List.cons_ne_nil _ _) fun fuel k _ hfuel => ?_
  simp only [Expr.between, List.length_cons, List.length_append, List.length_nil] at hfuel
  refine leads_here fun start => leads_peek rfl fun t ht => ?_
  rw [ht]
  refine leads_advance ((h.expression hks (follows_cons (by decide)) (by omega)).bind fun v hv => ?_)
  exact leads_expect (reads_pure hv)

/-- The tokens of the expression are read as it at every place. -/
structure Readable (e : Expr Bool) : Prop where
  opens : Expr.Opens (e.rank = 0 ∨ 11 ≤ e.rank) e.kinds
  readsAt : ∀ place ≤ 12, ReadsAt place place (e.kindsAt place) e

/-- The rank of the tightest place at which the bare tokens are read. -/
def tightest (rank : Nat) : Nat := if rank = 0 then 12 else rank

/-- Where the bare tokens are read at the tightest place, they are read at all, in parentheses where
these are needed. -/
lemma readable_of_bare (hopens : Expr.Opens (e.rank = 0 ∨ 11 ≤ e.rank) e.kinds)
    (h : ReadsAt (tightest e.rank) e.rank e.kinds e) : Readable e := by
  have hbare : ∀ place ≤ e.rank, ReadsAt place place e.kinds e := by
    intro place hplace
    refine (h.mono hplace).lower_le ?_ (Nat.le_refl _) (hopens.mono fun hs => ?_)
    · unfold tightest
      split_ifs <;> omega
    · unfold tightest at hs
      split_ifs at hs <;> omega
  refine ⟨hopens, fun place hplace => ?_⟩
  by_cases hrank : e.rank < place
  · obtain ⟨x, xs, hx, -⟩ := hopens.cons
    have hparens := (hbare 0 (Nat.zero_le _)).parens (hx ▸ List.cons_ne_nil x xs)
    rw [Expr.kindsAt_of_lt hrank]
    exact (hparens.mono hplace).lower_le hplace (Nat.le_refl _) Expr.opens_parens
  · rw [Expr.kindsAt_of_le (Nat.not_lt.mp hrank)]
    exact hbare place (Nat.not_lt.mp hrank)

end Places

end Parser

end Retarget
