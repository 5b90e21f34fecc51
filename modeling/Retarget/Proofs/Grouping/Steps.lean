import Retarget.Proofs.Grouping.Reader

set_option autoImplicit false

/-!
# Steps of reading

What reading does at the head of a text, and what it gives from some depth on. An operand is read up
to the operator that it cannot take, with parentheses around it or without, and what stands behind it
is read next.

## Main definitions

* `Retarget.Grammar.Settles`, `Retarget.Grammar.Goes` — reading gives an answer from some depth on.
* `Retarget.Grammar.Lawful` — the laws of a precedence table and of parentheses.
* `Retarget.Tree.Legible` — the texts of a tree can be told apart.
* `Retarget.Tree.regrouped` — what the code of a tree reads as.

## Main results

* `Retarget.Grammar.Reads.wrapped`, `Retarget.Grammar.Reads.settles_right` — an operand reads as
  itself on either side of an operator.
-/

namespace Retarget

namespace Grammar

/-! ## Answers from some depth on -/

section Depth

variable {β γ : Type}

/-- From some depth on the answer is `r`. -/
def Settles (f : Nat → Option β) (r : Option β) : Prop := ∃ depth, ∀ fuel ≥ depth, f fuel = r

/-- Without a tree the answer is none; with one it is what follows from the tree. -/
def Goes (f : Nat → Option β) (r : Option γ) (next : γ → Nat → Option β) : Prop :=
  match r with
  | none => Settles f none
  | some x => ∀ a, Settles (next x) a → Settles f a

/-- One more step of depth. -/
lemma Settles.step {f h : Nat → Option β} {r : Option β} (hf : ∀ fuel, f (fuel + 1) = h fuel)
    (hh : Settles h r) : Settles f r := by
  obtain ⟨depth, hdepth⟩ := hh
  refine ⟨depth + 1, fun fuel hfuel => ?_⟩
  obtain ⟨k, rfl⟩ : ∃ k, fuel = k + 1 := ⟨fuel - 1, by omega⟩
  rw [hf, hdepth k (by omega)]

/-- An answer that does not depend on the depth. -/
lemma Settles.of_succ {f : Nat → Option β} {r : Option β} (hf : ∀ fuel, f (fuel + 1) = r) :
    Settles f r :=
  Settles.step (h := fun _ => r) hf ⟨0, fun _ _ => rfl⟩

/-- An answer and what follows from it. -/
lemma Settles.bind {f : Nat → Option γ} {x : γ} {k : γ → Nat → Option β} {r : Option β}
    (hf : Settles f (some x)) (hk : Settles (k x) r) :
    Settles (fun fuel => (f fuel).bind fun x => k x fuel) r := by
  obtain ⟨d₁, h₁⟩ := hf
  obtain ⟨d₂, h₂⟩ := hk
  refine ⟨d₁ + d₂, fun fuel hfuel => ?_⟩
  simp only [h₁ fuel (by omega), Option.bind_some, h₂ fuel (by omega)]

/-- Nothing follows from no answer. -/
lemma Settles.bind_none {f : Nat → Option γ} {k : γ → Nat → Option β} (hf : Settles f none) :
    Settles (fun fuel => (f fuel).bind fun x => k x fuel) none := by
  obtain ⟨depth, hdepth⟩ := hf
  exact ⟨depth, fun fuel hfuel => by simp only [hdepth fuel hfuel, Option.bind_none]⟩

/-- One more step of depth. -/
lemma Goes.step {f h : Nat → Option β} {r : Option γ} {next : γ → Nat → Option β}
    (hf : ∀ fuel, f (fuel + 1) = h fuel) (hh : Goes h r next) : Goes f r next := by
  cases r with
  | none => exact Settles.step hf hh
  | some x => exact fun a ha => Settles.step hf (hh a ha)

/-- What follows from a tree and goes on to another one. -/
lemma Goes.trans {δ : Type} {f : Nat → Option β} {r : Option γ} {next : γ → Nat → Option β}
    {r' : γ → Option δ} {next' : δ → Nat → Option β} (h : Goes f r next)
    (h' : ∀ x, r = some x → Goes (next x) (r' x) next') : Goes f (r.bind r') next' := by
  cases r with
  | none => exact h
  | some x =>
    have hx := h' x rfl
    rw [Option.bind_some]
    cases hr : r' x with
    | none =>
      rw [hr] at hx
      exact h none hx
    | some y =>
      rw [hr] at hx
      exact fun a ha => h a (hx a ha)

/-- A first answer, or none, and what follows from it. -/
lemma Goes.bind {f : Nat → Option γ} {k : γ → Nat → Option β} {r : Option γ}
    (hf : Settles f r) : Goes (fun fuel => (f fuel).bind fun x => k x fuel) r k := by
  cases r with
  | none => exact hf.bind_none
  | some x => exact fun a ha => hf.bind ha

/-- The tree that reading goes on with may be changed first. -/
lemma Goes.map {δ : Type} {f : Nat → Option β} {r : Option γ} {h : γ → δ}
    {next : δ → Nat → Option β} (hf : Goes f r fun x => next (h x)) : Goes f (r.map h) next := by
  cases r with
  | none => exact hf
  | some x => exact hf

/-- Reading that goes on to an answer settles. -/
lemma Goes.settles {f : Nat → Option β} {r : Option γ} {next : γ → Nat → Option β} {h : γ → β}
    (hf : Goes f r next) (hnext : ∀ x, Settles (next x) (some (h x))) : Settles f (r.map h) := by
  cases r with
  | none => exact hf
  | some x => exact hf _ (hnext x)

end Depth

/-! ## Laws -/

/-- What a constant or a name can be followed by: nothing, a blank, a bracket, a comma, a colon, or
a point with a name behind it. -/
def Ends : List Char → Prop
  | [] => True
  | '.' :: c :: _ => c.isAlpha ∨ c = '_' ∨ c = '$'
  | c :: _ => c ∈ [' ', ')', ']', ',', '[', ':']

variable (g : Grammar)

/-- Reading an expression of at least the given strength stops before the text. -/
def Stops (bound : Nat) (s : List Char) : Prop :=
  ∀ c rest entry, g.continuation? s = some (c, rest) → g.table.get? c.key = some entry →
    entry.1 < bound

/-- The strength of member reads. -/
def memberStrength : Nat := 20

/-- The laws of a precedence table and of parentheses. -/
structure Lawful : Prop where
  start_paren (rest : List Char) :
    g.start? ('(' :: rest) = some (.opening "(" .round, rest)
  piece_paren (rest : List Char) : g.piece? .round (')' :: rest) = some (.closing ")", rest)
  continuation_paren (rest : List Char) : g.continuation? (')' :: rest) = none
  continuation_nil : g.continuation? [] = none
  /-- Member reads bind tightest. -/
  member : g.table.get? memberOp = some (memberStrength, .left)
  /-- Every other operator binds less tight. -/
  bounded {op : String} {entry : Nat × Assoc} :
    g.table.get? op = some entry → op ≠ memberOp → entry.1 < memberStrength
  /-- Among operators of one strength, all group to the left or none does. -/
  uniform {op op' : String} {entry entry' : Nat × Assoc} :
    g.table.get? op = some entry → g.table.get? op' = some entry' → entry.1 = entry'.1 →
      (entry.2 = .left ↔ entry'.2 = .left)

/-- The text is read as a constant or a name. -/
def IsLeaf (text : String) : Prop :=
  ∀ rest, Ends rest → g.start? (text.toList ++ rest) = some (.leaf text, rest)

/-- The text is read as an opening. -/
def IsOpening (text : String) (bracket : Bracket) : Prop :=
  ∀ rest, g.start? (text.toList ++ rest) = some (.opening text bracket, rest)

/-- The operator is read in front of its operand, and does not group to the left. -/
def IsPrefixed (key : String) : Prop :=
  (∃ entry, g.table.get? key = some entry ∧ entry.2 ≠ .left) ∧
    ∀ rest, g.start? ((g.spelling key).toList ++ rest) = some (.prefixed key, rest)

/-- An operand can end before the text, which starts with a continuation. -/
def Continues (s : List Char) (c : Continuation) (rest : List Char) : Prop :=
  g.continuation? s = some (c, rest) ∧ Ends s

/-- The text is read as a continuation of an operand. -/
def IsContinuation (text : String) (c : Continuation) : Prop :=
  (∃ entry, g.table.get? c.key = some entry) ∧
    ∀ rest, g.Continues (text.toList ++ rest) c rest

/-- The text is read as a member. -/
def IsMember (text : String) : Prop :=
  ∀ rest, Ends rest → g.Continues (text.toList ++ rest) (.member text) rest

/-- The text ends an expression between brackets. -/
def IsPiece (bracket : Bracket) (text : String) (piece : Piece) : Prop :=
  ∀ rest, g.piece? bracket (text.toList ++ rest) = some (piece, rest) ∧
    g.continuation? (text.toList ++ rest) = none ∧ Ends (text.toList ++ rest)

/-- The conditional groups to the right, and its marks are told apart. -/
def HasConditional : Prop :=
  (∃ own, g.table.get? "?:" = some (own, .right)) ∧ g.IsContinuation " ? " .conditional ∧
    ∀ rest, g.colon? (" : ".toList ++ rest) = some rest ∧
      g.continuation? (" : ".toList ++ rest) = none ∧ Ends (" : ".toList ++ rest)

end Grammar

mutual

/-- The texts of a tree can be told apart. -/
def Tree.Legible (g : Grammar) : Tree → Prop
  | .leaf text => g.IsLeaf text
  | .closed opening inside => ∃ bracket, g.IsOpening opening bracket ∧ inside.Legible g bracket
  | .prefixed key x => key ≠ memberOp ∧ g.IsPrefixed key ∧ x.Legible g
  | .infixed op a b =>
    op ≠ memberOp ∧ g.IsContinuation (" " ++ op ++ " ") (.infixed op) ∧ a.Legible g ∧ b.Legible g
  | .suffixed key text x => g.IsContinuation text (.suffixed key text) ∧ x.Legible g
  | .conditional test yes no =>
    g.HasConditional ∧ test.Legible g ∧ yes.Legible g ∧ no.Legible g
  | .member object text => g.IsMember text ∧ object.Legible g
  | .applied object opening inside =>
    object.Legible g ∧
      ∃ bracket, g.IsContinuation opening (.applied opening bracket) ∧ inside.Legible g bracket

/-- The texts between brackets can be told apart. An operation whose second operand is written as it
is groups to the left, and that operand is not the same operation. -/
def Inside.Legible (g : Grammar) : Inside → Bracket → Prop
  | .last tree closing, bracket => g.IsPiece bracket closing (.closing closing) ∧ tree.Legible g
  | .more tree separator rest, bracket =>
    g.IsPiece bracket separator (.separator separator) ∧ tree.Legible g ∧ rest.Legible g bracket
  | .bare op a b closing, bracket =>
    g.IsPiece bracket closing (.closing closing) ∧
      (∃ own, g.table.get? op = some (own, .left)) ∧ op ≠ memberOp ∧ b.op ≠ some op ∧
      g.IsContinuation (" " ++ op ++ " ") (.infixed op) ∧ a.Legible g ∧ b.Legible g

end

/-! ## Regrouping -/

mutual

/-- What the code of a tree reads as. -/
def Tree.regrouped (g : Grammar) : Tree → Option Tree
  | .leaf text => some (.leaf text)
  | .closed opening inside => (inside.regrouped g).map (.close opening)
  | .prefixed key x => (x.regrouped g).map (.prefixed key)
  | .infixed op a b =>
    (a.regrouped g).bind fun a => (b.regrouped g).map (.infixed op a)
  | .suffixed key text x => (x.regrouped g).map (.suffixed key text)
  | .conditional test yes no =>
    (test.regrouped g).bind fun test =>
      (yes.regrouped g).bind fun yes => (no.regrouped g).map (.conditional test yes)
  | .member object text => (object.regrouped g).map (.member · text)
  | .applied object opening inside =>
    (object.regrouped g).bind fun object => (inside.regrouped g).map (.applied object opening)

/-- What `lhs op code` reads as, where the code is that of a tree with an operator that binds less
tight than `op`: the leftmost operand of the tree becomes the right operand of `op`, unless the tree
starts with an operator. -/
def Tree.grafted (g : Grammar) (op : String) : Tree → Tree → Option Tree
  | .infixed op' a b, lhs =>
    (if g.table.needsParens a.op op' .left || !g.table.needsParens a.op op .right then
      (a.regrouped g).map (.infixed op lhs)
    else a.grafted g op lhs).bind fun a => (b.regrouped g).map (.infixed op' a)
  | .suffixed key text x, lhs =>
    (if g.table.needsParens x.op key .left || !g.table.needsParens x.op op .right then
      (x.regrouped g).map (.infixed op lhs)
    else x.grafted g op lhs).map (.suffixed key text)
  | .conditional test yes no, lhs =>
    (if g.table.needsParens test.op "?:" .left || !g.table.needsParens test.op op .right then
      (test.regrouped g).map (.infixed op lhs)
    else test.grafted g op lhs).bind fun test =>
      (yes.regrouped g).bind fun yes => (no.regrouped g).map (.conditional test yes)
  | .leaf _, _ | .closed _ _, _ | .prefixed _ _, _ | .member _ _, _ | .applied _ _ _, _ => none

/-- What the code between brackets reads as. -/
def Inside.regrouped (g : Grammar) : Inside → Option Inside
  | .last tree closing => (tree.regrouped g).map (.last · closing)
  | .more tree separator rest =>
    (tree.regrouped g).bind fun tree => (rest.regrouped g).map (.more tree separator)
  | .bare op a b closing =>
    (a.regrouped g).bind fun a =>
      (if g.table.needsParens b.op op .right then b.grafted g op a
      else (b.regrouped g).map (.infixed op a)).map (.last · closing)

end

/-! ## Strengths -/

namespace Grammar

variable {g : Grammar}

/-- The operator, if there is one, is in the precedence table. -/
def Known (g : Grammar) (op : Option String) : Prop :=
  ∀ name, op = some name → ∃ entry, g.table.get? name = some entry

/-- The least strength of an operand on a side of an operator. -/
def sideBound (entry : Nat × Assoc) : Side → Nat
  | .left => leftBound entry
  | .right => rightBound entry

/-- A text before which reading of this strength stops can follow an operation. -/
def stopBound : Nat × Assoc → Nat
  | (own, .left) => own + 1
  | (own, _) => own

/-- A text before which reading of this strength stops can follow a tree with the operator. -/
def after (g : Grammar) : Option String → Nat
  | none => atomStrength
  | some op => ((g.table.get? op).map stopBound).getD 0

/-- An operator of the table has the strength of its entry. -/
lemma strength_some {op : String} {entry : Nat × Assoc} (h : g.table.get? op = some entry) :
    g.strength (some op) = entry.1 := by
  simp [strength, h]

/-- An operator of the table leaves the bound of its entry. -/
lemma after_some {op : String} {entry : Nat × Assoc} (h : g.table.get? op = some entry) :
    g.after (some op) = stopBound entry := by
  simp [after, h]

/-- The bound behind an operation is no less than the strength of its operator. -/
lemma le_stopBound (entry : Nat × Assoc) : entry.1 ≤ stopBound entry := by
  rcases entry with ⟨own, _ | _ | _⟩ <;> simp [stopBound]

/-- The bound behind an operation is at most one more than the strength of its operator. -/
lemma stopBound_le (entry : Nat × Assoc) : stopBound entry ≤ entry.1 + 1 := by
  rcases entry with ⟨own, _ | _ | _⟩ <;> simp [stopBound]

/-- A left operand is at least as strong as its operator. -/
lemma le_leftBound (entry : Nat × Assoc) : entry.1 ≤ leftBound entry := by
  rcases entry with ⟨own, _ | _ | _⟩ <;> simp [leftBound]

/-- A right operand is at least as strong as its operator. -/
lemma le_rightBound (entry : Nat × Assoc) : entry.1 ≤ rightBound entry := by
  rcases entry with ⟨own, _ | _ | _⟩ <;> simp [rightBound]

/-- Every operator binds less tight than what has none. -/
lemma Lawful.lt_atomStrength (laws : g.Lawful) {op : String} {entry : Nat × Assoc}
    (h : g.table.get? op = some entry) : entry.1 < atomStrength := by
  by_cases hop : op = memberOp
  · subst hop
    rw [laws.member] at h
    cases h
    decide
  · exact Nat.lt_of_lt_of_le (laws.bounded h hop) (by decide)

/-- An operand stands without parentheses exactly where it is as strong as its side asks for.

**Proof sketch.** By cases on the operator of the operand. Both sides compare its strength with that
of the operator outside, and where they are equal the side and the grouping decide. -/
lemma needsParens_eq_false_iff (laws : g.Lawful) {inner : Option String} (known : g.Known inner)
    {outer : String} {entry : Nat × Assoc} (he : g.table.get? outer = some entry) (side : Side) :
    g.table.needsParens inner outer side = false ↔ sideBound entry side ≤ g.strength inner := by
  have hbounded := laws.lt_atomStrength he
  obtain ⟨own, assoc⟩ := entry
  cases inner with
  | none =>
    cases side <;> cases assoc <;>
      simp_all [PrecedenceTable.needsParens, strength, sideBound, leftBound, rightBound,
        atomStrength] <;> omega
  | some name =>
    obtain ⟨⟨innerOwn, innerAssoc⟩, hinner⟩ := known name rfl
    rw [strength_some hinner]
    simp only [PrecedenceTable.needsParens, hinner, he]
    by_cases heq : innerOwn = own
    · subst heq
      cases side <;> cases assoc <;> simp [sideBound, leftBound, rightBound]
    · cases side <;> cases assoc <;>
        simp [heq, sideBound, leftBound, rightBound] <;> omega

/-- A left operand without parentheses can be followed by its operator.

**Proof sketch.** A code without an operator is stronger than all. Else the operator inside is
stronger than the one outside or as strong; in the second case both group to the same side, which
must be the left one. -/
lemma le_after_of_leftBound (laws : g.Lawful) {inner : Option String} (known : g.Known inner)
    {outer : String} {entry : Nat × Assoc} (he : g.table.get? outer = some entry)
    (h : leftBound entry ≤ g.strength inner) : entry.1 + 1 ≤ g.after inner := by
  cases inner with
  | none => exact laws.lt_atomStrength he
  | some name =>
    obtain ⟨innerEntry, hinner⟩ := known name rfl
    rw [strength_some hinner] at h
    rw [after_some hinner]
    have huniform := laws.uniform he hinner
    have hstop := le_stopBound innerEntry
    obtain ⟨own, assoc⟩ := entry
    obtain ⟨innerOwn, innerAssoc⟩ := innerEntry
    cases assoc with
    | left =>
      simp only [leftBound] at h
      by_cases heq : own = innerOwn
      · obtain rfl : innerAssoc = .left := (huniform heq).mp rfl
        simp [stopBound, heq]
      · simp only at hstop ⊢
        omega
    | right => simp only [leftBound] at h hstop ⊢; omega
    | none => simp only [leftBound] at h hstop ⊢; omega

/-- A right operand without parentheses can be followed by what follows the operation. -/
lemma stopBound_le_after (laws : g.Lawful) {inner : Option String} (known : g.Known inner)
    {outer : String} {entry : Nat × Assoc} (he : g.table.get? outer = some entry)
    (h : rightBound entry ≤ g.strength inner) : stopBound entry ≤ g.after inner := by
  cases inner with
  | none =>
    have hbounded := laws.lt_atomStrength he
    have hle := stopBound_le entry
    simp only [after, atomStrength] at hbounded ⊢
    omega
  | some name =>
    obtain ⟨innerEntry, hinner⟩ := known name rfl
    rw [strength_some hinner] at h
    rw [after_some hinner]
    have hstop := le_stopBound innerEntry
    have hright : stopBound entry ≤ rightBound entry := by
      rcases entry with ⟨own, _ | _ | _⟩ <;> simp [stopBound, rightBound]
    omega

/-- Reading of a greater strength stops as well. -/
lemma Stops.mono {k k' : Nat} {s : List Char} (h : g.Stops k s) (hk : k ≤ k') : g.Stops k' s :=
  fun c rest entry hc he => Nat.lt_of_lt_of_le (h c rest entry hc he) hk

/-- Reading stops before a text that continues nothing. -/
lemma stops_of_none {s : List Char} (h : g.continuation? s = none) (k : Nat) : g.Stops k s := by
  intro c rest entry hc
  rw [h] at hc
  cases hc

/-- Reading of a greater strength stops before an operator. -/
lemma Continues.stops {s rest : List Char} {c : Continuation} (h : g.Continues s c rest)
    {entry : Nat × Assoc} (he : g.table.get? c.key = some entry) : g.Stops (entry.1 + 1) s := by
  intro c' rest' entry' hc' he'
  rw [h.1] at hc'
  cases hc'
  rw [he] at he'
  cases he'
  exact Nat.lt_succ_self _

/-! ## Steps of reading -/

attribute [local simp] Tree.code Inside.code

/-- An operand that cannot go on is the whole tree. -/
lemma settles_tail {k least : Nat} {s : List Char} (h : g.Stops k s) (hk : k ≤ least)
    (strength : Nat) (x : Tree) :
    Settles (fun fuel => g.tail fuel least strength x s) (some (x, s)) := by
  refine Settles.of_succ fun fuel => ?_
  rw [tail]
  cases hc : g.continuation? s with
  | none => rfl
  | some p =>
    obtain ⟨c, rest⟩ := p
    cases he : g.table.get? c.key with
    | none => simp [he]
    | some entry =>
      have hlt := h c rest entry hc he
      have hno : ¬ (least ≤ entry.1 ∧ leftBound entry ≤ strength) := by omega
      simp [he, hno]

/-- An operand goes on with a continuation that is loose enough for it and tight enough for what is
being read. -/
lemma tail_continue {s rest : List Char} {c : Continuation} (hc : g.Continues s c rest)
    {entry : Nat × Assoc} (he : g.table.get? c.key = some entry) {least strength : Nat}
    (hleast : least ≤ entry.1) (hstrength : leftBound entry ≤ strength) (fuel : Nat) (x : Tree) :
    g.tail (fuel + 1) least strength x s =
      match c with
      | .infixed op =>
        (g.expression fuel (rightBound entry) rest).bind fun p =>
          g.tail fuel least entry.1 (.infixed op x p.1) p.2
      | .suffixed key text => g.tail fuel least entry.1 (.suffixed key text x) rest
      | .conditional =>
        (g.expression fuel entry.1 rest).bind fun yes =>
          (g.colon? yes.2).bind fun rest =>
            (g.expression fuel entry.1 rest).bind fun no =>
              g.tail fuel least entry.1 (.conditional x yes.1 no.1) no.2
      | .member text => g.tail fuel least atomStrength (.member x text) rest
      | .applied opening bracket =>
        (g.inside fuel bracket rest).bind fun p =>
          g.tail fuel least atomStrength (.applied x opening p.1) p.2 := by
  rw [tail, hc.1]
  simp only [he, hleast, hstrength, and_self, ↓reduceIte]
  cases c <;> rfl

/-- The code of the tree reads as `r`, and then goes on with what follows it. -/
def Reads (g : Grammar) (t : Tree) (r : Option Tree) : Prop :=
  ∀ least rest, least ≤ memberStrength → least ≤ g.strength t.op → Ends rest →
    g.Stops (g.after t.op) rest →
    Goes (fun fuel => g.expression fuel least ((t.code g).toList ++ rest)) r
      fun x fuel => g.tail fuel least (g.strength t.op) x rest

/-- The code between brackets reads as `r`, up to the closing. -/
def ReadsInside (g : Grammar) (bracket : Bracket) (i : Inside) (r : Option Inside) : Prop :=
  ∀ rest, Settles (fun fuel => g.inside fuel bracket ((i.code g).toList ++ rest))
    (r.map fun i => (i, rest))

/-- A tree before the end of its brackets reads to that end. -/
lemma Reads.settles_piece {t : Tree} {r : Option Tree} (h : g.Reads t r) {bracket : Bracket}
    {text : String} {piece : Piece} (hpiece : g.IsPiece bracket text piece) (rest : List Char) :
    Settles (fun fuel => g.expression fuel 0 ((t.code g).toList ++ (text.toList ++ rest)))
      (r.map fun x => (x, text.toList ++ rest)) := by
  obtain ⟨-, hnone, hends⟩ := hpiece rest
  have hstops (k : Nat) : g.Stops k (text.toList ++ rest) := stops_of_none hnone k
  exact (h 0 _ (Nat.zero_le _) (Nat.zero_le _) hends (hstops _)).settles fun x =>
    settles_tail (hstops 0) (Nat.le_refl 0) _ x

/-- A single tree between brackets. -/
lemma readsInside_last {t : Tree} {r : Option Tree} (h : g.Reads t r) {bracket : Bracket}
    {closing : String} (hpiece : g.IsPiece bracket closing (.closing closing)) :
    g.ReadsInside bracket (.last t closing) (r.map (.last · closing)) := by
  intro rest
  have hread := h.settles_piece hpiece rest
  rw [Inside.code, String.toList_append, List.append_assoc]
  refine Settles.step (fun fuel => by rw [inside]) ?_
  cases r with
  | none => exact hread.bind_none
  | some x =>
    refine hread.bind ?_
    simp only [(hpiece rest).1]
    exact ⟨0, fun _ _ => rfl⟩

/-- A tree and what follows behind a separator. -/
lemma readsInside_more {t : Tree} {r : Option Tree} (h : g.Reads t r) {bracket : Bracket}
    {separator : String} (hpiece : g.IsPiece bracket separator (.separator separator))
    {i : Inside} {r' : Option Inside} (hi : g.ReadsInside bracket i r') :
    g.ReadsInside bracket (.more t separator i) (r.bind fun x => r'.map (.more x separator)) := by
  intro rest
  have hread := h.settles_piece hpiece ((i.code g).toList ++ rest)
  simp only [Inside.code, String.toList_append, List.append_assoc]
  refine Settles.step (fun fuel => by rw [inside]) ?_
  cases r with
  | none => exact hread.bind_none
  | some x =>
    refine hread.bind ?_
    simp only [(hpiece _).1]
    obtain ⟨depth, hdepth⟩ := hi rest
    refine ⟨depth, fun fuel hfuel => ?_⟩
    simp only [hdepth fuel hfuel]
    cases r' <;> rfl

/-- An opening and what stands behind it, up to the closing. -/
lemma goes_opening {opening : String} {bracket : Bracket} (ho : g.IsOpening opening bracket)
    {i : Inside} {r : Option Inside} (hi : g.ReadsInside bracket i r) (least : Nat)
    (rest : List Char) :
    Goes (fun fuel => g.expression fuel least (opening.toList ++ ((i.code g).toList ++ rest)))
      (r.map (.close opening)) fun x fuel => g.tail fuel least atomStrength x rest := by
  refine Goes.step (fun fuel => by rw [expression, ho]) ?_
  refine Goes.map ?_
  have hbind := Goes.bind (hi rest)
    (k := fun p fuel => g.tail fuel least atomStrength (.close opening p.1) p.2)
  cases r with
  | none => exact hbind
  | some j => exact hbind

/-! ## Operands -/

/-- Parentheses around a tree are read as the tree. -/
lemma goes_parens (laws : g.Lawful) {t : Tree} {r : Option Tree} (h : g.Reads t r) (least : Nat)
    (rest : List Char) :
    Goes (fun fuel => g.expression fuel least (("(" ++ t.code g ++ ")").toList ++ rest)) r
      fun x fuel => g.tail fuel least atomStrength x rest := by
  have ho : g.IsOpening "(" .round := laws.start_paren
  have hpiece : g.IsPiece .round ")" (.closing ")") := fun rest =>
    ⟨laws.piece_paren rest, laws.continuation_paren rest, by simp [Ends]⟩
  have hgoes := goes_opening ho (readsInside_last h hpiece) least rest
  simp only [Inside.code, String.toList_append, List.append_assoc] at hgoes ⊢
  cases r with
  | none => exact hgoes
  | some x => exact hgoes

/-- An operand on a side of an operator, in parentheses where it needs them, is read as the operand,
which is then as strong as the side asks for.

**Proof sketch.** With parentheses the operand is an atom and stronger than all. Without them it is
as strong as its side asks for, and what follows stops it, as it stops the operator around it. -/
lemma Reads.wrapped (laws : g.Lawful) {t : Tree} {r : Option Tree} (h : g.Reads t r)
    (known : g.Known t.op) {outer : String} {entry : Nat × Assoc}
    (he : g.table.get? outer = some entry) (side : Side) :
    ∃ strength, sideBound entry side ≤ strength ∧ ∀ least rest, least ≤ memberStrength →
      least ≤ sideBound entry side → Ends rest →
      g.Stops (match side with | .left => entry.1 + 1 | .right => stopBound entry) rest →
      Goes (fun fuel => g.expression fuel least
          ((g.wrapped (t.code g) t.op outer side).toList ++ rest)) r
        fun x fuel => g.tail fuel least strength x rest := by
  cases hparens : g.table.needsParens t.op outer side with
  | true =>
    refine ⟨atomStrength, ?_, fun least rest _ _ _ _ => ?_⟩
    · have hbounded := laws.lt_atomStrength he
      have hle : sideBound entry side ≤ entry.1 + 1 := by
        rcases entry with ⟨own, _ | _ | _⟩ <;> cases side <;>
          simp [sideBound, leftBound, rightBound]
      omega
    · simp only [Grammar.wrapped, PrecedenceTable.wrap, hparens, ↓reduceIte]
      exact goes_parens laws h least rest
  | false =>
    have hbound := (needsParens_eq_false_iff laws known he side).mp hparens
    refine ⟨g.strength t.op, hbound, fun least rest htop hleast hends hstops => ?_⟩
    simp only [Grammar.wrapped, PrecedenceTable.wrap, hparens, Bool.false_eq_true, ↓reduceIte]
    refine h least rest htop (Nat.le_trans hleast hbound) hends (hstops.mono ?_)
    cases side with
    | left => exact le_after_of_leftBound laws known he hbound
    | right => exact stopBound_le_after laws known he hbound

/-- A right operand is read up to what follows the operation. -/
lemma Reads.settles_right (laws : g.Lawful) {t : Tree} {r : Option Tree} (h : g.Reads t r)
    (known : g.Known t.op) {outer : String} {entry : Nat × Assoc}
    (he : g.table.get? outer = some entry) {least : Nat} (hstop : stopBound entry ≤ least)
    (hleast : least ≤ rightBound entry) (htop : least ≤ memberStrength) {rest : List Char}
    (hends : Ends rest) (hstops : g.Stops (stopBound entry) rest) :
    Settles (fun fuel => g.expression fuel least
        ((g.wrapped (t.code g) t.op outer .right).toList ++ rest))
      (r.map fun x => (x, rest)) := by
  obtain ⟨strength, -, hread⟩ := h.wrapped laws known he .right
  exact (hread least rest htop hleast hends hstops).settles fun x => settles_tail hstops hstop _ x

/-- Behind its left operand an operator reads its right one. -/
lemma goes_infixed (laws : g.Lawful) {op : String} (hne : op ≠ memberOp)
    (hop : g.IsContinuation (" " ++ op ++ " ") (.infixed op)) {entry : Nat × Assoc}
    (he : g.table.get? op = some entry) {b : Tree} {r : Option Tree} (h : g.Reads b r)
    (known : g.Known b.op) {least strength : Nat} (hleast : least ≤ entry.1)
    (hstrength : leftBound entry ≤ strength) {rest : List Char} (hends : Ends rest)
    (hstops : g.Stops (stopBound entry) rest) (x : Tree) :
    Goes (fun fuel => g.tail fuel least strength x
        ((" " ++ op ++ " ").toList ++ ((g.wrapped (b.code g) b.op op .right).toList ++ rest)))
      (r.map (.infixed op x)) fun t fuel => g.tail fuel least entry.1 t rest := by
  have hstop : stopBound entry ≤ rightBound entry := by
    rcases entry with ⟨own, _ | _ | _⟩ <;> simp [stopBound, rightBound]
  have htop : rightBound entry ≤ memberStrength := by
    have hbounded := laws.bounded he hne
    rcases entry with ⟨own, _ | _ | _⟩ <;> simp only [rightBound] at hbounded ⊢ <;> omega
  have hright := h.settles_right laws known he hstop (Nat.le_refl _) htop hends hstops
  refine Goes.step (fun fuel => tail_continue (hop.2 _) he hleast hstrength fuel x) ?_
  refine Goes.map ?_
  have hbind := Goes.bind hright
    (k := fun p fuel => g.tail fuel least entry.1 (.infixed op x p.1) p.2)
  cases r with
  | none => exact hbind
  | some y => exact hbind

/-- Behind its operand a suffix is read. -/
lemma goes_suffixed {key text : String} (hop : g.IsContinuation text (.suffixed key text))
    {entry : Nat × Assoc} (he : g.table.get? key = some entry) {least strength : Nat}
    (hleast : least ≤ entry.1) (hstrength : leftBound entry ≤ strength) (rest : List Char)
    (x : Tree) :
    Goes (fun fuel => g.tail fuel least strength x (text.toList ++ rest))
      (some (.suffixed key text x)) fun t fuel => g.tail fuel least entry.1 t rest :=
  fun _ ha => Settles.step (fun fuel => tail_continue (hop.2 rest) he hleast hstrength fuel x) ha

/-- Behind its test a conditional reads its branches.

**Proof sketch.** The mark is taken, the first branch read up to the colon, at which every operator
stops, and the second one read up to the rest. Where a branch is not read, neither is the
conditional. -/
lemma goes_conditional (laws : g.Lawful) (hcond : g.HasConditional) {own : Nat}
    (he : g.table.get? "?:" = some (own, .right)) {yes no : Tree} {r r' : Option Tree}
    (hyes : g.Reads yes r) (knownYes : g.Known yes.op) (hno : g.Reads no r')
    (knownNo : g.Known no.op) {least strength : Nat} (hleast : least ≤ own)
    (hstrength : own + 1 ≤ strength) {rest : List Char} (hends : Ends rest)
    (hstops : g.Stops own rest) (x : Tree) :
    Goes (fun fuel => g.tail fuel least strength x
        (" ? ".toList ++ ((g.wrapped (yes.code g) yes.op "?:" .right).toList ++
          (" : ".toList ++ ((g.wrapped (no.code g) no.op "?:" .right).toList ++ rest)))))
      (r.bind fun yes => r'.map (.conditional x yes)) fun t fuel =>
        g.tail fuel least own t rest := by
  obtain ⟨-, hmark, hcolon⟩ := hcond
  have htop : own ≤ memberStrength := Nat.le_of_lt (laws.bounded he (by decide))
  have hright := hno.settles_right laws knownNo he (Nat.le_refl own) (Nat.le_refl own) htop hends
    hstops
  refine Goes.step (fun fuel => tail_continue (hmark.2 _) he hleast hstrength fuel x) ?_
  obtain ⟨hbehind, hnone, hcolonEnds⟩ :=
    hcolon ((g.wrapped (no.code g) no.op "?:" .right).toList ++ rest)
  have hmiddle := hyes.settles_right laws knownYes he (Nat.le_refl own) (Nat.le_refl own)
    htop hcolonEnds (stops_of_none hnone _)
  cases r with
  | none => exact hmiddle.bind_none
  | some y =>
    cases r' with
    | none =>
      refine hmiddle.bind ?_
      simp only [hbehind, Option.bind_some]
      exact hright.bind_none
    | some z =>
      intro a ha
      refine hmiddle.bind ?_
      simp only [hbehind, Option.bind_some]
      exact hright.bind ha

end Grammar

end Retarget
