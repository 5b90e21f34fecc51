import Retarget.Proofs.Grouping.Steps

set_option autoImplicit false

/-!
# Reading inverts writing

The code of a tree reads as the tree, provided that its leaves, operators and brackets are spelled so
that they can be told apart. The one exception are the pairs whose second operand is written as it
is: where that operand would need parentheses, the first operand and the operator go to the leftmost
operand inside it.

## Main definitions

* `Retarget.Grammar.Loose` — what is read behind an operator whose second operand is written as it
  is.
* `Retarget.Tree.Tight` — no operand that is written as it is needs parentheses.

## Main results

* `Retarget.reads_tree` — the code of a tree reads as the regrouped tree.
* `Retarget.regrouped_eq_plain_iff` — the regrouped tree is the tree itself exactly where no
  operand that is written as it is needs parentheses.
* `Retarget.readsAs_plain_iff` — the code of a tree reads as the tree exactly there.
-/

namespace Retarget

namespace Grammar

variable {g : Grammar}

attribute [local simp] Tree.code Inside.code

/-! ## Trees -/

/-- The left operand of an operation is read, and then what follows it. -/
lemma Reads.left (laws : g.Lawful) {t : Tree} {r : Option Tree} (h : g.Reads t r)
    (known : g.Known t.op) {s rest : List Char} {c : Continuation} (hc : g.Continues s c rest)
    {entry : Nat × Assoc} (he : g.table.get? c.key = some entry) {least : Nat}
    (htop : least ≤ memberStrength) (hleast : least ≤ entry.1) :
    ∃ strength, leftBound entry ≤ strength ∧
      Goes (fun fuel => g.expression fuel least
          ((g.wrapped (t.code g) t.op c.key .left).toList ++ s)) r
        fun x fuel => g.tail fuel least strength x s := by
  obtain ⟨strength, hstrength, hread⟩ := h.wrapped laws known he .left
  exact ⟨strength, hstrength, hread least _ htop (Nat.le_trans hleast (le_leftBound entry)) hc.2
    (hc.stops he)⟩

/-- A constant or a name reads as itself. -/
lemma reads_leaf {text : String} (h : g.IsLeaf text) : g.Reads (.leaf text) (some (.leaf text)) := by
  intro least rest _ _ hends _ a ha
  refine Settles.step (fun fuel => ?_) ha
  rw [expression, Tree.code, h rest hends]
  rfl

/-- What stands in brackets reads as itself. -/
lemma reads_closed {opening : String} {bracket : Bracket} (ho : g.IsOpening opening bracket)
    {i : Inside} {r : Option Inside} (hi : g.ReadsInside bracket i r) :
    g.Reads (.closed opening i) (r.map (.close opening)) := by
  intro least rest _ _ _ _
  rw [Tree.code, String.toList_append, List.append_assoc]
  exact goes_opening ho hi least rest

/-- An operator in front of its operand.

**Proof sketch.** The operator asks for an operand of its own strength, which is read up to where
the whole operation ends, and the loop behind goes on from there. -/
lemma reads_prefixed (laws : g.Lawful) {key : String} (hne : key ≠ memberOp)
    (hkey : g.IsPrefixed key) {x : Tree} {r : Option Tree} (h : g.Reads x r) (known : g.Known x.op) :
    g.Reads (.prefixed key x) (r.map (.prefixed key)) := by
  intro least rest htop hleast hends hstops
  obtain ⟨⟨entry, he, hassoc⟩, hstart⟩ := hkey
  have hstop : stopBound entry = entry.1 := by
    rcases entry with ⟨own, _ | _ | _⟩ <;> simp_all [stopBound]
  simp only [Tree.op, strength_some he, after_some he] at hleast hstops ⊢
  rw [Tree.code, String.toList_append, List.append_assoc]
  have hright := h.settles_right laws known he (Nat.le_of_eq hstop) (le_rightBound entry)
    (Nat.le_of_lt (laws.bounded he hne)) hends hstops
  refine Goes.step (h := fun fuel => (g.expression fuel entry.1
      ((g.wrapped (x.code g) x.op key .right).toList ++ rest)).bind fun p =>
        g.tail fuel least entry.1 (.prefixed key p.1) p.2) (fun fuel => ?_) (Goes.map ?_)
  · rw [expression, hstart]
    simp [he, hleast]
  · have hbind := Goes.bind hright
      (k := fun p fuel => g.tail fuel least entry.1 (.prefixed key p.1) p.2)
    cases r with
    | none => exact hbind
    | some y => exact hbind

/-- An operator between its operands. -/
lemma reads_infixed (laws : g.Lawful) {op : String} (hne : op ≠ memberOp)
    (hop : g.IsContinuation (" " ++ op ++ " ") (.infixed op)) {a b : Tree} {r r' : Option Tree}
    (ha : g.Reads a r) (knownA : g.Known a.op) (hb : g.Reads b r') (knownB : g.Known b.op) :
    g.Reads (.infixed op a b) (r.bind fun x => r'.map (.infixed op x)) := by
  intro least rest htop hleast hends hstops
  obtain ⟨⟨entry, he⟩, -⟩ := id hop
  simp only [Continuation.key] at he
  simp only [Tree.op, strength_some he, after_some he] at hleast hstops ⊢
  have hcode : ((Tree.infixed op a b).code g).toList ++ rest =
      (g.wrapped (a.code g) a.op op .left).toList ++ ((" " ++ op ++ " ").toList ++
        ((g.wrapped (b.code g) b.op op .right).toList ++ rest)) := by
    simp
  obtain ⟨strength, hstrength, hleft⟩ := ha.left laws knownA (hop.2 _) he htop hleast
  rw [hcode]
  exact hleft.trans fun x _ =>
    goes_infixed laws hne hop he hb knownB hleast hstrength hends hstops x

/-- An operator behind its operand. -/
lemma reads_suffixed (laws : g.Lawful) {key text : String}
    (hop : g.IsContinuation text (.suffixed key text)) {x : Tree} {r : Option Tree}
    (h : g.Reads x r) (known : g.Known x.op) :
    g.Reads (.suffixed key text x) (r.map (.suffixed key text)) := by
  intro least rest htop hleast _ _
  obtain ⟨⟨entry, he⟩, -⟩ := id hop
  simp only [Continuation.key] at he
  simp only [Tree.op, strength_some he] at hleast ⊢
  obtain ⟨strength, hstrength, hleft⟩ := h.left laws known (hop.2 rest) he htop hleast
  rw [Tree.code, String.toList_append, List.append_assoc, Option.map_eq_bind]
  exact hleft.trans fun x _ => goes_suffixed hop he hleast hstrength rest x

/-- A conditional. -/
lemma reads_conditional (laws : g.Lawful) (hcond : g.HasConditional) {test yes no : Tree}
    {r r' r'' : Option Tree} (htest : g.Reads test r) (knownTest : g.Known test.op)
    (hyes : g.Reads yes r') (knownYes : g.Known yes.op) (hno : g.Reads no r'')
    (knownNo : g.Known no.op) :
    g.Reads (.conditional test yes no)
      (r.bind fun test => r'.bind fun yes => r''.map (.conditional test yes)) := by
  intro least rest htop hleast hends hstops
  obtain ⟨⟨own, he⟩, hmark, -⟩ := id hcond
  simp only [Tree.op, strength_some he, after_some he, stopBound] at hleast hstops ⊢
  have hcode : ((Tree.conditional test yes no).code g).toList ++ rest =
      (g.wrapped (test.code g) test.op "?:" .left).toList ++ (" ? ".toList ++
        ((g.wrapped (yes.code g) yes.op "?:" .right).toList ++ (" : ".toList ++
          ((g.wrapped (no.code g) no.op "?:" .right).toList ++ rest)))) := by
    simp
  obtain ⟨strength, hstrength, hleft⟩ := htest.left laws knownTest (hmark.2 _) he htop hleast
  rw [hcode]
  exact hleft.trans fun x _ =>
    goes_conditional laws hcond he hyes knownYes hno knownNo hleast hstrength hends hstops x

/-- A member read. -/
lemma reads_member (laws : g.Lawful) {text : String} (htext : g.IsMember text) {object : Tree}
    {r : Option Tree} (h : g.Reads object r) (known : g.Known object.op) :
    g.Reads (.member object text) (r.map (.member · text)) := by
  intro least rest htop hleast hends hstops
  obtain ⟨strength, hstrength, hleft⟩ :=
    h.left laws known (htext rest hends) laws.member htop htop
  rw [Tree.code, String.toList_append, List.append_assoc, Option.map_eq_bind]
  refine hleft.trans fun x _ a ha => ?_
  exact Settles.step
    (fun fuel => tail_continue (htext rest hends) laws.member htop hstrength fuel x) ha

/-- A method call or an indexed read. -/
lemma reads_applied (laws : g.Lawful) {object : Tree} {r : Option Tree} (h : g.Reads object r)
    (known : g.Known object.op) {opening : String} {bracket : Bracket}
    (ho : g.IsContinuation opening (.applied opening bracket)) {i : Inside} {r' : Option Inside}
    (hi : g.ReadsInside bracket i r') :
    g.Reads (.applied object opening i)
      (r.bind fun object => r'.map (.applied object opening)) := by
  intro least rest htop _ _ _
  obtain ⟨strength, hstrength, hleft⟩ :=
    h.left laws known (ho.2 ((i.code g).toList ++ rest)) laws.member htop htop
  simp only [Tree.code, String.toList_append, List.append_assoc]
  refine hleft.trans fun x _ => ?_
  refine Goes.step
    (fun fuel => tail_continue (ho.2 _) laws.member htop hstrength fuel x) (Goes.map ?_)
  have hbind := Goes.bind (hi rest)
    (k := fun p fuel => g.tail fuel least atomStrength (.applied x opening p.1) p.2)
  cases r' with
  | none => exact hbind
  | some j => exact hbind

/-! ## Operands that are written as they are -/

/-- Behind `lhs op`, the code of a tree that binds no tighter than `op` reads as the graft. -/
def Loose (g : Grammar) (op : String) (own : Nat) (t : Tree) : Prop :=
  g.strength t.op ≤ own → ∀ lhs rest, Ends rest → g.Stops (g.after t.op) rest →
    Goes (fun fuel => (g.expression fuel (own + 1) ((t.code g).toList ++ rest)).bind fun p =>
        g.tail fuel 0 own (.infixed op lhs p.1) p.2)
      (t.grafted g op lhs) fun x fuel => g.tail fuel 0 (g.strength t.op) x rest

/-- Behind `lhs op`, the left operand of a looser operation becomes the right operand of `op`, or is
grafted in its turn.

**Proof sketch.** In parentheses, or where it binds tighter than `op`, the operand is read to its end
as the right operand of `op`; the looser operation then takes the whole as its left operand. -/
lemma loose_left (laws : g.Lawful) {op : String} (hne : op ≠ memberOp) {own : Nat}
    (he : g.table.get? op = some (own, .left)) {t : Tree} (h : g.Reads t (t.regrouped g))
    (hloose : g.Loose op own t) (known : g.Known t.op) {s rest : List Char} {c : Continuation}
    (hc : g.Continues s c rest) {entry : Nat × Assoc} (he' : g.table.get? c.key = some entry)
    (hown : entry.1 ≤ own) (lhs : Tree) :
    ∃ strength, leftBound entry ≤ strength ∧
      Goes (fun fuel => (g.expression fuel (own + 1)
          ((g.wrapped (t.code g) t.op c.key .left).toList ++ s)).bind fun p =>
            g.tail fuel 0 own (.infixed op lhs p.1) p.2)
        (if g.table.needsParens t.op c.key .left || !g.table.needsParens t.op op .right then
          (t.regrouped g).map (.infixed op lhs)
        else t.grafted g op lhs) fun x fuel => g.tail fuel 0 strength x s := by
  have htop : own + 1 ≤ memberStrength := laws.bounded he hne
  have hstops : g.Stops (entry.1 + 1) s := hc.stops he'
  have hfits : leftBound entry ≤ own := by
    have huniform := laws.uniform he he'
    obtain ⟨own', assoc⟩ := entry
    by_cases heq : own = own'
    · obtain rfl : assoc = .left := (huniform heq).mp rfl
      exact hown
    · cases assoc <;> simp only [leftBound] at hown ⊢ <;> omega
  have hright (hread : Settles (fun fuel => g.expression fuel (own + 1)
      ((g.wrapped (t.code g) t.op c.key .left).toList ++ s))
        ((t.regrouped g).map fun x => (x, s))) :
      Goes (fun fuel => (g.expression fuel (own + 1)
          ((g.wrapped (t.code g) t.op c.key .left).toList ++ s)).bind fun p =>
            g.tail fuel 0 own (.infixed op lhs p.1) p.2)
        ((t.regrouped g).map (.infixed op lhs)) fun x fuel => g.tail fuel 0 own x s := by
    have hbind := Goes.bind hread
      (k := fun p fuel => g.tail fuel 0 own (.infixed op lhs p.1) p.2)
    cases hr : t.regrouped g with
    | none => rw [hr] at hbind; exact hbind
    | some x => rw [hr] at hbind; exact hbind
  cases hparens : g.table.needsParens t.op c.key .left with
  | true =>
    refine ⟨own, hfits, hright ?_⟩
    simp only [Grammar.wrapped, PrecedenceTable.wrap, hparens, ↓reduceIte]
    exact (goes_parens laws h (own + 1) s).settles fun x =>
      settles_tail hstops (Nat.succ_le_succ hown) _ x
  | false =>
    have hbound := (needsParens_eq_false_iff laws known he' .left).mp hparens
    have hafter := le_after_of_leftBound laws known he' hbound
    cases htight : g.table.needsParens t.op op .right with
    | false =>
      have hstrength := (needsParens_eq_false_iff laws known he .right).mp htight
      refine ⟨own, hfits, hright ?_⟩
      simp only [Grammar.wrapped, PrecedenceTable.wrap, hparens, Bool.false_eq_true, ↓reduceIte]
      exact (h (own + 1) s htop hstrength hc.2 (hstops.mono hafter)).settles fun x =>
        settles_tail hstops (Nat.succ_le_succ hown) _ x
    | true =>
      have hweak : g.strength t.op ≤ own := by
        have hnot : ¬ sideBound (own, .left) .right ≤ g.strength t.op := fun hle => by
          rw [(needsParens_eq_false_iff laws known he .right).mpr hle] at htight
          cases htight
        simp only [sideBound, rightBound] at hnot
        omega
      refine ⟨g.strength t.op, hbound, ?_⟩
      simp only [Grammar.wrapped, PrecedenceTable.wrap, hparens, Bool.false_eq_true, ↓reduceIte,
        Bool.not_true, Bool.or_self]
      exact hloose hweak lhs s hc.2 (hstops.mono hafter)

/-- What has no operator binds too tight to be grafted. -/
lemma loose_atom (laws : g.Lawful) {op : String} {own : Nat}
    (he : g.table.get? op = some (own, .left)) {t : Tree} (hop : t.op = none) :
    g.Loose op own t := by
  intro hweak
  have hlt := laws.lt_atomStrength he
  simp only [hop, strength] at hweak hlt
  omega

/-- An operator in front of its operand cannot follow a tighter one. -/
lemma loose_prefixed {op key : String} {own : Nat} (hkey : g.IsPrefixed key) (x : Tree) :
    g.Loose op own (.prefixed key x) := by
  intro hweak lhs rest _ _
  obtain ⟨⟨entry, he, -⟩, hstart⟩ := hkey
  simp only [Tree.op, strength_some he] at hweak
  refine Settles.bind_none (Settles.of_succ fun fuel => ?_)
  have hno : ¬ own + 1 ≤ entry.1 := by omega
  rw [Tree.code, String.toList_append, List.append_assoc, expression, hstart]
  simp only [he, Option.bind_some, if_neg hno]

/-- An operator between its operands is grafted to its left one. -/
lemma loose_infixed (laws : g.Lawful) {op op' : String} (hne : op ≠ memberOp) {own : Nat}
    (he : g.table.get? op = some (own, .left)) (hne' : op' ≠ memberOp)
    (hop : g.IsContinuation (" " ++ op' ++ " ") (.infixed op')) {a b : Tree}
    (ha : g.Reads a (a.regrouped g)) (hloose : g.Loose op own a) (knownA : g.Known a.op)
    (hb : g.Reads b (b.regrouped g)) (knownB : g.Known b.op) :
    g.Loose op own (.infixed op' a b) := by
  intro hweak lhs rest hends hstops
  obtain ⟨⟨entry, he'⟩, -⟩ := id hop
  simp only [Continuation.key] at he'
  simp only [Tree.op, strength_some he', after_some he'] at hweak hstops ⊢
  have hcode : ((Tree.infixed op' a b).code g).toList ++ rest =
      (g.wrapped (a.code g) a.op op' .left).toList ++ ((" " ++ op' ++ " ").toList ++
        ((g.wrapped (b.code g) b.op op' .right).toList ++ rest)) := by
    simp
  obtain ⟨strength, hstrength, hleft⟩ :=
    loose_left laws hne he ha hloose knownA (hop.2 _) he' hweak lhs
  rw [hcode, Tree.grafted]
  exact hleft.trans fun x _ =>
    goes_infixed laws hne' hop he' hb knownB (Nat.zero_le _) hstrength hends hstops x

/-- An operator behind its operand is grafted to it. -/
lemma loose_suffixed (laws : g.Lawful) {op key text : String} (hne : op ≠ memberOp) {own : Nat}
    (he : g.table.get? op = some (own, .left)) (hop : g.IsContinuation text (.suffixed key text))
    {x : Tree} (h : g.Reads x (x.regrouped g)) (hloose : g.Loose op own x) (known : g.Known x.op) :
    g.Loose op own (.suffixed key text x) := by
  intro hweak lhs rest _ _
  obtain ⟨⟨entry, he'⟩, -⟩ := id hop
  simp only [Continuation.key] at he'
  simp only [Tree.op, strength_some he'] at hweak ⊢
  obtain ⟨strength, hstrength, hleft⟩ :=
    loose_left laws hne he h hloose known (hop.2 rest) he' hweak lhs
  rw [Tree.code, String.toList_append, List.append_assoc, Tree.grafted, Option.map_eq_bind]
  exact hleft.trans fun x _ => goes_suffixed hop he' (Nat.zero_le _) hstrength rest x

/-- A conditional is grafted to its test. -/
lemma loose_conditional (laws : g.Lawful) {op : String} (hne : op ≠ memberOp) {own : Nat}
    (he : g.table.get? op = some (own, .left)) (hcond : g.HasConditional) {test yes no : Tree}
    (htest : g.Reads test (test.regrouped g)) (hloose : g.Loose op own test)
    (knownTest : g.Known test.op) (hyes : g.Reads yes (yes.regrouped g))
    (knownYes : g.Known yes.op) (hno : g.Reads no (no.regrouped g)) (knownNo : g.Known no.op) :
    g.Loose op own (.conditional test yes no) := by
  intro hweak lhs rest hends hstops
  obtain ⟨⟨own', he'⟩, hmark, -⟩ := id hcond
  simp only [Tree.op, strength_some he', after_some he', stopBound] at hweak hstops ⊢
  have hcode : ((Tree.conditional test yes no).code g).toList ++ rest =
      (g.wrapped (test.code g) test.op "?:" .left).toList ++ (" ? ".toList ++
        ((g.wrapped (yes.code g) yes.op "?:" .right).toList ++ (" : ".toList ++
          ((g.wrapped (no.code g) no.op "?:" .right).toList ++ rest)))) := by
    simp
  obtain ⟨strength, hstrength, hleft⟩ :=
    loose_left laws hne he htest hloose knownTest (hmark.2 _) he' hweak lhs
  rw [hcode, Tree.grafted]
  exact hleft.trans fun x _ => goes_conditional laws hcond he' hyes knownYes hno knownNo
    (Nat.zero_le _) hstrength hends hstops x

/-- An operation between brackets whose second operand is written as it is.

**Proof sketch.** The first operand is read up to the operator. Behind the operator the second
operand, which has no parentheses where it would need them, is read at the strength of a right
operand: if it binds tight enough it is read whole, and else its operators take the operation up to
there as their leftmost operand. Either way reading stops at the closing bracket. -/
lemma readsInside_bare (laws : g.Lawful) {bracket : Bracket} {closing : String}
    (hpiece : g.IsPiece bracket closing (.closing closing)) {op : String} (hne : op ≠ memberOp)
    {own : Nat} (he : g.table.get? op = some (own, .left))
    (hop : g.IsContinuation (" " ++ op ++ " ") (.infixed op)) {a b : Tree}
    (ha : g.Reads a (a.regrouped g)) (knownA : g.Known a.op) (hb : g.Reads b (b.regrouped g))
    (hloose : g.Loose op own b) (knownB : g.Known b.op) :
    g.ReadsInside bracket (.bare op a b closing) ((Inside.bare op a b closing).regrouped g) := by
  intro rest
  obtain ⟨hclose, hnone, hends⟩ := hpiece rest
  have hstops (k : Nat) : g.Stops k (closing.toList ++ rest) := stops_of_none hnone k
  have htop : own + 1 ≤ memberStrength := laws.bounded he hne
  have hcode : ((Inside.bare op a b closing).code g).toList ++ rest =
      (g.wrapped (a.code g) a.op op .left).toList ++ ((" " ++ op ++ " ").toList ++
        ((b.code g).toList ++ (closing.toList ++ rest))) := by
    simp
  -- Behind the operator: the second operand, or the graft, up to the closing.
  have hright (x : Tree) : Settles (fun fuel =>
      (g.expression fuel (own + 1) ((b.code g).toList ++ (closing.toList ++ rest))).bind fun p =>
        g.tail fuel 0 own (.infixed op x p.1) p.2)
      ((if g.table.needsParens b.op op .right then b.grafted g op x
        else (b.regrouped g).map (.infixed op x)).map fun t => (t, closing.toList ++ rest)) := by
    cases htight : g.table.needsParens b.op op .right with
    | true =>
      have hnot : ¬ sideBound (own, .left) .right ≤ g.strength b.op := fun hle => by
        rw [(needsParens_eq_false_iff laws knownB he .right).mpr hle] at htight
        cases htight
      simp only [sideBound, rightBound] at hnot
      have hgoes := hloose (by omega) x _ hends (hstops _)
      exact hgoes.settles fun t => settles_tail (hstops 0) (Nat.le_refl 0) _ t
    | false =>
      have hbound := (needsParens_eq_false_iff laws knownB he .right).mp htight
      have hread := (hb (own + 1) _ htop hbound hends (hstops _)).settles fun t =>
        settles_tail (hstops 0) (Nat.zero_le _) _ t
      have hbind := Goes.bind hread
        (k := fun p fuel => g.tail fuel 0 own (.infixed op x p.1) p.2)
      cases hr : b.regrouped g with
      | none => rw [hr] at hbind; exact hbind
      | some y =>
        rw [hr] at hbind
        exact hbind _ (settles_tail (hstops 0) (Nat.le_refl 0) _ _)
  obtain ⟨strength, hstrength, hleft⟩ :=
    ha.left laws knownA (hop.2 _) he (Nat.zero_le _) (Nat.zero_le own)
  rw [hcode, Inside.regrouped]
  refine Settles.step (fun fuel => by rw [inside]) ?_
  cases hra : a.regrouped g with
  | none =>
    rw [hra] at hleft
    exact Settles.bind_none hleft
  | some x =>
    rw [hra] at hleft
    have hwhole := hleft _ (Settles.step
      (fun fuel => tail_continue (hop.2 _) he (Nat.zero_le _) hstrength fuel x) (hright x))
    rw [Option.bind_some]
    generalize (if g.table.needsParens b.op op .right then b.grafted g op x
        else (b.regrouped g).map (.infixed op x)) = r at hwhole ⊢
    cases r with
    | none => exact hwhole.bind_none
    | some t =>
      refine hwhole.bind ?_
      simp only [hclose]
      exact ⟨0, fun _ _ => rfl⟩

end Grammar

open Grammar

variable {g : Grammar}

/-- The operator of a legible tree is in the precedence table. -/
lemma Tree.Legible.known {t : Tree} (h : t.Legible g) : g.Known t.op := by
  intro name hname
  cases t with
  | leaf | closed | member | applied => cases hname
  | prefixed key x =>
    cases hname
    obtain ⟨-, ⟨⟨entry, he, -⟩, -⟩, -⟩ := h
    exact ⟨entry, he⟩
  | infixed op a b => cases hname; exact h.2.1.1
  | suffixed key text x => cases hname; exact h.1.1
  | conditional test yes no =>
    cases hname
    obtain ⟨⟨⟨own, he⟩, -⟩, -⟩ := h
    exact ⟨_, he⟩

mutual

/-- The code of a legible tree reads as the regrouped tree. -/
theorem reads_tree (laws : g.Lawful) : ∀ t : Tree, t.Legible g → g.Reads t (t.regrouped g)
  | .leaf _, h => reads_leaf h
  | .closed _ i, ⟨bracket, ho, hi⟩ => reads_closed ho (reads_inside laws i bracket hi)
  | .prefixed _ x, ⟨hne, hkey, hx⟩ =>
    reads_prefixed laws hne hkey (reads_tree laws x hx) hx.known
  | .infixed _ a b, ⟨hne, hop, ha, hb⟩ =>
    reads_infixed laws hne hop (reads_tree laws a ha) ha.known (reads_tree laws b hb) hb.known
  | .suffixed _ _ x, ⟨hop, hx⟩ => reads_suffixed laws hop (reads_tree laws x hx) hx.known
  | .conditional test yes no, ⟨hcond, htest, hyes, hno⟩ =>
    reads_conditional laws hcond (reads_tree laws test htest) htest.known
      (reads_tree laws yes hyes) hyes.known (reads_tree laws no hno) hno.known
  | .member object _, ⟨htext, ho⟩ => reads_member laws htext (reads_tree laws object ho) ho.known
  | .applied object _ i, ⟨ho, bracket, hopening, hi⟩ =>
    reads_applied laws (reads_tree laws object ho) ho.known hopening
      (reads_inside laws i bracket hi)

/-- Behind a tighter operator, the code of a legible tree reads as the graft. -/
theorem loose_tree (laws : g.Lawful) : ∀ t : Tree, t.Legible g → ∀ op own, op ≠ memberOp →
    g.table.get? op = some (own, .left) → g.Loose op own t
  | .leaf _, _, _, _, _, he => loose_atom laws he rfl
  | .closed _ _, _, _, _, _, he => loose_atom laws he rfl
  | .member _ _, _, _, _, _, he => loose_atom laws he rfl
  | .applied _ _ _, _, _, _, _, he => loose_atom laws he rfl
  | .prefixed _ x, ⟨_, hkey, _⟩, _, _, _, _ => loose_prefixed hkey x
  | .infixed _ a b, ⟨hne', hop, ha, hb⟩, op, own, hne, he =>
    loose_infixed laws hne he hne' hop (reads_tree laws a ha) (loose_tree laws a ha op own hne he)
      ha.known (reads_tree laws b hb) hb.known
  | .suffixed _ _ x, ⟨hop, hx⟩, op, own, hne, he =>
    loose_suffixed laws hne he hop (reads_tree laws x hx) (loose_tree laws x hx op own hne he)
      hx.known
  | .conditional test yes no, ⟨hcond, htest, hyes, hno⟩, op, own, hne, he =>
    loose_conditional laws hne he hcond (reads_tree laws test htest)
      (loose_tree laws test htest op own hne he) htest.known (reads_tree laws yes hyes) hyes.known
      (reads_tree laws no hno) hno.known

/-- The code between legible brackets reads as what stands there, regrouped. -/
theorem reads_inside (laws : g.Lawful) : ∀ (i : Inside) (bracket : Bracket),
    i.Legible g bracket → g.ReadsInside bracket i (i.regrouped g)
  | .last t _, _, ⟨hpiece, ht⟩ => readsInside_last (reads_tree laws t ht) hpiece
  | .more t _ i, bracket, ⟨hpiece, ht, hi⟩ =>
    readsInside_more (reads_tree laws t ht) hpiece (reads_inside laws i bracket hi)
  | .bare op a b _, _, ⟨hpiece, ⟨own, he⟩, hne, _, hop, ha, hb⟩ =>
    readsInside_bare laws hpiece hne he hop (reads_tree laws a ha) ha.known (reads_tree laws b hb)
      (loose_tree laws b hb op own hne he) hb.known

end

/-! ## Tight operands -/

mutual

/-- No operand that is written as it is needs parentheses. -/
def Tree.Tight (g : Grammar) : Tree → Prop
  | .leaf _ => True
  | .closed _ inside => inside.Tight g
  | .prefixed _ x => x.Tight g
  | .infixed _ a b => a.Tight g ∧ b.Tight g
  | .suffixed _ _ x => x.Tight g
  | .conditional test yes no => test.Tight g ∧ yes.Tight g ∧ no.Tight g
  | .member object _ => object.Tight g
  | .applied object _ inside => object.Tight g ∧ inside.Tight g

/-- No operand between brackets that is written as it is needs parentheses. -/
def Inside.Tight (g : Grammar) : Inside → Prop
  | .last tree _ => tree.Tight g
  | .more tree _ rest => tree.Tight g ∧ rest.Tight g
  | .bare op a b _ => a.Tight g ∧ b.Tight g ∧ g.table.needsParens b.op op .right = false

end

/-- A graft has the operator of the tree at its top level. -/
lemma op_grafted {op : String} {t lhs x : Tree} (h : t.grafted g op lhs = some x) :
    x.op = t.op := by
  cases t with
  | leaf | closed | prefixed | member | applied => cases h
  | infixed op' a b =>
    obtain ⟨a', -, h⟩ := Option.bind_eq_some_iff.mp h
    obtain ⟨b', -, rfl⟩ := Option.map_eq_some_iff.mp h
    rfl
  | suffixed key text y =>
    obtain ⟨y', -, rfl⟩ := Option.map_eq_some_iff.mp h
    rfl
  | conditional test yes no =>
    obtain ⟨test', -, h⟩ := Option.bind_eq_some_iff.mp h
    obtain ⟨yes', -, h⟩ := Option.bind_eq_some_iff.mp h
    obtain ⟨no', -, rfl⟩ := Option.map_eq_some_iff.mp h
    rfl

/-- Regrouping keeps the separators and the closing between brackets. -/
lemma shape_regrouped {i j : Inside} (h : i.regrouped g = some j) :
    (∃ t t' closing, j = .last t closing ∧ i.plain = .last t' closing) ∨
      ∃ t t' separator rest rest', j = .more t separator rest ∧
        i.plain = .more t' separator rest' := by
  cases i with
  | last t closing =>
    obtain ⟨t', -, rfl⟩ := Option.map_eq_some_iff.mp h
    exact .inl ⟨_, _, _, rfl, rfl⟩
  | more t separator rest =>
    obtain ⟨t', -, h⟩ := Option.bind_eq_some_iff.mp h
    obtain ⟨rest', -, rfl⟩ := Option.map_eq_some_iff.mp h
    exact .inr ⟨_, _, _, _, _, rfl, rfl⟩
  | bare op a b closing =>
    obtain ⟨a', -, h⟩ := Option.bind_eq_some_iff.mp h
    obtain ⟨t', -, rfl⟩ := Option.map_eq_some_iff.mp h
    exact .inl ⟨_, _, _, rfl, rfl⟩

/-- Closing tells apart what has the same separators and closing.

**Proof sketch.** What regrouping returns has the separators and the closing of what it started with
(`shape_regrouped`). Round brackets around one tree are the tree itself, and anything else is kept
in full. -/
lemma close_regrouped_eq_iff {opening : String} {i : Inside} :
    (i.regrouped g).map (Tree.close opening) = some (Tree.close opening i.plain) ↔
      i.regrouped g = some i.plain := by
  constructor
  · intro h
    obtain ⟨j, hj, hclose⟩ := Option.map_eq_some_iff.mp h
    rw [hj]
    obtain ⟨t, t', closing, rfl, hplain⟩ | ⟨t, t', separator, rest, rest', rfl, hplain⟩ :=
      shape_regrouped hj
    · rw [hplain] at hclose ⊢
      by_cases hround : opening = "(" ∧ closing = ")"
      · simp only [Tree.close, hround, and_self, ↓reduceIte] at hclose
        rw [hclose]
      · simp only [Tree.close, hround, ↓reduceIte, Tree.closed.injEq, true_and] at hclose
        rw [hclose]
    · rw [hplain] at hclose ⊢
      simp only [Tree.close, Tree.closed.injEq, true_and] at hclose
      rw [hclose]
  · intro h
    rw [h, Option.map_some]

mutual

/-- A tree regroups to itself exactly where no operand that is written as it is needs parentheses. -/
theorem regrouped_eq_plain_iff : ∀ t : Tree, t.Legible g →
    (t.regrouped g = some t.plain ↔ t.Tight g)
  | .leaf _, _ => by simp [Tree.regrouped, Tree.plain, Tree.Tight]
  | .closed _ i, ⟨bracket, _, hi⟩ => by
    rw [Tree.regrouped, Tree.plain, Tree.Tight, close_regrouped_eq_iff]
    exact regrouped_inside_eq_plain_iff i bracket hi
  | .prefixed _ x, ⟨_, _, hx⟩ => by
    simp [Tree.regrouped, Tree.plain, Tree.Tight, ← regrouped_eq_plain_iff x hx]
  | .infixed _ a b, ⟨_, _, ha, hb⟩ => by
    simp [Tree.regrouped, Tree.plain, Tree.Tight, ← regrouped_eq_plain_iff a ha,
      ← regrouped_eq_plain_iff b hb, Option.bind_eq_some_iff]
  | .suffixed _ _ x, ⟨_, hx⟩ => by
    simp [Tree.regrouped, Tree.plain, Tree.Tight, ← regrouped_eq_plain_iff x hx]
  | .conditional test yes no, ⟨_, htest, hyes, hno⟩ => by
    simp [Tree.regrouped, Tree.plain, Tree.Tight, ← regrouped_eq_plain_iff test htest,
      ← regrouped_eq_plain_iff yes hyes, ← regrouped_eq_plain_iff no hno, Option.bind_eq_some_iff]
  | .member object _, ⟨_, ho⟩ => by
    simp [Tree.regrouped, Tree.plain, Tree.Tight, ← regrouped_eq_plain_iff object ho]
  | .applied object _ i, ⟨ho, bracket, _, hi⟩ => by
    simp [Tree.regrouped, Tree.plain, Tree.Tight, ← regrouped_eq_plain_iff object ho,
      ← regrouped_inside_eq_plain_iff i bracket hi, Option.bind_eq_some_iff]

/-- The same between brackets. -/
theorem regrouped_inside_eq_plain_iff : ∀ (i : Inside) (bracket : Bracket), i.Legible g bracket →
    (i.regrouped g = some i.plain ↔ i.Tight g)
  | .last t _, _, ⟨_, ht⟩ => by
    simp [Inside.regrouped, Inside.plain, Inside.Tight, ← regrouped_eq_plain_iff t ht]
  | .more t _ i, bracket, ⟨_, ht, hi⟩ => by
    simp [Inside.regrouped, Inside.plain, Inside.Tight, ← regrouped_eq_plain_iff t ht,
      ← regrouped_inside_eq_plain_iff i bracket hi, Option.bind_eq_some_iff]
  | .bare op a b closing, bracket, ⟨_, _, _, hother, _, ha, hb⟩ => by
    rw [Inside.regrouped, Inside.plain, Inside.Tight, ← regrouped_eq_plain_iff a ha,
      ← regrouped_eq_plain_iff b hb]
    cases htight : g.table.needsParens b.op op .right with
    | false => simp [Option.bind_eq_some_iff]
    | true =>
      simp only [↓reduceIte, Bool.true_eq_false, and_false, iff_false]
      intro h
      obtain ⟨x, -, h⟩ := Option.bind_eq_some_iff.mp h
      obtain ⟨t, ht, h⟩ := Option.map_eq_some_iff.mp h
      cases h
      exact hother (op_grafted ht).symm

end

/-- The code of a legible tree settles. -/
lemma settles_code (laws : g.Lawful) {t : Tree} (h : t.Legible g) :
    Settles (fun fuel => g.expression fuel 0 (t.code g).toList)
      ((t.regrouped g).map fun x => (x, [])) := by
  have hstops (k : Nat) : g.Stops k [] := stops_of_none laws.continuation_nil k
  have hread := reads_tree laws t h 0 [] (Nat.zero_le _) (Nat.zero_le _) trivial (hstops _)
  rw [List.append_nil] at hread
  exact hread.settles fun x => settles_tail (hstops 0) (Nat.le_refl 0) _ x

/-- The code of a legible tree reads as the tree exactly where no operand that is written as it is
needs parentheses. -/
theorem readsAs_plain_iff (laws : g.Lawful) {t : Tree} (h : t.Legible g) :
    g.ReadsAs (t.code g) t.plain ↔ t.Tight g := by
  obtain ⟨depth, hdepth⟩ := settles_code laws h
  rw [← regrouped_eq_plain_iff t h]
  constructor
  · rintro ⟨depth', hdepth'⟩
    have heq := (hdepth (depth + depth') (by omega)).symm.trans
      (hdepth' (depth + depth') (by omega))
    obtain ⟨x, hx, hpair⟩ := Option.map_eq_some_iff.mp heq
    rw [hx, (Prod.mk.inj hpair).1]
  · intro hplain
    refine ⟨depth, fun fuel hfuel => (hdepth fuel hfuel).trans ?_⟩
    rw [hplain, Option.map_some]

end Retarget
