import Retarget.Proofs.Quoting.Occurrence

set_option autoImplicit false

/-!
# The places of a lowered form in its code

A place of a lowered form is the way that leads to it from the top, one turn after the other. Equal
nodes at different places are told apart by their ways. The code of every node on a way that a target
writes is a stretch of the compiled code: the stretches of two places are apart, unless one place lies
on the way to the other, whose stretch is then inside.

## Main definitions

* `Retarget.Node`, `Retarget.Turn` — a node with the values of the names around it, and the turns that
  lead on from a node.
* `Retarget.TargetKind.nodeAt` — the node at the end of a way that the target writes.
* `Retarget.Entry` — a node, what its names stand for, its code and the pieces of that.
* `Retarget.TargetKind.Chart` — the entries and the stretches of all ways.

## Main results

* `Retarget.TargetKind.exists_layout` — one turn leads to an entry of its own.
* `Retarget.TargetKind.nonempty_chart` — the places of a node have a chart.
* `Retarget.TargetKind.exists_chart_compile` — the places of the lowered form of a source have a chart
  of the compiled code.
* `Retarget.TargetKind.occurs_iff` — the nodes at the ends of ways are those that occur.
-/

namespace Retarget

open Quoting

/-! ## Ways -/

/-- A node with the values of the names around it, each of which sees the names behind it. -/
structure Node where
  env : List (String × Ir)
  ir : Ir

/-- A turn from a node to a part of it, or from a name to the value that it stands for. -/
inductive Turn
  | argument (i : Nat)
  | test
  | yes
  | no
  | candidate (i : Nat)
  | inside
  | value (i : Nat)
  | body
  | use
deriving DecidableEq, Repr

/-- The value that a name stands for. -/
def valueOf : List (String × Ir) → String → Option Node
  | [], _ => none
  | (other, value) :: env, name => if name = other then some ⟨env, value⟩ else valueOf env name

namespace TargetKind

/-- The node that a turn leads to, unless the target does not write it. SQL writes the values of names
where the names are used. -/
def turn (kind : TargetKind) : Turn → Node → Option Node
  | .argument i, ⟨env, .call name args argTypes _⟩ =>
    if kind.drops name args argTypes i then none else args[i]?.map (⟨env, ·⟩)
  | .test, ⟨env, .cond test _ _ _⟩ => some ⟨env, test⟩
  | .yes, ⟨env, .cond _ yes _ ty⟩ => if kind.dropsBranch ty yes then none else some ⟨env, yes⟩
  | .no, ⟨env, .cond _ _ no ty⟩ => if kind.dropsBranch ty no then none else some ⟨env, no⟩
  | .candidate i, ⟨env, .alternative candidates ty⟩ =>
    (candidates[i]?.filter fun c => !kind.dropsBranch ty c).map (⟨env, ·⟩)
  | .inside, ⟨env, .lambda _ body _⟩ => some ⟨env, body⟩
  | .value i, ⟨env, .letIn bindings _ _⟩ =>
    if kind = .sql then none else bindings[i]?.map fun b => ⟨env, b.2⟩
  | .body, ⟨env, .letIn bindings body _⟩ =>
    some ⟨if kind = .sql then bindings.reverse ++ env else env, body⟩
  | .use, ⟨env, .var name _⟩ => valueOf env name
  | _, _ => none

/-- The node at the end of a way. -/
def nodeAt (kind : TargetKind) : List Turn → Node → Option Node
  | [], node => some node
  | turn :: way, node => (kind.turn turn node).bind (kind.nodeAt way)

section Ways

variable {kind : TargetKind} {way more : List Turn} {node next : Node}

/-- No turn leads to the node itself. -/
@[simp] lemma nodeAt_nil : kind.nodeAt [] node = some node := rfl

/-- The first turn of a way, and the rest of it. -/
lemma nodeAt_cons {turn : Turn} :
    kind.nodeAt (turn :: way) node = some next ↔
      ∃ part, kind.turn turn node = some part ∧ kind.nodeAt way part = some next :=
  Option.bind_eq_some_iff

/-- One way behind another. -/
lemma nodeAt_append : kind.nodeAt (way ++ more) node = some next ↔
    ∃ part, kind.nodeAt way node = some part ∧ kind.nodeAt more part = some next := by
  induction way generalizing node with
  | nil => simp
  | cons turn way ih =>
    simp only [List.cons_append, nodeAt_cons, ih]
    constructor
    · rintro ⟨part, hturn, middle, hway, hmore⟩
      exact ⟨middle, ⟨part, hturn, hway⟩, hmore⟩
    · rintro ⟨middle, ⟨part, hturn, hway⟩, hmore⟩
      exact ⟨part, hturn, middle, hway, hmore⟩

end Ways

/-! ## The nodes that occur -/

section Occurrences

variable {kind : TargetKind} {target : Ir}

/-- What occurs where a name stands for its value occurs at the name. -/
lemma Occurs.of_valueOf {env : List (String × Ir)} {name : String} {ty : Ty} {value : Node}
    (hvalue : valueOf env name = some value) (h : kind.Occurs target value.env value.ir) :
    kind.Occurs target env (.var name ty) := by
  induction env with
  | nil => cases hvalue
  | cons b env ih =>
    rw [valueOf] at hvalue
    split_ifs at hvalue with hname
    · cases hvalue
      subst hname
      exact .use h
    · exact .skip hname (ih hvalue)

/-- What occurs in SQL in the body of bindings occurs in the bindings. -/
lemma Occurs.of_body {env bindings : List (String × Ir)} {body : Ir} {ty : Ty}
    (h : TargetKind.sql.Occurs target (bindings.reverse ++ env) body) :
    TargetKind.sql.Occurs target env (.letIn bindings body ty) := by
  induction bindings generalizing env with
  | nil => exact .bound rfl h
  | cons b bindings ih => exact .bind rfl (ih (by simpa using h))

/-- A node at the end of a way occurs.

**Proof sketch.** By induction on the way, split on its first turn and on the node: a turn that
leads anywhere fits a single form, and each of these is a constructor of `Occurs`. -/
lemma occurs_of_nodeAt {way : List Turn} {node next : Node} (h : kind.nodeAt way node = some next) :
    kind.Occurs next.ir node.env node.ir := by
  induction way generalizing node with
  | nil =>
    cases h
    exact .here
  | cons turn way ih =>
    obtain ⟨part, hturn, hway⟩ := nodeAt_cons.mp h
    have hpart := ih hway
    obtain ⟨env, ir⟩ := node
    cases turn <;> cases ir <;> simp only [TargetKind.turn, reduceCtorEq] at hturn
    case argument.call i name args argTypes ty =>
      split_ifs at hturn with hdrops
      obtain ⟨a, ha, rfl⟩ := Option.map_eq_some_iff.mp hturn
      exact .arg ha (Bool.eq_false_iff.mpr hdrops) hpart
    case test.cond =>
      cases hturn
      exact .test hpart
    case yes.cond =>
      split_ifs at hturn with hdrops
      cases hturn
      exact .yes (Bool.eq_false_iff.mpr hdrops) hpart
    case no.cond =>
      split_ifs at hturn with hdrops
      cases hturn
      exact .no (Bool.eq_false_iff.mpr hdrops) hpart
    case candidate.alternative i candidates ty =>
      obtain ⟨c, hc, rfl⟩ := Option.map_eq_some_iff.mp hturn
      obtain ⟨hc, hdrops⟩ := Option.filter_eq_some_iff.mp hc
      exact .candidate (List.mem_of_getElem? hc) (by simpa using hdrops) hpart
    case inside.lambda =>
      cases hturn
      exact .inside hpart
    case value.letIn =>
      split_ifs at hturn with hkind
      obtain ⟨b, hb, rfl⟩ := Option.map_eq_some_iff.mp hturn
      exact .value hkind (List.mem_of_getElem? hb) hpart
    case body.letIn =>
      cases hturn
      split_ifs at hpart with hkind
      · subst hkind
        exact .of_body hpart
      · exact .body hkind hpart
    case use.var => exact .of_valueOf hturn hpart

/-- A way leads to every node that occurs. Bindings without the first ones of them are no part of the
lowered form, so that no way leads to these.

**Proof sketch.** By induction on how the node occurs. A constructor for a part puts a turn in front
of the way found for the part. In SQL `Occurs` passes one binding at a time and looks a name up one
entry at a time, where a way does both in one turn, so the first turn of the way found is taken off
and put back. -/
lemma exists_way_of_occurs {env : List (String × Ir)} {ir : Ir} (h : kind.Occurs target env ir)
    (hlet : ∀ bindings body ty, target ≠ .letIn bindings body ty) :
    ∃ way inner, kind.nodeAt way ⟨env, ir⟩ = some ⟨inner, target⟩ := by
  -- A way that starts with a turn to the part that the node occurs in.
  have hturn {env inner : List (String × Ir)} {ir part : Ir} (turn : Turn)
      (hpart : kind.turn turn ⟨env, ir⟩ = some ⟨inner, part⟩)
      (h : ∃ way innermost, kind.nodeAt way ⟨inner, part⟩ = some ⟨innermost, target⟩) :
      ∃ way innermost, kind.nodeAt way ⟨env, ir⟩ = some ⟨innermost, target⟩ := by
    obtain ⟨way, innermost, hway⟩ := h
    exact ⟨turn :: way, innermost, nodeAt_cons.mpr ⟨_, hpart, hway⟩⟩
  induction h with
  | here => exact ⟨[], _, rfl⟩
  | @arg _ _ _ _ _ i _ ha hdrops _ ih =>
    exact hturn (.argument i) (by simp [TargetKind.turn, hdrops, ha]) ih
  | test _ ih => exact hturn .test rfl ih
  | yes hdrops _ ih => exact hturn .yes (by simp [TargetKind.turn, hdrops]) ih
  | no hdrops _ ih => exact hturn .no (by simp [TargetKind.turn, hdrops]) ih
  | candidate hc hdrops _ ih =>
    obtain ⟨i, hi⟩ := List.getElem?_of_mem hc
    exact hturn (.candidate i) (by simp [TargetKind.turn, hi, hdrops]) ih
  | inside _ ih => exact hturn .inside rfl ih
  | value hkind hb _ ih =>
    obtain ⟨i, hi⟩ := List.getElem?_of_mem hb
    exact hturn (.value i) (by simp [TargetKind.turn, hkind, hi]) ih
  | body hkind _ ih => exact hturn .body (by simp [TargetKind.turn, hkind]) ih
  -- All bindings of a form are passed by the one turn `body`.
  | bind hkind _ ih =>
    subst hkind
    obtain ⟨way, inner, hway⟩ := ih
    cases way with
    | nil =>
      cases hway
      exact absurd rfl (hlet _ _ _)
    | cons turn way =>
      obtain ⟨part, hpart, hrest⟩ := nodeAt_cons.mp hway
      cases turn <;> simp [TargetKind.turn] at hpart
      subst hpart
      exact hturn .body (by simp [TargetKind.turn]) ⟨way, inner, hrest⟩
  | bound hkind _ ih => exact hturn .body (by simp [TargetKind.turn]) ih
  | use _ ih => exact hturn .use (by simp [TargetKind.turn, valueOf]) ih
  -- A lookup is the one turn `use`.
  | @skip env name other value ty hne _ ih =>
    obtain ⟨way, inner, hway⟩ := ih
    cases way with
    | nil =>
      cases hway
      exact ⟨[], _, rfl⟩
    | cons turn way =>
      obtain ⟨part, hpart, hrest⟩ := nodeAt_cons.mp hway
      cases turn <;> simp only [TargetKind.turn, reduceCtorEq] at hpart
      exact hturn .use (by simpa [TargetKind.turn, valueOf, hne] using hpart) ⟨way, inner, hrest⟩

/-- The nodes that occur are those at the ends of ways, but for bindings. -/
theorem occurs_iff {env : List (String × Ir)} {ir : Ir}
    (hlet : ∀ bindings body ty, target ≠ .letIn bindings body ty) :
    kind.Occurs target env ir ↔ ∃ way inner, kind.nodeAt way ⟨env, ir⟩ = some ⟨inner, target⟩ :=
  ⟨fun h => exists_way_of_occurs h hlet, fun ⟨_, _, h⟩ => occurs_of_nodeAt h⟩

end Occurrences

end TargetKind

/-! ## Layouts -/

/-- A node, what the names around it stand for, its code and the pieces of that. -/
structure Entry where
  node : Node
  names : Bindings
  fragment : Fragment
  pieces : List Quoting.Piece

/-- The target has written the node as the code of the entry. -/
structure Entry.Sound (kind : TargetKind) (s : Entry) : Prop where
  bound : kind.Bound s.node.env s.names
  lexical : s.node.ir.Lexical
  typed : s.node.ir.IsTyped
  written : (kind.target.fragment s.node.ir).Succeeds s.names s.fragment
  seals : kind.quoting.Seals s.pieces s.fragment.code

/-- A row of things, each with one of a row of others, as a function.

**Proof sketch.** By induction on the rows: the function for the rest is changed at the first thing,
which is not in the rest. -/
lemma exists_assignment {α β : Type} [DecidableEq α] [Nonempty β] {r : α → β → Prop}
    {apart : β → β → Prop} (symm : ∀ {b b'}, apart b b' → apart b' b) {as : List α}
    (hnodup : as.Nodup) {bs : List β} (h : List.Forall₂ r as bs) (hapart : bs.Pairwise apart) :
    ∃ f : α → β, (∀ a ∈ as, r a (f a) ∧ f a ∈ bs) ∧
      ∀ a ∈ as, ∀ a' ∈ as, a ≠ a' → apart (f a) (f a') := by
  induction h with
  | nil => exact ⟨fun _ => Classical.arbitrary β, by simp, by simp⟩
  | @cons a b as bs hfirst _ ih =>
    obtain ⟨hnew, hnodup⟩ := List.nodup_cons.mp hnodup
    obtain ⟨hb, hapart⟩ := List.pairwise_cons.mp hapart
    obtain ⟨f, hf, hfapart⟩ := ih hnodup hapart
    have hother {a' : α} (ha' : a' ∈ as) : Function.update f a b a' = f a' :=
      Function.update_of_ne (ne_of_mem_of_not_mem ha' hnew) b f
    refine ⟨Function.update f a b, List.forall_mem_cons.mpr ⟨?_, fun a' ha' => ?_⟩, ?_⟩
    · rw [Function.update_self]
      exact ⟨hfirst, List.mem_cons_self⟩
    · rw [hother ha']
      exact ⟨(hf a' ha').1, List.mem_cons_of_mem _ (hf a' ha').2⟩
    · refine List.forall_mem_cons.mpr ⟨List.forall_mem_cons.mpr ⟨fun h => absurd rfl h,
        fun a' ha' _ => ?_⟩, fun a' ha' => List.forall_mem_cons.mpr ⟨fun _ => ?_,
        fun a'' ha'' hne => ?_⟩⟩
      · rw [Function.update_self, hother ha']
        exact hb _ (hf a' ha').2
      · rw [Function.update_self, hother ha']
        exact symm (hb _ (hf a' ha').2)
      · rw [hother ha', hother ha'']
        exact hfapart a' ha' a'' ha'' hne

namespace TargetKind

/-- What each turn from an entry leads to: an entry, and the stretch of its code. -/
structure LaysOut (kind : TargetKind) (s : Entry) (layout : Turn → Entry × Stretch) : Prop where
  part {t : Turn} {next : Node} : kind.turn t s.node = some next →
    (layout t).1.Sound kind ∧ (layout t).1.node = next ∧ (layout t).2.row = s.pieces ∧
      (layout t).2.inside = (layout t).1.pieces
  apart {t t' : Turn} {next next' : Node} : kind.turn t s.node = some next →
    kind.turn t' s.node = some next' → t ≠ t' → (layout t).2.Apart (layout t').2

/-- The part that a turn leads to; the node itself, where it leads nowhere. -/
def partAt (kind : TargetKind) (node : Node) (t : Turn) : Ir :=
  ((kind.turn t node).map Node.ir).getD node.ir

section Layouts

variable {kind : TargetKind} {env : List (String × Ir)} {names : Bindings} {fragment : Fragment}
  {pieces : List Quoting.Piece}

/-- A construct that writes its parts lays them out.

**Proof sketch.** The stretches in which the codes of the parts stand are given to the turns
(`exists_assignment`), each turn its own. The entry of a turn has the code that stands in its
stretch, and the names of the whole. -/
lemma exists_layout_of_writes {s : Entry} (hs : s.Sound kind) (turns : List Turn)
    (hnodup : turns.Nodup)
    (hwrites : kind.quoting.Writes s.names
      (turns.map fun t => kind.target.operand (kind.partAt s.node t)) s.fragment.code)
    (hturns : ∀ t next, kind.turn t s.node = some next →
      t ∈ turns ∧ next.env = s.node.env ∧ next.ir ∈ s.node.ir.parts) :
    ∃ layout, kind.LaysOut s layout := by
  obtain ⟨-, ws, hws, stretches, hrows, hcodes, hapart⟩ := hwrites
  obtain rfl := hs.seals.unique kind.lawful hws
  have : Nonempty Stretch := ⟨.whole []⟩
  obtain ⟨stretch, hstretch, hstretchApart⟩ := exists_assignment Stretch.Apart.symm hnodup
    (List.forall₂_map_left_iff.mp hcodes) hapart
  have hentry (t : Turn) : ∃ entry : Entry, ∀ next, kind.turn t s.node = some next →
      entry.Sound kind ∧ entry.node = next ∧ (stretch t).inside = entry.pieces := by
    cases hturn : kind.turn t s.node with
    | none => exact ⟨s, nofun⟩
    | some next =>
      obtain ⟨hmem, henv, hpart⟩ := hturns t next hturn
      obtain ⟨⟨_, ⟨inner, hinner, rfl⟩, hseals⟩, -⟩ := hstretch t hmem
      have hsame : kind.partAt s.node t = next.ir := by rw [partAt, hturn]; rfl
      rw [hsame] at hinner
      refine ⟨⟨next, s.names, inner, (stretch t).inside⟩, fun next' hnext' => ?_⟩
      cases hnext'
      exact ⟨⟨henv ▸ hs.bound, hs.lexical.part hpart, hs.typed.part hpart, hinner, hseals⟩, rfl, rfl⟩
  choose entry hentry using hentry
  refine ⟨fun t => (entry t, stretch t), fun {t next} hturn => ?_, fun {t t' _ _} hturn hturn' hne =>
    hstretchApart t (hturns t _ hturn).1 t' (hturns t' _ hturn').1 hne⟩
  obtain ⟨hsound, hnode, hinside⟩ := hentry t next hturn
  exact ⟨hsound, hnode, hrows _ (hstretch t (hturns t next hturn).1).2, hinside⟩

/-- A call lays out the arguments that it does not drop.

**Proof sketch.** The turns are those to the arguments that are not dropped, in order. That their
codes stand in the code of the call is `writes_arguments`; that no other turn leads anywhere is read
off `turn`. -/
lemma exists_layout_call {name : String} {args : List Ir} {argTypes : List Ty} {ty : Ty}
    (hs : Entry.Sound kind ⟨⟨env, .call name args argTypes ty⟩, names, fragment, pieces⟩) :
    ∃ layout, kind.LaysOut ⟨⟨env, .call name args argTypes ty⟩, names, fragment, pieces⟩ layout := by
  have hlength : argTypes.length = args.length := by
    obtain ⟨scope, recovered, htyped⟩ := hs.typed
    cases htyped with
    | call => exact List.length_map _
  have hargs : ∀ a ∈ args, a.Lexical := by
    cases hs.lexical with
    | call hargs => exact hargs
  let places := (List.range args.length).filter fun i => !kind.drops name args argTypes i
  have hplaces {i : Nat} :
      i ∈ places ↔ i < args.length ∧ kind.drops name args argTypes i = false := by
    simp [places]
  have hwrites := writes_arguments hs.bound.sealsNames hargs hlength hs.written
    (List.nodup_range.filter _) fun i hi => hplaces.mp hi
  refine exists_layout_of_writes hs (places.map .argument)
    (List.Nodup.map (fun _ _ h => by cases h; rfl) (List.nodup_range.filter _)) ?_ ?_
  · rw [List.map_map]
    rw [List.map_congr_left fun i hi => ?_] at hwrites
    · exact hwrites
    · obtain ⟨hlt, hdrops⟩ := hplaces.mp hi
      have ha := List.getElem?_eq_getElem hlt
      rw [operand_getElem kind name argTypes ty ha]
      simp [partAt, turn, hdrops, ha]
  · intro t next hturn
    cases t <;> simp only [turn, reduceCtorEq] at hturn
    rename_i i
    split_ifs at hturn with hdrops
    obtain ⟨a, ha, rfl⟩ := Option.map_eq_some_iff.mp hturn
    obtain ⟨hlt, rfl⟩ := List.getElem?_eq_some_iff.mp ha
    refine ⟨List.mem_map_of_mem (hplaces.mpr ⟨hlt, Bool.eq_false_iff.mpr hdrops⟩), rfl, ?_⟩
    exact List.getElem_mem hlt

/-- A conditional lays out its condition and the branches that it does not drop.

**Proof sketch.** The turns are the one to the condition and those to the branches that are not
dropped, in the order in which `writes_cond` finds their codes. -/
lemma exists_layout_cond {test yes no : Ir} {ty : Ty}
    (hs : Entry.Sound kind ⟨⟨env, .cond test yes no ty⟩, names, fragment, pieces⟩) :
    ∃ layout, kind.LaysOut ⟨⟨env, .cond test yes no ty⟩, names, fragment, pieces⟩ layout := by
  obtain ⟨htest, hyes, hno⟩ : test.Lexical ∧ yes.Lexical ∧ no.Lexical := by
    cases hs.lexical with
    | cond htest hyes hno => exact ⟨htest, hyes, hno⟩
  have hwrites := writes_cond hs.bound.sealsNames htest hyes hno hs.written
  let turns : List Turn := .test :: ((if kind.dropsBranch ty yes then [] else [.yes]) ++
    if kind.dropsBranch ty no then [] else [.no])
  refine exists_layout_of_writes hs turns ?_ ?_ ?_
  · simp only [turns]
    split_ifs <;> decide
  · simp only [branch] at hwrites
    simp only [turns]
    split_ifs at hwrites ⊢ with hdropsYes hdropsNo hdropsNo <;>
      simpa [partAt, turn, hdropsYes, hdropsNo] using hwrites
  · intro t next hturn
    cases t <;> simp only [turn, reduceCtorEq] at hturn
    · cases hturn
      exact ⟨List.mem_cons_self, rfl, by simp [Ir.parts]⟩
    · split_ifs at hturn with hdrops
      cases hturn
      exact ⟨by simp [turns, hdrops], rfl, by simp [Ir.parts]⟩
    · split_ifs at hturn with hdrops
      cases hturn
      exact ⟨by simp [turns, hdrops], rfl, by simp [Ir.parts]⟩

/-- Some elements of a row, one by one, as those at some places. -/
lemma flatMap_eq_map_places {α β : Type} (row : List α) (p : α → Bool) (f : α → β) (g : Nat → β)
    (hg : ∀ i a, row[i]? = some a → p a = true → g i = f a) :
    row.flatMap (fun a => if p a then [f a] else []) =
      ((List.range row.length).filter fun i => row[i]?.any p).map g := by
  induction row generalizing g with
  | nil => rfl
  | cons a row ih =>
    have hrest := ih (g ∘ Nat.succ) fun i b hb => hg (i + 1) b (by simpa using hb)
    rw [List.flatMap_cons, hrest, List.length_cons, List.range_succ_eq_map, List.filter_cons,
      List.filter_map]
    by_cases ha : p a = true
    · simp only [List.getElem?_cons_zero, Option.any_some, ha, if_true, List.map_cons, List.map_map,
        hg 0 a rfl ha]
      rfl
    · simp only [List.getElem?_cons_zero, Option.any_some, ha, Bool.false_eq_true, if_false,
        List.map_map]
      rfl

/-- An alternative lays out the candidates that it does not drop.

**Proof sketch.** The turns are those to the candidates that are not dropped. The code writes the
row of branches (`writes_alternative`), which is a `flatMap` over the candidates, and
`flatMap_eq_map_places` lists it by places. -/
lemma exists_layout_alternative {candidates : List Ir} {ty : Ty}
    (hs : Entry.Sound kind ⟨⟨env, .alternative candidates ty⟩, names, fragment, pieces⟩) :
    ∃ layout, kind.LaysOut ⟨⟨env, .alternative candidates ty⟩, names, fragment, pieces⟩ layout := by
  have hcandidates : ∀ c ∈ candidates, c.Lexical := by
    cases hs.lexical with
    | alternative hcandidates => exact hcandidates
  have hwrites := writes_alternative hs.bound.sealsNames hcandidates hs.written
  let places := (List.range candidates.length).filter fun i =>
    candidates[i]?.any fun c => !kind.dropsBranch ty c
  have hbranch : kind.branch ty = fun c =>
      if !kind.dropsBranch ty c then [kind.target.operand c] else [] := by
    funext c
    cases hdrops : kind.dropsBranch ty c <;> simp [branch, hdrops]
  have hpart (i : Nat) (c : Ir) (hc : candidates[i]? = some c)
      (hdrops : (!kind.dropsBranch ty c) = true) :
      kind.target.operand (kind.partAt ⟨env, .alternative candidates ty⟩ (.candidate i)) =
        kind.target.operand c := by
    simp only [partAt, turn, hc, Option.filter_some, hdrops, if_true, Option.map_some,
      Option.getD_some]
  rw [hbranch, flatMap_eq_map_places candidates _ _ _ hpart] at hwrites
  refine exists_layout_of_writes hs (places.map .candidate)
    (List.Nodup.map (fun _ _ h => by cases h; rfl) (List.nodup_range.filter _)) ?_ ?_
  · rw [List.map_map]
    exact hwrites
  · intro t next hturn
    cases t <;> simp only [turn, reduceCtorEq] at hturn
    rename_i i
    obtain ⟨c, hc, rfl⟩ := Option.map_eq_some_iff.mp hturn
    obtain ⟨hc, hdrops⟩ := Option.filter_eq_some_iff.mp hc
    obtain ⟨hlt, rfl⟩ := List.getElem?_eq_some_iff.mp hc
    refine ⟨List.mem_map_of_mem (List.mem_filter.mpr ⟨List.mem_range.mpr hlt, ?_⟩), rfl,
      List.getElem_mem hlt⟩
    rw [hc]
    exact hdrops

/-- A function lays out its body. -/
lemma exists_layout_lambda {params : List String} {body : Ir} {ty : Ty}
    (hs : Entry.Sound kind ⟨⟨env, .lambda params body ty⟩, names, fragment, pieces⟩) :
    ∃ layout, kind.LaysOut ⟨⟨env, .lambda params body ty⟩, names, fragment, pieces⟩ layout := by
  obtain ⟨hparams, hbody⟩ : (∀ p ∈ params, IsIdentifier p) ∧ body.Lexical := by
    cases hs.lexical with
    | lambda hparams hbody => exact ⟨hparams, hbody⟩
  have hwrites := writes_lambda hs.bound.sealsNames hparams hbody hs.written
  refine exists_layout_of_writes hs [.inside] (List.nodup_singleton _) hwrites
    fun t next hturn => ?_
  cases t <;> simp only [turn, reduceCtorEq] at hturn
  cases hturn
  exact ⟨List.mem_singleton_self _, rfl, List.mem_singleton_self _⟩

/-- Bindings that are functions lay out their values and their body.

**Proof sketch.** The turns are those to the values of the bindings and the one to the body, whose
codes `writes_let` finds in the code. -/
lemma exists_layout_let (hkind : kind ≠ .sql) {bindings : List (String × Ir)} {body : Ir} {ty : Ty}
    (hs : Entry.Sound kind ⟨⟨env, .letIn bindings body ty⟩, names, fragment, pieces⟩) :
    ∃ layout, kind.LaysOut ⟨⟨env, .letIn bindings body ty⟩, names, fragment, pieces⟩ layout := by
  obtain ⟨hidentifiers, hvalues, hbody⟩ : (∀ b ∈ bindings, IsIdentifier b.1) ∧
      (∀ b ∈ bindings, b.2.Lexical) ∧ body.Lexical := by
    cases hs.lexical with
    | letIn hidentifiers hvalues hbody => exact ⟨hidentifiers, hvalues, hbody⟩
  have hwrites := writes_let hkind hs.bound.sealsNames hidentifiers hvalues hbody hs.written
  let turns : List Turn := (List.range bindings.length).map .value ++ [.body]
  have hturns : (turns.map fun t => kind.target.operand
      (kind.partAt ⟨env, .letIn bindings body ty⟩ t)) =
        bindings.map (fun b => kind.target.operand b.2) ++ [kind.target.operand body] := by
    simp only [turns, List.map_append, List.map_map, List.map_singleton]
    congr 1
    · refine List.ext_getElem (by simp) fun i h h' => ?_
      have hlt : i < bindings.length := by simpa using h'
      simp [partAt, turn, hkind, List.getElem?_eq_getElem hlt]
  refine exists_layout_of_writes hs turns ?_ (hturns ▸ hwrites) ?_
  · refine List.nodup_append.mpr ⟨List.Nodup.map (fun _ _ h => by cases h; rfl) List.nodup_range,
      List.nodup_singleton _, ?_⟩
    simp
  · intro t next hturn
    cases t <;> simp only [turn, reduceCtorEq] at hturn
    · rw [if_neg hkind] at hturn
      obtain ⟨b, hb, rfl⟩ := Option.map_eq_some_iff.mp hturn
      obtain ⟨hlt, rfl⟩ := List.getElem?_eq_some_iff.mp hb
      refine ⟨List.mem_append_left _ (List.mem_map_of_mem (List.mem_range.mpr hlt)), rfl, ?_⟩
      exact List.mem_append_left _ (List.mem_map_of_mem (List.getElem_mem hlt))
    · cases hturn
      refine ⟨List.mem_append_right _ (List.mem_singleton_self _), by rw [if_neg hkind], ?_⟩
      exact List.mem_append_right _ (List.mem_singleton_self _)

/-- SQL writes the body of bindings where the names stand for the codes of their values. -/
lemma exists_names_of_let {bindings : List (String × Ir)} {body : Ir} {ty : Ty}
    (hbound : TargetKind.sql.Bound env names)
    (hvalues : ∀ b ∈ bindings, b.2.Lexical ∧ b.2.IsTyped)
    (h : (TargetKind.sql.target.fragment (.letIn bindings body ty)).Succeeds names fragment) :
    ∃ names', TargetKind.sql.Bound (bindings.reverse ++ env) names' ∧
      (TargetKind.sql.target.fragment body).Succeeds names' fragment := by
  induction bindings generalizing env names with
  | nil => exact ⟨names, hbound, h⟩
  | cons b bindings ih =>
    obtain ⟨⟨hlexical, htyped⟩, hmore⟩ := List.forall_mem_cons.mp hvalues
    obtain ⟨inner, hinner, hrest⟩ := exists_of_bind h
    obtain ⟨names', hbound', hbody⟩ := ih (.cons rfl hbound hlexical htyped hinner) hmore hrest
    exact ⟨names', by simpa using hbound', hbody⟩

/-- In SQL bindings lay out their body, in which their names are bound. -/
lemma exists_layout_bind {bindings : List (String × Ir)} {body : Ir} {ty : Ty}
    (hs : Entry.Sound .sql ⟨⟨env, .letIn bindings body ty⟩, names, fragment, pieces⟩) :
    ∃ layout, TargetKind.sql.LaysOut ⟨⟨env, .letIn bindings body ty⟩, names, fragment, pieces⟩
      layout := by
  have hparts {part : Ir} (hpart : part ∈ (Ir.letIn bindings body ty).parts) :
      part.Lexical ∧ part.IsTyped := ⟨hs.lexical.part hpart, hs.typed.part hpart⟩
  obtain ⟨names', hbound, hbody⟩ := exists_names_of_let hs.bound (fun b hb => hparts
    (List.mem_append_left _ (List.mem_map_of_mem hb))) hs.written
  obtain ⟨hlexical, htyped⟩ := hparts (List.mem_append_right _ (List.mem_singleton_self body))
  refine ⟨fun _ => (⟨⟨bindings.reverse ++ env, body⟩, names', fragment, pieces⟩, .whole pieces),
    fun {t next} hturn => ?_, fun {t t' _ _} hturn hturn' hne => ?_⟩
  · cases t <;> simp only [turn, reduceCtorEq, if_true] at hturn
    cases hturn
    exact ⟨⟨hbound, hlexical, htyped, hbody, hs.seals⟩, rfl, Stretch.row_whole _, rfl⟩
  · cases t <;> cases t' <;> simp [turn] at hturn hturn' hne

/-- The code of a bound name is that of its value, which shows in it. -/
lemma exists_names_of_valueOf {name : String} {ty : Ty} {value : Node}
    (hbound : kind.Bound env names) (hvalue : valueOf env name = some value)
    (h : (kind.target.fragment (.var name ty)).Succeeds names fragment) :
    ∃ names', kind.Bound value.env names' ∧ value.ir.Lexical ∧ value.ir.IsTyped ∧
      kind.quoting.Writes names' [kind.target.operand value.ir] fragment.code := by
  induction hbound with
  | nil => cases hvalue
  | @cons env names other _ inner hkind hrest hlexical htyped hinner ih =>
    rw [valueOf] at hvalue
    rw [fragment_var, List.lookup_cons] at h
    split_ifs at hvalue with hname
    · cases hvalue
      subst hkind hname
      rw [beq_self_eq_true, Option.getD_some] at h
      subst h
      refine ⟨names, hrest, hlexical, htyped, Sql.writes_substituted _ ?_⟩
      exact (sound_operand hrest.sealsNames hlexical).writes hinner
    · rw [beq_false_of_ne hname] at h
      exact ih hvalue (fragment_var.mpr h)

/-- A name lays out the value that it stands for, if there is one.

**Proof sketch.** Without a value no turn leads anywhere. With one, the turn `use` is the only one,
and the code of the value stands in that of the name (`exists_names_of_valueOf`). -/
lemma exists_layout_var {name : String} {ty : Ty}
    (hs : Entry.Sound kind ⟨⟨env, .var name ty⟩, names, fragment, pieces⟩) :
    ∃ layout, kind.LaysOut ⟨⟨env, .var name ty⟩, names, fragment, pieces⟩ layout := by
  have hone {t : Turn} {next : Node} (hturn : kind.turn t ⟨env, .var name ty⟩ = some next) :
      t = .use ∧ valueOf env name = some next := by
    cases t <;> simp only [turn, reduceCtorEq] at hturn
    exact ⟨rfl, hturn⟩
  cases hvalue : valueOf env name with
  | none =>
    refine ⟨fun _ => (⟨⟨env, .var name ty⟩, names, fragment, pieces⟩, .whole pieces),
      fun {t next} hturn => ?_, fun {t t' next next'} hturn => ?_⟩ <;>
    · rw [(hone hturn).2] at hvalue
      cases hvalue
  | some value =>
    obtain ⟨names', hbound, hlexical, htyped, -, ws, hws, hholds⟩ :=
      exists_names_of_valueOf hs.bound hvalue hs.written
    obtain rfl := hs.seals.unique kind.lawful hws
    obtain ⟨stretches, hrows, hcodes, -⟩ := hholds
    cases hcodes with
    | @cons _ stretch _ _ hstretch hnil =>
      cases hnil
      obtain ⟨_, ⟨inner, hinner, rfl⟩, hseals⟩ := hstretch
      refine ⟨fun _ => (⟨value, names', inner, stretch.inside⟩, stretch), fun {t next} hturn => ?_,
        fun {t t' _ _} hturn hturn' hne => ?_⟩
      · obtain rfl := Option.some.inj (hvalue.symm.trans (hone hturn).2)
        exact ⟨⟨hbound, hlexical, htyped, hinner, hseals⟩, rfl, hrows _ List.mem_cons_self, rfl⟩
      · exact absurd ((hone hturn).1.trans (hone hturn').1.symm) hne

/-- The code of a node lays out the codes of the parts that turns lead to: each has a stretch of its
own. -/
theorem exists_layout {s : Entry} (hs : s.Sound kind) : ∃ layout, kind.LaysOut s layout := by
  obtain ⟨⟨env, ir⟩, names, fragment, pieces⟩ := s
  cases ir with
  | literal value ty =>
    have hnone (t : Turn) (next : Node) : kind.turn t ⟨env, .literal value ty⟩ ≠ some next := by
      cases t <;> simp [turn]
    exact ⟨fun _ => (⟨⟨env, .literal value ty⟩, names, fragment, pieces⟩, .whole pieces),
      fun hturn => absurd hturn (hnone _ _), fun hturn => absurd hturn (hnone _ _)⟩
  | var => exact exists_layout_var hs
  | letIn =>
    by_cases hkind : kind = .sql
    · subst hkind
      exact exists_layout_bind hs
    · exact exists_layout_let hkind hs
  | lambda => exact exists_layout_lambda hs
  | cond => exact exists_layout_cond hs
  | alternative => exact exists_layout_alternative hs
  | call => exact exists_layout_call hs

end Layouts

/-! ## Charts -/

/-- The entry at the end of a way and the stretch of its code, step by step. -/
def trace (layout : Entry → Turn → Entry × Stretch) : List Turn → Entry → Entry × Stretch
  | [], s => (s, .whole s.pieces)
  | t :: way, s =>
    let (part, outer) := layout s t
    let (last, inner) := trace layout way part
    (last, outer.comp inner)

/-- The entries at the ends of all ways from a node, and the stretches of their codes in a row of pieces.
The stretches of two ways are apart, unless one of the ways leads on from the end of the other. -/
structure Chart (kind : TargetKind) (top : Node) (ws : List Quoting.Piece) where
  entry : List Turn → Entry
  stretch : List Turn → Stretch
  sound {way : List Turn} {node : Node} : kind.nodeAt way top = some node →
    (entry way).Sound kind ∧ (entry way).node = node
  row {way : List Turn} {node : Node} : kind.nodeAt way top = some node →
    (stretch way).row = ws ∧ (stretch way).inside = (entry way).pieces
  within {way more : List Turn} {node : Node} : kind.nodeAt (way ++ more) top = some node →
    ∃ inner : Stretch, inner.row = (stretch way).inside ∧
      stretch (way ++ more) = (stretch way).comp inner
  apart {way way' : List Turn} {node node' : Node} : kind.nodeAt way top = some node →
    kind.nodeAt way' top = some node' → ¬ way <+: way' → ¬ way' <+: way →
    (stretch way).Apart (stretch way')

section Charts

variable {kind : TargetKind} {layout : Entry → Turn → Entry × Stretch} {s : Entry}
  {way way' more : List Turn} {node node' : Node}

/-- The end of a way is a sound entry, whose pieces are a stretch. -/
lemma trace_sound (hlayout : ∀ s : Entry, s.Sound kind → kind.LaysOut s (layout s))
    (hs : s.Sound kind) (h : kind.nodeAt way s.node = some node) :
    (trace layout way s).1.Sound kind ∧ (trace layout way s).1.node = node ∧
      (trace layout way s).2.row = s.pieces ∧
      (trace layout way s).2.inside = (trace layout way s).1.pieces := by
  induction way generalizing s with
  | nil =>
    cases h
    exact ⟨hs, rfl, Stretch.row_whole _, rfl⟩
  | cons t way ih =>
    obtain ⟨part, hturn, hway⟩ := nodeAt_cons.mp h
    obtain ⟨hsound, rfl, hrow, hinside⟩ := (hlayout s hs).part hturn
    obtain ⟨hlast, hnode, hinner, hpieces⟩ := ih hsound hway
    exact ⟨hlast, hnode, (Stretch.row_comp (hinner.trans hinside.symm)).trans hrow, hpieces⟩

/-- What leads on from the end of a way. -/
lemma trace_append (layout : Entry → Turn → Entry × Stretch) (s : Entry) (way more : List Turn) :
    (trace layout (way ++ more) s).2 =
      (trace layout way s).2.comp (trace layout more (trace layout way s).1).2 := by
  induction way generalizing s with
  | nil => simp [trace]
  | cons t way ih => simp [trace, ih, Stretch.comp_assoc]

/-- Ways that part lead to stretches that are apart.

**Proof sketch.** By induction on the first way. Where both ways take the same turn the claim is one
for the rest, seen from the part it leads to. Where their turns differ the layout keeps the two
parts apart, and what lies within them is apart too. -/
lemma trace_apart (hlayout : ∀ s : Entry, s.Sound kind → kind.LaysOut s (layout s))
    (hs : s.Sound kind) (h : kind.nodeAt way s.node = some node)
    (h' : kind.nodeAt way' s.node = some node') (hway : ¬ way <+: way') (hway' : ¬ way' <+: way) :
    (trace layout way s).2.Apart (trace layout way' s).2 := by
  induction way generalizing s way' with
  | nil => exact absurd List.nil_prefix hway
  | cons t way ih =>
    cases way' with
    | nil => exact absurd List.nil_prefix hway'
    | cons t' way' =>
      obtain ⟨part, hturn, hrest⟩ := nodeAt_cons.mp h
      obtain ⟨part', hturn', hrest'⟩ := nodeAt_cons.mp h'
      obtain ⟨hsound, rfl, -, hinside⟩ := (hlayout s hs).part hturn
      by_cases ht : t = t'
      · subst ht
        cases hturn.symm.trans hturn'
        rw [List.cons_prefix_cons, and_iff_right rfl] at hway hway'
        exact (ih hsound hrest hrest' hway hway').comp_left _
      · obtain ⟨hsound', rfl, -, hinside'⟩ := (hlayout s hs).part hturn'
        refine ((hlayout s hs).apart hturn hturn' ht).comp ?_ ?_
        · exact (trace_sound hlayout hsound hrest).2.2.1.trans hinside.symm
        · exact (trace_sound hlayout hsound' hrest').2.2.1.trans hinside'.symm

/-- The ways from a sound entry have a chart.

**Proof sketch.** A layout is chosen for every sound entry, and the entry and the stretch of a way
are found by following the chosen layouts turn by turn (`trace`). Soundness and apartness of what is
found are `trace_sound` and `trace_apart`. -/
theorem nonempty_chart (hs : s.Sound kind) : Nonempty (kind.Chart s.node s.pieces) := by
  have hall (s : Entry) : ∃ layout : Turn → Entry × Stretch, s.Sound kind → kind.LaysOut s layout := by
    by_cases h : s.Sound kind
    · obtain ⟨layout, hlayout⟩ := exists_layout h
      exact ⟨layout, fun _ => hlayout⟩
    · exact ⟨fun _ => (s, .whole s.pieces), fun h' => absurd h' h⟩
  choose layout hlayout using hall
  exact ⟨{
    entry := fun way => (trace layout way s).1
    stretch := fun way => (trace layout way s).2
    sound := fun h =>
      have htrace := trace_sound hlayout hs h
      ⟨htrace.1, htrace.2.1⟩
    row := fun h => (trace_sound hlayout hs h).2.2
    within := fun {way more node} h => by
      obtain ⟨middle, hway, hmore⟩ := nodeAt_append.mp h
      obtain ⟨hsound, rfl, -, hinside⟩ := trace_sound hlayout hs hway
      refine ⟨_, ?_, trace_append layout s way more⟩
      exact (trace_sound hlayout hsound hmore).2.2.1.trans hinside.symm
    apart := fun h h' => trace_apart hlayout hs h h' }⟩

/-- A chart of a stretch is a chart of the whole row. -/
def Chart.shift {top : Node} (outer : Stretch) (c : kind.Chart top outer.inside) :
    kind.Chart top outer.row where
  entry := c.entry
  stretch way := outer.comp (c.stretch way)
  sound := c.sound
  row h := ⟨Stretch.row_comp (c.row h).1, (c.row h).2⟩
  within h := by
    obtain ⟨inner, hrow, heq⟩ := c.within h
    exact ⟨inner, hrow, by rw [heq, Stretch.comp_assoc]⟩
  apart h h' hway hway' := (c.apart h h' hway hway').comp_left outer

/-- Of two ways to codes that start at the same place one leads on from the end of the other. -/
lemma Chart.comparable {top : Node} {ws : List Quoting.Piece} (c : kind.Chart top ws)
    (h : kind.nodeAt way top = some node) (h' : kind.nodeAt way' top = some node')
    (hcode : (c.entry way).pieces ≠ []) (hcode' : (c.entry way').pieces ≠ [])
    (hbefore : (c.stretch way).before = (c.stretch way').before) :
    way <+: way' ∨ way' <+: way := by
  by_contra hpart
  obtain ⟨hway, hway'⟩ := not_or.mp hpart
  have hpositive := List.length_pos_of_ne_nil hcode
  have hpositive' := List.length_pos_of_ne_nil hcode'
  have hapart := c.apart h h' hway hway'
  rw [← (c.row h).2] at hpositive
  rw [← (c.row h').2] at hpositive'
  rw [Stretch.Apart, hbefore] at hapart
  omega

/-- A way that leads on to the same stretch passes through nodes with the same code only. -/
lemma Chart.pieces_eq {top : Node} {ws : List Quoting.Piece} (c : kind.Chart top ws)
    {early late : List Turn} (h : kind.nodeAt (way ++ early ++ late) top = some node)
    (hbefore : (c.stretch (way ++ early ++ late)).before = (c.stretch way).before)
    (hafter : (c.stretch (way ++ early ++ late)).after = (c.stretch way).after) :
    (c.entry (way ++ early)).pieces = (c.entry way).pieces := by
  obtain ⟨middle, hmiddle, -⟩ := nodeAt_append.mp h
  obtain ⟨first, hfirst, -⟩ := nodeAt_append.mp hmiddle
  obtain ⟨inner, hrow, hinner⟩ := c.within hmiddle
  obtain ⟨innermost, -, hinnermost⟩ := c.within h
  rw [hinnermost, hinner] at hbefore hafter
  simp only [Stretch.comp, List.append_assoc, List.append_right_eq_self] at hbefore
  simp only [Stretch.comp, ← List.append_assoc, List.append_left_eq_self] at hafter
  rw [← (c.row hmiddle).2, ← (c.row hfirst).2, hinner, ← hrow]
  simp only [List.append_eq_nil_iff] at hbefore hafter
  simp [Stretch.comp, Stretch.row, hbefore.1, hafter.2]

/-- The code of the node at the end of a way splits the code of the chart. -/
lemma Chart.splits {top : Node} {ws : List Quoting.Piece} (c : kind.Chart top ws) {code : String}
    (hws : kind.quoting.Seals ws code) (h : kind.nodeAt way top = some node) :
    kind.quoting.Splits (kind.quoting.spelled (c.stretch way).before) (c.entry way).fragment.code
      (kind.quoting.spelled (c.stretch way).after) code := by
  obtain ⟨hrow, hinside⟩ := c.row h
  have hseals := (c.sound h).1.seals
  rw [← hinside] at hseals
  rw [← hrow] at hws
  exact Stretch.splits kind.lawful hws hseals

/-- Stretches with the same text around them have the same pieces around them. -/
lemma Chart.eq_of_spelled_eq {top : Node} {ws : List Quoting.Piece} (c : kind.Chart top ws)
    {code : String} (hws : kind.quoting.Seals ws code) (h : kind.nodeAt way top = some node)
    (h' : kind.nodeAt way' top = some node') :
    (kind.quoting.spelled (c.stretch way).before = kind.quoting.spelled (c.stretch way').before →
      (c.stretch way).before = (c.stretch way').before) ∧
    (kind.quoting.spelled (c.stretch way).after = kind.quoting.spelled (c.stretch way').after →
      (c.stretch way).after = (c.stretch way').after) := by
  have hrow : kind.quoting.Seals (c.stretch way).row code := by rwa [(c.row h).1]
  have hrow' : kind.quoting.Seals (c.stretch way').row code := by rwa [(c.row h').1]
  obtain ⟨hbefore, hafter⟩ := Stretch.pieces?_spelled kind.lawful hrow
  obtain ⟨hbefore', hafter'⟩ := Stretch.pieces?_spelled kind.lawful hrow'
  refine ⟨fun heq => ?_, fun heq => ?_⟩
  · rw [heq] at hbefore
    exact Option.some.inj (hbefore.symm.trans hbefore')
  · rw [heq] at hafter
    exact Option.some.inj (hafter.symm.trans hafter')

end Charts

/-! ## Compiled code -/

section Compiled

variable {source : String} {kind : TargetKind} {form : OutputForm} {ir : Ir} {out : Compiled}

/-- The places of the lowered form of a source have a chart of the compiled code. -/
theorem exists_chart_compile (hsource : lowerSource source = .ok ir)
    (hcompile : compile source kind form = .ok out) :
    ∃ ws, kind.quoting.Seals ws out.code ∧ Nonempty (kind.Chart ⟨[], ir⟩ ws) := by
  obtain ⟨fragment, hfragment, ps, ws, hps, hws, before, after, rfl⟩ :=
    exists_within_of_compile hsource hcompile
  have hsound : Entry.Sound kind ⟨⟨[], ir⟩, [], fragment, ps⟩ :=
    ⟨.nil, lexical_of_lowerSource hsource, isTyped_of_lowerSource hsource, hfragment, hps⟩
  obtain ⟨chart⟩ := nonempty_chart hsound
  exact ⟨_, hws, ⟨Chart.shift ⟨before, ps, after⟩ chart⟩⟩

/-- The code of a node that a way leads to stands in the compiled code. -/
theorem shows_compile (hsource : lowerSource source = .ok ir)
    (hcompile : compile source kind form = .ok out) {way : List Turn} {node : Node}
    (h : kind.nodeAt way ⟨[], ir⟩ = some node) :
    ∃ names, kind.Bound node.env names ∧ node.ir.Lexical ∧ node.ir.IsTyped ∧
      kind.Shows names node.ir out.code := by
  obtain ⟨_, hws, ⟨chart⟩⟩ := exists_chart_compile hsource hcompile
  obtain ⟨hsound, rfl⟩ := chart.sound h
  obtain ⟨hrow, hinside⟩ := chart.row h
  have hwithin : kind.quoting.Within (chart.entry way).fragment.code out.code :=
    ⟨_, _, hsound.seals, hws, (chart.stretch way).before, (chart.stretch way).after,
      hinside ▸ hrow⟩
  exact ⟨_, hsound.bound, hsound.lexical, hsound.typed, _, hsound.written, hwithin⟩

end Compiled

end TargetKind

end Retarget
