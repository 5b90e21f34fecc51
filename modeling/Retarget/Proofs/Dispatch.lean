import Retarget.Proofs.Masks
import Mathlib.Data.List.Forall2
import Mathlib.Data.List.Induction
import Mathlib.Tactic.Common

set_option autoImplicit false

/-!
# Dispatch takes the most specific signature

A registry is the outcome of a history of definitions. A call looks at the signatures that cover its
tags, in an order that puts the more specific one first, and takes the latest form of the first of
them that the history defines.

## Main definitions

* `Retarget.MoreSpecific` — the order of the signatures that cover the same tags.
* `Retarget.Registry.ofHistory` — the registry that a history of definitions leaves behind.
* `Retarget.Resolves` — what a history of definitions makes of a call.

## Main results

* `Retarget.mem_generalizations`, `Retarget.pairwise_generalizations` — the signatures that a call
  looks at, and their order.
* `Retarget.lookup_ofHistory` — a lookup finds what the history makes of the call, and depends on
  nothing but the last definition of each key.
-/

namespace Retarget

/-! ## The order of signatures -/

/-- The order of the signatures that cover the tags: fewer widened positions first, and among equally
many the signature that keeps the leftmost positions. -/
def MoreSpecific (tags a b : List Tag) : Prop :=
  widened tags a < widened tags b ∨ widened tags a = widened tags b ∧ KeepsLeftmost a b

/-- The signatures that a call with the given tags looks at: all those that cover the tags, and for
calls of many arguments only the tags themselves and the signature that is `any` throughout. -/
def Candidate (tags signature : List Tag) : Prop :=
  Covers signature tags ∧
    (widestStepwise < tags.length →
      signature = tags ∨ signature = List.replicate tags.length .any)

/-- The order of signatures goes one way. -/
lemma MoreSpecific.asymm {tags a b : List Tag} (h : MoreSpecific tags a b) :
    ¬ MoreSpecific tags b a := by
  rintro (h' | ⟨h', hk'⟩) <;> rcases h with h | ⟨h, hk⟩
  · omega
  · omega
  · omega
  · exact hk.asymm hk'

/-! ## The signatures that a call looks at -/

/-- The signature that is `any` throughout covers every row of tags of its length. -/
lemma covers_allAny (tags : List Tag) : Covers (List.replicate tags.length .any) tags := by
  induction tags with
  | nil => exact .nil
  | cons t ts ih => exact .cons (.inr rfl) ih

/-- A call looks at its own tags and their generalizations.

**Proof sketch.** Long rows of tags have one generalization, `any` throughout. For others the lists
of widenings hold each signature that covers the tags under the number of positions that it widens,
and only the tags themselves widen none. -/
lemma mem_generalizations {tags signature : List Tag} :
    signature ∈ tags :: generalizations tags ↔ Candidate tags signature := by
  rw [generalizations_eq, Candidate]
  by_cases hlong : widestStepwise < tags.length
  · simp only [hlong, ↓reduceIte, forall_const]
    constructor
    · intro h
      rcases List.mem_cons.mp h with rfl | h
      · exact ⟨covers_self _, .inl rfl⟩
      · split_ifs at h
        · cases h
        · obtain rfl := List.mem_singleton.mp h
          exact ⟨covers_allAny tags, .inr rfl⟩
    · rintro ⟨-, rfl | rfl⟩
      · exact List.mem_cons_self
      · split_ifs with hany
        · exact List.mem_singleton.mpr hany.symm
        · exact List.mem_cons_of_mem _ (List.mem_singleton.mpr rfl)
  · simp only [hlong, ↓reduceIte, List.mem_cons, List.mem_flatMap, List.mem_range, mem_widenings,
      false_implies, and_true]
    constructor
    · rintro (rfl | ⟨n, -, h, -⟩)
      · exact covers_self _
      · exact h
    · intro h
      have hle := widened_le_length tags signature
      cases hcount : widened tags signature with
      | zero => exact .inl (eq_of_widened_eq_zero h hcount)
      | succ n => exact .inr ⟨n, by omega, h, rfl⟩

/-- A call looks at the more specific signature first.

**Proof sketch.** The call itself widens no position and comes first. The rounds follow by the
number of widened positions, and within a round `pairwise_widenings` compares. -/
lemma pairwise_generalizations (tags : List Tag) :
    (tags :: generalizations tags).Pairwise (MoreSpecific tags) := by
  rw [generalizations_eq]
  split_ifs with hlong hany
  · exact List.pairwise_singleton _ _
  · refine List.pairwise_pair.mpr (.inl ?_)
    rw [widened_self]
    refine Nat.pos_of_ne_zero fun hzero => hany ?_
    exact (eq_of_widened_eq_zero (covers_allAny tags) hzero).symm
  · refine List.pairwise_cons.mpr ⟨?_, ?_⟩
    · intro signature h
      obtain ⟨n, -, h⟩ := List.mem_flatMap.mp h
      exact .inl (by rw [widened_self, (mem_widenings.mp h).2]; exact Nat.succ_pos n)
    · refine List.pairwise_flatMap.mpr ⟨fun n _ => ?_, ?_⟩
      · refine (pairwise_widenings (n + 1) tags).imp_of_mem fun ha hb h => .inr ⟨?_, h⟩
        rw [(mem_widenings.mp ha).2, (mem_widenings.mp hb).2]
      · refine List.pairwise_lt_range.imp fun hlt a ha b hb => .inl ?_
        rw [(mem_widenings.mp ha).2, (mem_widenings.mp hb).2]
        omega

/-! ## Histories -/

/-- What a definition is for. A later definition of a key takes the place of an earlier one. -/
inductive Key
  | signature (name : String) (signature : List Tag)
  | variadic (name : String)
  | fallback
deriving DecidableEq, Repr

/-- One definition of a form in a registry. -/
inductive Definition (ε : Type)
  | signature (name : String) (signature : List Tag) (form : ε)
  | variadic (name : String) (least : Nat) (form : ε)
  | fallback (form : ε)
deriving Repr

section Histories

variable {ε : Type}

/-- What the definition is for. -/
def Definition.key : Definition ε → Key
  | .signature name tags _ => .signature name tags
  | .variadic name _ _ => .variadic name
  | .fallback _ => .fallback

/-- The registry with one more definition. -/
def Registry.record (r : Registry ε) : Definition ε → Registry ε
  | .signature name signature form => r.define name signature form
  | .variadic name least form => r.defineVariadic name least form
  | .fallback form => r.defineFallback form

/-- The registry that a history of definitions, from first to last, leaves behind. -/
def Registry.ofHistory (history : List (Definition ε)) : Registry ε :=
  history.foldl Registry.record Registry.empty

/-- The last definition of a key in a history. -/
def latest? (history : List (Definition ε)) (key : Key) : Option (Definition ε) :=
  history.reverse.find? (·.key = key)

/-- One more definition is the last of its key and leaves the other keys alone. -/
lemma latest?_append (history : List (Definition ε)) (d : Definition ε) (key : Key) :
    latest? (history ++ [d]) key = if d.key = key then some d else latest? history key := by
  by_cases h : d.key = key <;> simp [latest?, h]

/-- The last definition of a key is a definition of it. -/
lemma key_of_latest? {history : List (Definition ε)} {key : Key} {d : Definition ε}
    (h : latest? history key = some d) : d.key = key := by
  simpa using List.find?_some h

/-- A history with one more definition leaves the registry with one more definition. -/
lemma Registry.ofHistory_append (history : List (Definition ε)) (d : Definition ε) :
    Registry.ofHistory (history ++ [d]) = (Registry.ofHistory history).record d := by
  simp [Registry.ofHistory]

/-- The form of a signature is that of its last definition. -/
lemma form?_ofHistory (history : List (Definition ε)) (name : String) (signature : List Tag)
    (form : ε) : (Registry.ofHistory history).form? name signature = some form ↔
      latest? history (.signature name signature) = some (.signature name signature form) := by
  induction history using List.reverseRecOn with
  | nil => simp [Registry.ofHistory, Registry.empty, Registry.form?, latest?]
  | append_singleton history d ih =>
    rw [Registry.ofHistory_append, latest?_append]
    cases d with
    | signature name' signature' form' =>
      by_cases h : name' = name ∧ signature' = signature
      · obtain ⟨rfl, rfl⟩ := h
        simp [Registry.record, Registry.define, Registry.form?, Definition.key]
      · have hkey : ¬ (name = name' ∧ signature = signature') := fun h' => h ⟨h'.1.symm, h'.2.symm⟩
        simpa [Registry.record, Registry.define, Registry.form?, Definition.key, h, hkey,
          List.lookup_cons, beq_eq_decide] using ih
    | variadic name' least' form' =>
      simpa [Registry.record, Registry.defineVariadic, Definition.key, Registry.form?] using ih
    | fallback form' =>
      simpa [Registry.record, Registry.defineFallback, Definition.key, Registry.form?] using ih

/-- The variadic entry of a name is its last definition. -/
lemma variadics_ofHistory (history : List (Definition ε)) (name : String) (least : Nat) (form : ε) :
    (Registry.ofHistory history).variadics.lookup name = some (least, form) ↔
      latest? history (.variadic name) = some (.variadic name least form) := by
  induction history using List.reverseRecOn with
  | nil => simp [Registry.ofHistory, Registry.empty, latest?]
  | append_singleton history d ih =>
    rw [Registry.ofHistory_append, latest?_append]
    cases d with
    | signature name' signature' form' =>
      simpa [Registry.record, Registry.define, Definition.key] using ih
    | variadic name' least' form' =>
      by_cases h : name' = name
      · subst h
        simp [Registry.record, Registry.defineVariadic, Definition.key]
      · have hkey : ¬ name = name' := fun h' => h h'.symm
        simpa [Registry.record, Registry.defineVariadic, Definition.key, h, hkey,
          List.lookup_cons, beq_eq_decide] using ih
    | fallback form' =>
      simpa [Registry.record, Registry.defineFallback, Definition.key] using ih

/-- The fallback is the last one defined. -/
lemma fallback_ofHistory (history : List (Definition ε)) (form : ε) :
    (Registry.ofHistory history).fallback = some form ↔
      latest? history .fallback = some (.fallback form) := by
  induction history using List.reverseRecOn with
  | nil => simp [Registry.ofHistory, Registry.empty, latest?]
  | append_singleton history d ih =>
    rw [Registry.ofHistory_append, latest?_append]
    cases d with
    | signature name' signature' form' =>
      simpa [Registry.record, Registry.define, Definition.key] using ih
    | variadic name' least' form' =>
      simpa [Registry.record, Registry.defineVariadic, Definition.key] using ih
    | fallback form' => simp [Registry.record, Registry.defineFallback, Definition.key]

/-! ## Lookups -/

/-- The first hit in a row that is sorted by an order that goes one way is the least of the hits.

**Proof sketch.** The row is split at the hit. Everything before it is no hit, and everything behind
it is greater; conversely a hit before the least one would be less and greater. -/
lemma findSome?_eq_some_iff_least {α β : Type} {r : α → α → Prop} (asymm : ∀ {a b}, r a b → ¬ r b a)
    {f : α → Option β} {row : List α} (sorted : row.Pairwise r) {b : β} :
    row.findSome? f = some b ↔
      ∃ a ∈ row, f a = some b ∧ ∀ a' ∈ row, (f a').isSome → a' = a ∨ r a a' := by
  constructor
  · intro h
    obtain ⟨before, a, after, rfl, ha, hbefore⟩ := List.findSome?_eq_some_iff.mp h
    refine ⟨a, by simp, ha, fun a' ha' hsome => ?_⟩
    rcases List.mem_append.mp ha' with hmem | hmem
    · simp [hbefore a' hmem] at hsome
    · rcases List.mem_cons.mp hmem with rfl | hmem
      · exact .inl rfl
      · have hcons := (List.pairwise_append.mp sorted).2.1
        exact .inr ((List.pairwise_cons.mp hcons).1 a' hmem)
  · rintro ⟨a, ha, hfa, hleast⟩
    obtain ⟨before, after, rfl⟩ := List.append_of_mem ha
    refine List.findSome?_eq_some_iff.mpr ⟨before, a, after, rfl, hfa, fun a' ha' => ?_⟩
    by_contra hsome
    have hr : r a' a := (List.pairwise_append.mp sorted).2.2 a' ha' a (by simp)
    rcases hleast a' (by simp [ha']) (Option.isSome_iff_ne_none.mpr hsome) with rfl | hr'
    · exact asymm hr hr
    · exact asymm hr hr'

/-- The history defines the signature for the name. -/
def Defines (history : List (Definition ε)) (name : String) (signature : List Tag) : Prop :=
  ∃ form, latest? history (.signature name signature) = some (.signature name signature form)

/-- The variadic entry of the name takes so many arguments. -/
def TakesVariadic (history : List (Definition ε)) (name : String) (count : Nat) (form : ε) : Prop :=
  ∃ least ≤ count, latest? history (.variadic name) = some (.variadic name least form)

/-- What a history of definitions makes of a call: the latest form of the most specific signature
that is defined; without one, that of the variadic entry that takes so many arguments; without one,
the latest fallback; and without one, an error that names the call. -/
inductive Resolves (history : List (Definition ε)) (name : String) (tags : List Tag) :
    Except DispatchError ε → Prop
  | signature {signature : List Tag} {form : ε} (candidate : Candidate tags signature)
      (defined : latest? history (.signature name signature) =
        some (.signature name signature form))
      (least : ∀ other, Candidate tags other → Defines history name other →
        other = signature ∨ MoreSpecific tags signature other) :
      Resolves history name tags (.ok form)
  | variadic {form : ε} (undefined : ∀ other, Candidate tags other → ¬ Defines history name other)
      (takes : TakesVariadic history name tags.length form) : Resolves history name tags (.ok form)
  | fallback {form : ε} (undefined : ∀ other, Candidate tags other → ¬ Defines history name other)
      (refuses : ∀ form, ¬ TakesVariadic history name tags.length form)
      (defined : latest? history .fallback = some (.fallback form)) :
      Resolves history name tags (.ok form)
  | missing (undefined : ∀ other, Candidate tags other → ¬ Defines history name other)
      (refuses : ∀ form, ¬ TakesVariadic history name tags.length form)
      (unhandled : latest? history .fallback = none) : Resolves history name tags (.error ⟨name, tags⟩)

variable {history : List (Definition ε)} {name : String} {tags : List Tag}

/-- A registry has a form for the signatures that its history defines. -/
lemma isSome_form?_ofHistory {signature : List Tag} :
    ((Registry.ofHistory history).form? name signature).isSome ↔
      Defines history name signature := by
  rw [Option.isSome_iff_exists]
  exact exists_congr fun form => form?_ofHistory history name signature form

/-- The walk over the signatures finds the latest form of the most specific one. -/
lemma found_eq_some_iff {form : ε} :
    (tags :: generalizations tags).findSome? ((Registry.ofHistory history).form? name) = some form ↔
      ∃ signature, Candidate tags signature ∧
        latest? history (.signature name signature) = some (.signature name signature form) ∧
        ∀ other, Candidate tags other → Defines history name other →
          other = signature ∨ MoreSpecific tags signature other := by
  rw [findSome?_eq_some_iff_least MoreSpecific.asymm (pairwise_generalizations tags)]
  simp only [mem_generalizations, form?_ofHistory, isSome_form?_ofHistory]

/-- The walk finds nothing where the history defines none of the signatures. -/
lemma found_eq_none_iff :
    (tags :: generalizations tags).findSome? ((Registry.ofHistory history).form? name) = none ↔
      ∀ other, Candidate tags other → ¬ Defines history name other := by
  rw [List.findSome?_eq_none_iff]
  simp only [mem_generalizations, ← isSome_form?_ofHistory, Option.not_isSome_iff_eq_none]

/-- The variadic form of a name is the latest one, for as many arguments as it takes. -/
lemma variadic?_ofHistory {count : Nat} {form : ε} :
    (Registry.ofHistory history).variadic? name count = some form ↔
      TakesVariadic history name count form := by
  simp only [TakesVariadic, ← variadics_ofHistory, Registry.variadic?]
  cases (Registry.ofHistory history).variadics.lookup name with
  | none => simp
  | some entry =>
    obtain ⟨least, form'⟩ := entry
    by_cases hle : least ≤ count
    · simp [hle]
    · simp only [hle, ↓reduceIte, reduceCtorEq, Option.some.injEq, Prod.mk.injEq, false_iff]
      rintro ⟨_, hle', rfl, -⟩
      exact hle hle'

/-- The history has no fallback where the registry has none. -/
lemma fallback_ofHistory_eq_none :
    (Registry.ofHistory history).fallback = none ↔ latest? history .fallback = none := by
  constructor
  · intro h
    cases hlatest : latest? history .fallback with
    | none => rfl
    | some d =>
      cases d with
      | fallback form => rw [(fallback_ofHistory history form).mpr hlatest] at h; cases h
      | signature => cases key_of_latest? hlatest
      | variadic => cases key_of_latest? hlatest
  · intro h
    cases hfallback : (Registry.ofHistory history).fallback with
    | none => rfl
    | some form => rw [(fallback_ofHistory history form).mp hfallback] at h; cases h

/-- A lookup finds what the history makes of the call.

**Proof sketch.** By cases on the three steps of a lookup: each that finds something is the case of
that name, and each that does not leaves the reason that the next case asks for. -/
lemma resolves_lookup :
    Resolves history name tags ((Registry.ofHistory history).lookup name tags) := by
  rw [Registry.lookup]
  cases hfound : (tags :: generalizations tags).findSome?
      ((Registry.ofHistory history).form? name) with
  | some form =>
    obtain ⟨signature, candidate, defined, least⟩ := found_eq_some_iff.mp hfound
    exact .signature candidate defined least
  | none =>
    have undefined := found_eq_none_iff.mp hfound
    cases hvariadic : (Registry.ofHistory history).variadic? name tags.length with
    | some form => exact .variadic undefined (variadic?_ofHistory.mp hvariadic)
    | none =>
      have refuses (form : ε) : ¬ TakesVariadic history name tags.length form := by
        rw [← variadic?_ofHistory, hvariadic]
        simp
      cases hfallback : (Registry.ofHistory history).fallback with
      | some form => exact .fallback undefined refuses ((fallback_ofHistory _ _).mp hfallback)
      | none => exact .missing undefined refuses (fallback_ofHistory_eq_none.mp hfallback)

/-- A history makes nothing of a call but what a lookup finds. -/
lemma Resolves.lookup_eq {outcome : Except DispatchError ε}
    (h : Resolves history name tags outcome) :
    (Registry.ofHistory history).lookup name tags = outcome := by
  have hnone (refuses : ∀ form, ¬ TakesVariadic history name tags.length form) :
      (Registry.ofHistory history).variadic? name tags.length = none :=
    Option.eq_none_iff_forall_ne_some.mpr fun form hform =>
      refuses form (variadic?_ofHistory.mp hform)
  rw [Registry.lookup]
  cases h with
  | signature candidate defined least =>
    rw [found_eq_some_iff.mpr ⟨_, candidate, defined, least⟩]; rfl
  | variadic undefined takes =>
    rw [found_eq_none_iff.mpr undefined, variadic?_ofHistory.mpr takes]; rfl
  | fallback undefined refuses defined =>
    rw [found_eq_none_iff.mpr undefined, hnone refuses, (fallback_ofHistory _ _).mpr defined]; rfl
  | missing undefined refuses unhandled =>
    rw [found_eq_none_iff.mpr undefined, hnone refuses, fallback_ofHistory_eq_none.mpr unhandled]
    rfl

/-- What a history makes of a call depends on nothing but the last definition of each key.

**Proof sketch.** What a history defines is a statement about `latest?`, so both histories define
the same signatures and variadics, and each case of `Resolves` carries over. -/
lemma Resolves.of_latest_eq {other : List (Definition ε)}
    (same : ∀ key, latest? other key = latest? history key) {outcome : Except DispatchError ε}
    (h : Resolves history name tags outcome) : Resolves other name tags outcome := by
  have hdefines (signature : List Tag) : Defines other name signature ↔
      Defines history name signature := by simp only [Defines, same]
  have htakes (form : ε) : TakesVariadic other name tags.length form ↔
      TakesVariadic history name tags.length form := by simp only [TakesVariadic, same]
  have hundefined (h : ∀ signature, Candidate tags signature → ¬ Defines history name signature)
      (signature : List Tag) (hc : Candidate tags signature) : ¬ Defines other name signature := by
    rw [hdefines]
    exact h signature hc
  cases h with
  | signature candidate defined least =>
    refine .signature candidate ((same _).trans defined) fun signature hc hd => ?_
    exact least signature hc ((hdefines signature).mp hd)
  | variadic undefined takes => exact .variadic (hundefined undefined) ((htakes _).mpr takes)
  | fallback undefined refuses defined =>
    refine .fallback (hundefined undefined) (fun form => ?_) ((same _).trans defined)
    rw [htakes]
    exact refuses form
  | missing undefined refuses unhandled =>
    refine .missing (hundefined undefined) (fun form => ?_) ((same _).trans unhandled)
    rw [htakes]
    exact refuses form

/-- Histories that agree on the definitions of each key, in their order, agree on the last one. -/
lemma latest?_eq_of_filter_eq {other : List (Definition ε)} {key : Key}
    (h : other.filter (·.key = key) = history.filter (·.key = key)) :
    latest? other key = latest? history key := by
  rw [latest?, latest?, ← List.head?_filter, ← List.head?_filter, List.filter_reverse,
    List.filter_reverse, h]

/-- A lookup finds exactly what the history makes of the call. It depends on nothing but the last
definition of each key, and so not on the order of definitions of different keys.

**Proof sketch.** A lookup resolves as `Resolves` says (`resolves_lookup`), and that relation has
one outcome. It is about last definitions only (`Resolves.of_latest_eq`), and these are the same
where the definitions of each key are the same in the same order. -/
theorem lookup_ofHistory (history : List (Definition ε)) (name : String) (tags : List Tag) :
    (∀ outcome, (Registry.ofHistory history).lookup name tags = outcome ↔
      Resolves history name tags outcome) ∧
    (∀ other, (∀ key, latest? other key = latest? history key) →
      (Registry.ofHistory other).lookup name tags =
        (Registry.ofHistory history).lookup name tags) ∧
    ∀ other, (∀ key, other.filter (·.key = key) = history.filter (·.key = key)) →
      (Registry.ofHistory other).lookup name tags =
        (Registry.ofHistory history).lookup name tags := by
  have hlast (other : List (Definition ε)) (same : ∀ key, latest? other key = latest? history key) :
      (Registry.ofHistory other).lookup name tags =
        (Registry.ofHistory history).lookup name tags :=
    (resolves_lookup.of_latest_eq same).lookup_eq
  refine ⟨fun outcome => ⟨?_, Resolves.lookup_eq⟩, hlast, fun other same => ?_⟩
  · rintro rfl
    exact resolves_lookup
  · exact hlast other fun key => latest?_eq_of_filter_eq (same key)

/-- Two signatures of a name that widen one position each, a later form of the first of them, and a
variadic form, in two orders: a call takes the latest form of the signature that keeps the left
position. -/
theorem lookup_ofHistory_reordered :
    let history : List (Definition Nat) :=
      [.signature "f" [.int, .any] 1, .signature "f" [.any, .float] 2, .variadic "f" 0 3,
        .signature "f" [.int, .any] 4]
    let other : List (Definition Nat) :=
      [.variadic "f" 0 3, .signature "f" [.any, .float] 2, .signature "f" [.int, .any] 1,
        .signature "f" [.int, .any] 4]
    (∀ key, other.filter (·.key = key) = history.filter (·.key = key)) ∧
      (Registry.ofHistory history).lookup "f" [.int, .float] = .ok 4 ∧
      (Registry.ofHistory other).lookup "f" [.int, .float] = .ok 4 := by
  intro history other
  have same (key : Key) : other.filter (·.key = key) = history.filter (·.key = key) := by
    by_cases hleft : Key.signature "f" [.int, .any] = key
    · subst hleft; rfl
    · by_cases hright : Key.signature "f" [.any, .float] = key
      · subst hright; rfl
      · simp [history, other, Definition.key, List.filter_cons, hleft, hright]
  have hfound : (Registry.ofHistory history).lookup "f" [.int, .float] = .ok 4 := rfl
  obtain ⟨-, -, hreorder⟩ := lookup_ofHistory history "f" [.int, .float]
  exact ⟨same, hfound, (hreorder other same).trans hfound⟩

end Histories

end Retarget
