import Retarget.Dispatch
import Mathlib.Data.List.Sort
import Mathlib.Tactic.Common

set_option autoImplicit false

/-!
# The walk over the bit masks

The more general signatures of a call come from bit masks, one for each set of positions, which are
sorted by the number of positions and by a key for the positions that stay. A mask that sets a position
that is `any` already repeats the signature of a smaller mask and is skipped. What is left over is the
row of signatures that a recursion over the tags lists in order.

## Main definitions

* `Retarget.Covers` — a signature covers a row of tags.
* `Retarget.widened` — how many positions of a row of tags a signature widens.
* `Retarget.KeepsLeftmost` — the order of the signatures that widen equally many positions.
* `Retarget.widenings` — the signatures that widen a given number of positions, by recursion.
* `Retarget.OnConcrete` — the masks that are not skipped.

## Main results

* `Retarget.mem_widenings`, `Retarget.pairwise_widenings` — which signatures widen a given number of
  positions, and their order.
* `Retarget.pairwise_sortByKey`, `Retarget.filter_sortByKey` — sorting by a key is sorting, and stable.
* `Retarget.map_masks` — the masks that are not skipped, in their sorted order, give these signatures.
* `Retarget.generalizations_eq` — the walk over the masks lists the widenings, one round after another.
-/

namespace Retarget

/-! ## Signatures that cover a row of tags -/

/-- The signature covers the tags: each position is the tag or `any`. -/
def Covers (signature tags : List Tag) : Prop :=
  List.Forall₂ (fun s t => s = t ∨ s = .any) signature tags

/-- The number of positions that are not `any` in the tags and `any` in the signature. -/
def widened (tags signature : List Tag) : Nat :=
  (tags.zip signature).countP fun p => p.1 ≠ .any ∧ p.2 = .any

/-- At the first position where the two signatures differ, the first one is not `any` and the second
one is. -/
def KeepsLeftmost (a b : List Tag) : Prop :=
  ∃ shared t as bs, a = shared ++ t :: as ∧ b = shared ++ .any :: bs ∧ t ≠ .any

/-- Nothing is widened where there are no tags. -/
@[simp] lemma widened_nil : widened [] [] = 0 := rfl

/-- The first position counts where it is widened. -/
@[simp] lemma widened_cons (t s : Tag) (ts ss : List Tag) :
    widened (t :: ts) (s :: ss) =
      widened ts ss + if t ≠ .any ∧ s = .any then 1 else 0 := by
  simp [widened, List.countP_cons]

/-- A signature covers tags where it does at the first position and behind it. -/
@[simp] lemma covers_cons {s t : Tag} {ss ts : List Tag} :
    Covers (s :: ss) (t :: ts) ↔ (s = t ∨ s = .any) ∧ Covers ss ts :=
  List.forall₂_cons

/-- A row of tags covers itself. -/
lemma covers_self (tags : List Tag) : Covers tags tags :=
  List.forall₂_same.mpr fun _ _ => .inl rfl

/-- A row of tags widens none of its own positions. -/
@[simp] lemma widened_self (tags : List Tag) : widened tags tags = 0 := by
  induction tags with
  | nil => rfl
  | cons t ts ih => by_cases h : t = .any <;> simp [ih, h]

/-- A signature that widens no position is the row of tags itself. -/
lemma eq_of_widened_eq_zero {signature tags : List Tag} (h : Covers signature tags)
    (hzero : widened tags signature = 0) : signature = tags := by
  induction h with
  | nil => rfl
  | @cons s t ss ts hst _ ih =>
    rw [widened_cons, Nat.add_eq_zero_iff] at hzero
    obtain rfl := ih hzero.1
    rcases hst with rfl | rfl
    · rfl
    · by_cases ht : t = .any
      · rw [ht]
      · simp [ht] at hzero

/-- No signature widens more positions than there are. -/
lemma widened_le_length (tags signature : List Tag) : widened tags signature ≤ tags.length := by
  calc widened tags signature ≤ (tags.zip signature).length := List.countP_le_length
    _ ≤ tags.length := by rw [List.length_zip]; exact Nat.min_le_left _ _

/-- Keeping the leftmost positions goes one way.

**Proof sketch.** By induction on what the two signatures share: at the first place where they
differ, one has the tag of the call and the other has `any`. -/
lemma KeepsLeftmost.asymm {a b : List Tag} (h : KeepsLeftmost a b) : ¬ KeepsLeftmost b a := by
  obtain ⟨shared, t, as, bs, rfl, rfl, ht⟩ := h
  rintro ⟨shared', t', as', bs', hb, ha, ht'⟩
  induction shared generalizing shared' with
  | nil =>
    cases shared' with
    | nil =>
      simp only [List.nil_append, List.cons.injEq] at ha
      exact ht ha.1
    | cons x xs =>
      simp only [List.nil_append, List.cons_append, List.cons.injEq] at ha hb
      exact ht (ha.1.trans hb.1.symm)
  | cons y ys ih =>
    cases shared' with
    | nil =>
      simp only [List.nil_append, List.cons_append, List.cons.injEq] at ha hb
      exact ht' (hb.1.symm.trans ha.1)
    | cons x xs =>
      simp only [List.cons_append, List.cons.injEq] at ha hb
      exact ih xs hb.2 ha.2

/-- A position in front of two signatures does not change which of them keeps the leftmost ones. -/
lemma KeepsLeftmost.cons {a b : List Tag} (t : Tag) (h : KeepsLeftmost a b) :
    KeepsLeftmost (t :: a) (t :: b) := by
  obtain ⟨shared, s, as, bs, rfl, rfl, hs⟩ := h
  exact ⟨t :: shared, s, as, bs, rfl, rfl, hs⟩

/-! ## Signatures by recursion -/

/-- The signatures in which exactly `count` of the positions that are not `any` are widened to
`any`; those that keep the leftmost positions come first. -/
def widenings : Nat → List Tag → List (List Tag)
  | 0, tags => [tags]
  | _ + 1, [] => []
  | count + 1, tag :: tags =>
    if tag = .any then (widenings (count + 1) tags).map (.any :: ·)
    else
      (widenings (count + 1) tags).map (tag :: ·) ++ (widenings count tags).map (.any :: ·)

/-- The signatures with a given number of widened positions are those that cover the tags and widen
so many.

**Proof sketch.** Induction as the list is defined. Where nothing is left to be widened the
signature is the tags. A position that is `any` stays so; any other one is kept, with all positions
to be widened behind it, or widened, with one less. -/
lemma mem_widenings {count : Nat} {tags signature : List Tag} :
    signature ∈ widenings count tags ↔ Covers signature tags ∧ widened tags signature = count := by
  fun_induction widenings generalizing signature with
  | case1 tags =>
    rw [List.mem_singleton]
    constructor
    · rintro rfl
      exact ⟨covers_self _, widened_self _⟩
    · rintro ⟨h, hzero⟩
      exact eq_of_widened_eq_zero h hzero
  | case2 count =>
    simp only [List.not_mem_nil, false_iff, not_and]
    rintro h
    cases h
    simp
  -- The first tag is `any`, which counts as widened in no signature.
  | case3 count tags ih =>
    cases signature with
    | nil => simp [Covers]
    | cons s ss =>
      simp only [List.mem_map, List.cons.injEq, ih, covers_cons, widened_cons]
      constructor
      · rintro ⟨ss', ⟨hcovers, hcount⟩, rfl, rfl⟩
        exact ⟨⟨.inr rfl, hcovers⟩, by simpa using hcount⟩
      · rintro ⟨⟨hs, hcovers⟩, hcount⟩
        exact ⟨ss, ⟨hcovers, by simpa using hcount⟩, (or_self_iff.mp hs).symm, rfl⟩
  -- The first tag is kept or widened.
  | case4 count tag tags htag ihkeep ihwiden =>
    cases signature with
    | nil => simp [Covers]
    | cons s ss =>
      simp only [List.mem_append, List.mem_map, List.cons.injEq, ihkeep, ihwiden, covers_cons,
        widened_cons]
      constructor
      · rintro (⟨ss', ⟨hcovers, hcount⟩, rfl, rfl⟩ | ⟨ss', ⟨hcovers, hcount⟩, rfl, rfl⟩)
        · exact ⟨⟨.inl rfl, hcovers⟩, by simpa [htag] using hcount⟩
        · exact ⟨⟨.inr rfl, hcovers⟩, by simpa [htag] using hcount⟩
      · rintro ⟨⟨rfl | rfl, hcovers⟩, hcount⟩
        · exact .inl ⟨ss, ⟨hcovers, by simpa [htag] using hcount⟩, rfl, rfl⟩
        · exact .inr ⟨ss, ⟨hcovers, by simpa [htag] using hcount⟩, rfl, rfl⟩

/-- Among the signatures with a given number of widened positions, those that keep the leftmost
positions come first. -/
lemma pairwise_widenings (count : Nat) (tags : List Tag) :
    (widenings count tags).Pairwise KeepsLeftmost := by
  fun_induction widenings with
  | case1 tags => exact List.pairwise_singleton _ _
  | case2 count => exact .nil
  | case3 count tags ih => exact ih.map _ fun a b h => h.cons _
  | case4 count tag tags htag ihkeep ihwiden =>
    refine List.pairwise_append.mpr ⟨ihkeep.map _ fun a b h => h.cons _,
      ihwiden.map _ fun a b h => h.cons _, ?_⟩
    intro a ha b hb
    obtain ⟨as, -, rfl⟩ := List.mem_map.mp ha
    obtain ⟨bs, -, rfl⟩ := List.mem_map.mp hb
    exact ⟨[], tag, as, bs, rfl, rfl, htag⟩

/-! ## Sorting by a key -/

section Sorting

variable {α : Type} {key : α → Nat}

/-- Sorting an element in adds that element. -/
lemma perm_insertByKey (a : α) (row : List α) : (insertByKey key a row).Perm (a :: row) := by
  fun_induction insertByKey key a row with
  | case1 => rfl
  | case2 b bs hle => rfl
  | case3 b bs hle ih => exact (ih.cons b).trans (.swap a b bs)

/-- Sorting neither adds nor drops an element. -/
lemma perm_sortByKey (row : List α) : (sortByKey key row).Perm row := by
  induction row with
  | nil => rfl
  | cons a row ih => exact (perm_insertByKey a _).trans (ih.cons a)

/-- A row sorted by descending keys stays so when an element is sorted in. -/
lemma pairwise_insertByKey (a : α) {row : List α} (sorted : row.Pairwise fun a b => key b ≤ key a) :
    (insertByKey key a row).Pairwise fun a b => key b ≤ key a := by
  fun_induction insertByKey key a row with
  | case1 => exact List.pairwise_singleton _ _
  | case2 b bs hle =>
    refine List.pairwise_cons.mpr ⟨fun c hc => ?_, sorted⟩
    rcases List.mem_cons.mp hc with rfl | hc
    · exact hle
    · exact (List.rel_of_pairwise_cons sorted hc).trans hle
  | case3 b bs hle ih =>
    obtain ⟨hb, hbs⟩ := List.pairwise_cons.mp sorted
    refine List.pairwise_cons.mpr ⟨fun c hc => ?_, ih hbs⟩
    rcases List.mem_cons.mp ((perm_insertByKey a bs).mem_iff.mp hc) with rfl | hc
    · omega
    · exact hb c hc

/-- Sorting by descending keys sorts. -/
lemma pairwise_sortByKey (row : List α) :
    (sortByKey key row).Pairwise fun a b => key b ≤ key a := by
  induction row with
  | nil => exact .nil
  | cons a row ih => exact pairwise_insertByKey a ih

/-- An element is sorted in ahead of the others with its key and leaves their order alone. -/
lemma filter_insertByKey (a : α) (row : List α) (k : Nat) :
    (insertByKey key a row).filter (key · = k) = (a :: row).filter (key · = k) := by
  fun_induction insertByKey key a row with
  | case1 => rfl
  | case2 b bs hle => rfl
  | case3 b bs hle ih =>
    by_cases ha : key a = k
    · have hb : key b ≠ k := by omega
      simpa [List.filter_cons, ha, hb] using ih
    · by_cases hb : key b = k <;> simpa [List.filter_cons, ha, hb] using ih

/-- Sorting keeps the order of the elements with the same key. -/
lemma filter_sortByKey (row : List α) (k : Nat) :
    (sortByKey key row).filter (key · = k) = row.filter (key · = k) := by
  induction row with
  | nil => rfl
  | cons a row ih =>
    calc (sortByKey key (a :: row)).filter (key · = k)
        = (a :: sortByKey key row).filter (key · = k) := filter_insertByKey a _ k
      _ = (a :: row).filter (key · = k) := by rw [List.filter_cons, List.filter_cons, ih]

end Sorting

/-! ## Masks -/

section Masks

variable {mask other : Nat} {tags signature : List Tag}

/-- The mask widens no position that is `any` already. -/
def OnConcrete (mask : Nat) (tags : List Tag) : Prop :=
  ∀ i, ∀ h : i < tags.length, mask.testBit i → tags[i] ≠ .any

instance (mask : Nat) (tags : List Tag) : Decidable (OnConcrete mask tags) :=
  inferInstanceAs (Decidable (∀ i, ∀ h : i < tags.length, mask.testBit i → tags[i] ≠ .any))

/-- The lowest bit of a mask stands for the first position. -/
lemma onConcrete_cons {tag : Tag} :
    OnConcrete mask (tag :: tags) ↔
      (mask.testBit 0 → tag ≠ .any) ∧ OnConcrete (mask / 2) tags := by
  constructor
  · intro h
    refine ⟨h 0 (Nat.zero_lt_succ _), fun i hi hbit => ?_⟩
    exact h (i + 1) (Nat.succ_lt_succ hi) (by rwa [Nat.testBit_succ])
  · rintro ⟨hhead, htail⟩ i hi hbit
    cases i with
    | zero => exact hhead hbit
    | succ i => exact htail i (Nat.lt_of_succ_lt_succ hi) (by rwa [← Nat.testBit_succ])

/-- The signature of a mask, position by position. -/
@[simp] lemma widenBy_cons (mask : Nat) (tag : Tag) (tags : List Tag) :
    widenBy mask (tag :: tags) =
      (if mask.testBit 0 then .any else tag) :: widenBy (mask / 2) tags := by
  simp [widenBy, List.mapIdx_cons, Nat.testBit_succ]

/-- The positions that a mask widens, counted one by one. -/
@[simp] lemma countOnes_succ (length mask : Nat) :
    countOnes (length + 1) mask =
      countOnes length (mask / 2) + if mask.testBit 0 then 1 else 0 := by
  have hshift : mask.testBit ∘ Nat.succ = (mask / 2).testBit := funext fun i => Nat.testBit_succ ..
  rw [countOnes, List.range_succ_eq_map, List.countP_cons, List.countP_map, hshift, countOnes]

/-- The first position weighs as much as its place says, and the others weigh what they weigh without
it. -/
lemma concreteness_succ (length mask : Nat) :
    concreteness (length + 1) mask =
      (if mask.testBit 0 then 0 else Nat.pow 2 length) + concreteness length (mask / 2) := by
  have hshift : (fun i => !mask.testBit i) ∘ Nat.succ = fun i => !(mask / 2).testBit i :=
    funext fun i => by rw [Function.comp_apply, Nat.testBit_succ]
  have hweight (i weight : Nat) : Nat.pow 2 (length + 1 - 1 - i.succ) + weight =
      Nat.pow 2 (length - 1 - i) + weight := by
    congr 2
    omega
  rw [concreteness, List.range_succ_eq_map, List.filter_cons, List.filter_map, hshift]
  split_ifs with hkept hbit hbit
  · simp [hbit] at hkept
  · simp only [List.foldr_cons, List.foldr_map, hweight]
    rfl
  · simp only [List.foldr_map, hweight, Nat.zero_add]
    rfl
  · simp [hbit] at hkept

/-- All positions of a row together weigh less than one position in front of it. -/
lemma concreteness_lt (length mask : Nat) : concreteness length mask < Nat.pow 2 length := by
  induction length generalizing mask with
  | zero => exact Nat.one_pos
  | succ length ih =>
    have := ih (mask / 2)
    have hdouble : Nat.pow 2 (length + 1) = Nat.pow 2 length * 2 := rfl
    rw [concreteness_succ, hdouble]
    split_ifs <;> omega

/-- Masks that keep different positions weigh differently. -/
lemma eq_of_concreteness_eq {length : Nat} (hmask : mask < Nat.pow 2 length)
    (hother : other < Nat.pow 2 length)
    (h : concreteness length mask = concreteness length other) : mask = other := by
  induction length generalizing mask other with
  | zero =>
    have hone : Nat.pow 2 0 = 1 := rfl
    omega
  | succ length ih =>
    have hdouble : Nat.pow 2 (length + 1) = Nat.pow 2 length * 2 := rfl
    rw [hdouble] at hmask hother
    rw [concreteness_succ, concreteness_succ] at h
    have hlt := concreteness_lt length (mask / 2)
    have hlt' := concreteness_lt length (other / 2)
    simp only [Nat.testBit_zero, decide_eq_true_eq] at h
    -- The weight of the first position tells whether it is kept, and the rest weighs less.
    have hhead : mask % 2 = 1 ↔ other % 2 = 1 := by
      split_ifs at h <;> omega
    have htail : mask / 2 = other / 2 :=
      ih (by omega) (by omega) (by simp only [hhead] at h; omega)
    omega

/-- The masks of a round are those that widen so many positions. -/
lemma mem_masks {length count : Nat} :
    mask ∈ masks length count ↔ mask < Nat.pow 2 length ∧ countOnes length mask = count := by
  rw [masks, (perm_sortByKey _).mem_iff, List.mem_filter, List.mem_range, decide_eq_true_eq]

/-- The masks of a round stand there in strictly descending order of their weights. -/
lemma pairwise_masks (length count : Nat) :
    (masks length count).Pairwise fun a b => concreteness length b < concreteness length a := by
  have hnodup : (masks length count).Nodup :=
    (perm_sortByKey _).nodup_iff.mpr (List.nodup_range.filter _)
  refine ((pairwise_sortByKey _).and hnodup).imp_of_mem fun {a b} ha hb h => ?_
  refine lt_of_le_of_ne h.1 fun heq => h.2 ?_
  exact eq_of_concreteness_eq (mem_masks.mp ha).1 (mem_masks.mp hb).1 heq.symm

/-- Whatever a mask widens, the tags are covered. -/
lemma covers_widenBy (mask : Nat) (tags : List Tag) : Covers (widenBy mask tags) tags := by
  induction tags generalizing mask with
  | nil => exact .nil
  | cons tag tags ih =>
    rw [widenBy_cons, covers_cons]
    refine ⟨?_, ih _⟩
    split_ifs
    · exact .inr rfl
    · exact .inl rfl

/-- A mask widens no more positions than it sets. -/
lemma widened_widenBy_le (mask : Nat) (tags : List Tag) :
    widened tags (widenBy mask tags) ≤ countOnes tags.length mask := by
  induction tags generalizing mask with
  | nil => simp [widenBy]
  | cons tag tags ih =>
    have := ih (mask / 2)
    rw [widenBy_cons, widened_cons, List.length_cons, countOnes_succ]
    by_cases hbit : mask.testBit 0 <;> by_cases htag : tag = .any <;> simp [hbit, htag] <;> omega

/-- It widens as many as it sets exactly if none of them is `any` already. -/
lemma widened_widenBy_eq_iff :
    widened tags (widenBy mask tags) = countOnes tags.length mask ↔ OnConcrete mask tags := by
  induction tags generalizing mask with
  | nil => simp [widenBy, countOnes, OnConcrete]
  | cons tag tags ih =>
    have hle := widened_widenBy_le (mask / 2) tags
    rw [widenBy_cons, widened_cons, List.length_cons, countOnes_succ, onConcrete_cons, ← ih]
    by_cases hbit : mask.testBit 0 <;> by_cases htag : tag = .any <;> simp [hbit, htag]
    omega

/-- Every signature that covers the tags is that of a mask that widens positions with a tag of their
own.

**Proof sketch.** By induction on the tags. The lowest bit of the mask says whether the first tag is
widened, and it is set only where the signature has `any` for a tag that is not. -/
lemma exists_mask (h : Covers signature tags) :
    ∃ mask < Nat.pow 2 tags.length, OnConcrete mask tags ∧ widenBy mask tags = signature := by
  induction h with
  | nil => exact ⟨0, Nat.one_pos, fun i hi => absurd hi (Nat.not_lt_zero i), rfl⟩
  | @cons s t ss ts hst _ ih =>
    obtain ⟨mask, hlt, hon, rfl⟩ := ih
    have hdouble : Nat.pow 2 (t :: ts).length = Nat.pow 2 ts.length * 2 := rfl
    rw [hdouble]
    by_cases hwiden : s = .any ∧ t ≠ .any
    · refine ⟨2 * mask + 1, by omega, onConcrete_cons.mpr ⟨fun _ => hwiden.2, ?_⟩, ?_⟩
      · rwa [show (2 * mask + 1) / 2 = mask by omega]
      · rw [widenBy_cons, show (2 * mask + 1) / 2 = mask by omega]
        simp [hwiden.1]
    · have hst' : s = t := by
        rcases hst with h | h
        · exact h
        · by_contra hne
          exact hwiden ⟨h, fun ht => hne (h.trans ht.symm)⟩
      refine ⟨2 * mask, by omega, onConcrete_cons.mpr ⟨fun hbit => by simp at hbit, ?_⟩, ?_⟩
      · rwa [show 2 * mask / 2 = mask by omega]
      · rw [widenBy_cons, show 2 * mask / 2 = mask by omega]
        simp [hst']

/-- Of two masks the heavier one keeps the leftmost positions.

**Proof sketch.** By induction on the tags. The first position has the greatest weight, greater than
all others together, so a heavier mask keeps it or agrees on it. -/
lemma keepsLeftmost_widenBy (hon : OnConcrete other tags)
    (h : concreteness tags.length other < concreteness tags.length mask) :
    KeepsLeftmost (widenBy mask tags) (widenBy other tags) := by
  induction tags generalizing mask other with
  | nil => simp [concreteness] at h
  | cons tag tags ih =>
    obtain ⟨hhead, htail⟩ := onConcrete_cons.mp hon
    rw [List.length_cons, concreteness_succ, concreteness_succ] at h
    have hlt := concreteness_lt tags.length (mask / 2)
    rw [widenBy_cons, widenBy_cons]
    by_cases hmask : mask.testBit 0 <;> by_cases hother : other.testBit 0
    · simp only [hmask, hother, if_true] at h ⊢
      exact (ih htail (by omega)).cons _
    · simp only [hmask, hother, if_true, Bool.false_eq_true, if_false] at h
      omega
    · simp only [hmask, hother, if_true, Bool.false_eq_true, if_false]
      exact ⟨[], tag, _, _, rfl, rfl, hhead hother⟩
    · simp only [hmask, hother, Bool.false_eq_true, if_false] at h ⊢
      exact (ih htail (by omega)).cons _

/-- The masks of a round that widen no position that is `any` already give the signatures that widen so
many positions, in their order.

**Proof sketch.** Both rows are sorted by `KeepsLeftmost`, the masks because a heavier one keeps the
leftmost positions, and both have the same members. An order that goes one way leaves only one such
row. -/
lemma map_masks (count : Nat) (tags : List Tag) :
    ((masks tags.length count).filter (OnConcrete · tags)).map (widenBy · tags) =
      widenings count tags := by
  have hsorted : (((masks tags.length count).filter (OnConcrete · tags)).map
      (widenBy · tags)).Pairwise KeepsLeftmost := by
    refine List.Pairwise.map _ (fun a b h => h) ?_
    refine ((pairwise_masks tags.length count).filter _).imp_of_mem fun _ hb h => ?_
    exact keepsLeftmost_widenBy (by simpa using (List.mem_filter.mp hb).2) h
  have hnodup {row : List (List Tag)} (h : row.Pairwise KeepsLeftmost) : row.Nodup :=
    h.imp fun {a b} hab => by rintro rfl; exact hab.asymm hab
  refine List.Perm.eq_of_pairwise (fun a b _ _ hab hba => absurd hba hab.asymm) hsorted
    (pairwise_widenings count tags) ?_
  refine (List.perm_ext_iff_of_nodup (hnodup hsorted)
    (hnodup (pairwise_widenings count tags))).mpr fun signature => ?_
  simp only [List.mem_map, List.mem_filter, decide_eq_true_eq, mem_masks, mem_widenings]
  constructor
  · rintro ⟨mask, ⟨⟨-, hcount⟩, hon⟩, rfl⟩
    exact ⟨covers_widenBy mask tags, (widened_widenBy_eq_iff.mpr hon).trans hcount⟩
  · rintro ⟨hcovers, hcount⟩
    obtain ⟨mask, hlt, hon, rfl⟩ := exists_mask hcovers
    exact ⟨mask, ⟨⟨hlt, (widened_widenBy_eq_iff.mpr hon).symm.trans hcount⟩, hon⟩, rfl⟩

/-! ## The walk -/

/-- A walk over masks keeps the signatures of some of them, if the others add nothing new to what the
walk starts with and those are different. -/
lemma foldl_addSignature {row : List Nat} {out : List (List Tag)}
    (different : row.Pairwise fun a b =>
      OnConcrete a tags → OnConcrete b tags → widenBy a tags ≠ widenBy b tags)
    (adds : ∀ mask ∈ row,
      widenBy mask tags ≠ tags ∧ widenBy mask tags ∉ out ↔ OnConcrete mask tags) :
    row.foldl (addSignature tags) out =
      out ++ (row.filter (OnConcrete · tags)).map (widenBy · tags) := by
  induction row generalizing out with
  | nil => simp
  | cons mask row ih =>
    obtain ⟨hhead, hrest⟩ := List.pairwise_cons.mp different
    have hadd := adds mask List.mem_cons_self
    have hadds := fun m hm => adds m (List.mem_cons_of_mem _ hm)
    rw [List.foldl_cons, addSignature, List.filter_cons]
    by_cases hon : OnConcrete mask tags
    · simp only [hadd.mpr hon, not_false_eq_true, ne_eq, and_self, if_true, hon, decide_true]
      rw [ih hrest fun m hm => ?_]
      · simp
      · rw [List.mem_append, List.mem_singleton, not_or, ← and_assoc, hadds m hm]
        exact and_iff_left_of_imp fun hon' => (hhead m hm hon hon').symm
    · simp only [hon, decide_false, Bool.false_eq_true, if_false, if_neg (mt hadd.mp hon)]
      exact ih hrest hadds

/-- A round adds the signatures that widen one position more to those of the rounds before it.

**Proof sketch.** A mask of the round that widens no `any` gives a signature with as many widened
positions as the round counts, and none of these stands there yet. Any other mask gives a signature with
fewer of them, which is the row of tags itself or one of an earlier round. -/
lemma foldl_masks (count : Nat) (tags : List Tag) :
    (masks tags.length (count + 1)).foldl (addSignature tags)
        ((List.range count).flatMap fun n => widenings (n + 1) tags) =
      (List.range (count + 1)).flatMap fun n => widenings (n + 1) tags := by
  rw [foldl_addSignature, map_masks, List.range_succ, List.flatMap_append, List.flatMap_singleton]
  · refine (pairwise_masks tags.length (count + 1)).imp fun {a b} h _ hon heq => ?_
    have hkeeps := keepsLeftmost_widenBy hon h
    rw [heq] at hkeeps
    exact hkeeps.asymm hkeeps
  · intro mask hmem
    have hones := (mem_masks.mp hmem).2
    have hcovers := covers_widenBy mask tags
    simp only [List.mem_flatMap, List.mem_range, mem_widenings, hcovers, true_and, not_exists,
      not_and]
    constructor
    · rintro ⟨hself, hnew⟩
      have hle := widened_widenBy_le mask tags
      by_contra hon
      have hne := mt widened_widenBy_eq_iff.mp hon
      obtain ⟨n, hn⟩ := Nat.exists_eq_succ_of_ne_zero
        (mt (eq_of_widened_eq_zero hcovers) hself)
      exact hnew n (by omega) hn
    · intro hon
      have hcount := (widened_widenBy_eq_iff.mpr hon).trans hones
      refine ⟨fun hself => ?_, fun n hn heq => by omega⟩
      rw [hself, widened_self] at hcount
      omega

/-- The walk over the masks lists the signatures that widen one position, then those that widen two, and
so on.

**Proof sketch.** The rounds of the loop are numbered from one. Each adds the signatures of its
masks to what is there, which are those that widen as many positions and are new (`foldl_masks`). -/
theorem generalizations_eq (tags : List Tag) :
    generalizations tags =
      if widestStepwise < tags.length then
        if tags = List.replicate tags.length .any then [] else [List.replicate tags.length .any]
      else (List.range tags.length).flatMap fun n => widenings (n + 1) tags := by
  have hrounds (count : Nat) :
      (List.range' 1 count).foldl
          (fun out count => (masks tags.length count).foldl (addSignature tags) out) [] =
        (List.range count).flatMap fun n => widenings (n + 1) tags := by
    induction count with
    | zero => rfl
    | succ count ih =>
      rw [List.range'_1_concat, List.foldl_append, ih, List.foldl_cons, List.foldl_nil,
        Nat.add_comm 1 count, foldl_masks]
  rw [generalizations]
  split_ifs with hnil hlong hany
  · omega
  · omega
  · rw [hnil]; rfl
  · rfl
  · rfl
  · exact hrounds tags.length

end Masks

end Retarget
