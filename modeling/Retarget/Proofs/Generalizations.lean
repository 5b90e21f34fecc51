import Mathlib.Data.Finset.Powerset
import Retarget.Proofs.Dispatch

set_option autoImplicit false

/-!
# The more general signatures of a call

A signature that covers the tags of a call widens a set of the positions that are not `any`, and each
set of such positions gives a signature of its own. So the generalizations of a call are as many as its
nonempty sets of positions, each of which stands among them once.

## Main definitions

* `Retarget.concrete` — the positions of a row of tags that are not `any`.
* `Retarget.widenAt` — the row of tags with `any` at some positions.

## Main results

* `Retarget.covers_iff_exists_widenAt` — the signatures that cover a row of tags, as sets of positions.
* `Retarget.generalizations_enumerate` — the generalizations of a row of tags, their number and order.
-/

namespace Retarget

/-- The positions of a row of tags that are not `any`. -/
def concrete (tags : List Tag) : Finset ℕ :=
  (Finset.range tags.length).filter fun i => tags[i]? ≠ some .any

/-- The row of tags with `any` at the given positions. -/
def widenAt (tags : List Tag) (positions : Finset ℕ) : List Tag :=
  tags.mapIdx fun i tag => if i ∈ positions then .any else tag

section Sets

variable {tags : List Tag} {positions : Finset ℕ} {i : ℕ}

/-- A position is concrete where the row has a tag there other than `any`. -/
lemma mem_concrete : i ∈ concrete tags ↔ ∃ tag, tags[i]? = some tag ∧ tag ≠ .any := by
  rw [concrete, Finset.mem_filter, Finset.mem_range]
  constructor
  · rintro ⟨hlt, hany⟩
    exact ⟨tags[i], List.getElem?_eq_getElem hlt, fun h => hany (by rw [List.getElem?_eq_getElem hlt, h])⟩
  · rintro ⟨tag, htag, hany⟩
    obtain ⟨hlt, -⟩ := List.getElem?_eq_some_iff.mp htag
    exact ⟨hlt, by simpa [htag] using hany⟩

/-- A tag is widened where its position is given, and is kept elsewhere. -/
lemma getElem?_widenAt :
    (widenAt tags positions)[i]? = tags[i]?.map fun tag => if i ∈ positions then .any else tag := by
  rw [widenAt, List.getElem?_mapIdx]

/-- Whatever positions are widened, the tags are covered. -/
lemma covers_widenAt (tags : List Tag) (positions : Finset ℕ) :
    Covers (widenAt tags positions) tags := by
  rw [Covers, List.forall₂_iff_get]
  refine ⟨List.length_mapIdx, fun i h h' => ?_⟩
  simp only [List.get_eq_getElem, widenAt, List.getElem_mapIdx]
  split_ifs
  · exact .inr rfl
  · exact .inl rfl

/-- The signatures that cover the tags are the tags with some of their positions widened.

**Proof sketch.** From left to right the widened positions are those where the signature has `any`
and the tags have not. The two are compared position by position. -/
lemma covers_iff_exists_widenAt {signature : List Tag} :
    Covers signature tags ↔ ∃ positions ⊆ concrete tags, signature = widenAt tags positions := by
  constructor
  · intro h
    refine ⟨(concrete tags).filter fun i => signature[i]? = some .any, Finset.filter_subset _ _, ?_⟩
    rw [Covers, List.forall₂_iff_get] at h
    obtain ⟨hlength, hpositions⟩ := h
    refine List.ext_getElem? fun i => ?_
    rw [getElem?_widenAt]
    by_cases hlt : i < tags.length
    · have hsignature : i < signature.length := by omega
      have hcase : signature[i] = tags[i] ∨ signature[i] = .any := hpositions i hsignature hlt
      rw [List.getElem?_eq_getElem hlt, List.getElem?_eq_getElem hsignature, Option.map_some]
      by_cases hany : signature[i] = .any
      · by_cases htag : tags[i] = .any
        · simp [hany, htag]
        · have hmem : i ∈ concrete tags := mem_concrete.mpr ⟨_, List.getElem?_eq_getElem hlt, htag⟩
          simp [hany, hmem, List.getElem?_eq_getElem hsignature]
      · simp [hcase.resolve_right hany, List.getElem?_eq_getElem hsignature]
    · rw [List.getElem?_eq_none (by omega), List.getElem?_eq_none (by omega), Option.map_none]
  · rintro ⟨positions, -, rfl⟩
    exact covers_widenAt tags positions

/-- Different sets of positions give different signatures. -/
lemma widenAt_injOn : Set.InjOn (widenAt tags) {positions | positions ⊆ concrete tags} := by
  have hsub {s t : Finset ℕ} (hs : s ⊆ concrete tags) (h : widenAt tags s = widenAt tags t) :
      s ⊆ t := by
    intro i hi
    obtain ⟨tag, htag, hany⟩ := mem_concrete.mp (hs hi)
    have hat := congrArg (·[i]?) h
    simp only [getElem?_widenAt, htag, hi, if_true, Option.map_some, Option.some.injEq] at hat
    by_contra hi'
    rw [if_neg hi'] at hat
    exact hany hat.symm
  intro s hs t ht h
  exact (hsub hs h).antisymm (hsub ht h.symm)

/-- Without positions the row stays as it is. -/
@[simp] lemma widenAt_empty : widenAt tags ∅ = tags :=
  List.ext_getElem? fun i => by simp [getElem?_widenAt]

/-- A call that widens step by step looks at the signatures with a nonempty set of widened
positions.

**Proof sketch.** With the call itself in front, these are all signatures that cover it
(`mem_generalizations`), that is those of any set of positions. The call itself is the one of the
empty set, and does not stand in the row again. -/
lemma mem_generalizations_iff (hlength : tags.length ≤ widestStepwise) {signature : List Tag} :
    signature ∈ generalizations tags ↔
      ∃ positions ⊆ concrete tags, positions.Nonempty ∧ signature = widenAt tags positions := by
  have hown : tags ∉ generalizations tags := fun h => by
    have hlt := List.rel_of_pairwise_cons (pairwise_generalizations tags) h
    exact hlt.asymm hlt
  have hcovers : signature ∈ tags :: generalizations tags ↔
      ∃ positions ⊆ concrete tags, signature = widenAt tags positions := by
    rw [mem_generalizations, Candidate, covers_iff_exists_widenAt]
    exact and_iff_left fun hlong => absurd hlength (Nat.not_le.mpr hlong)
  constructor
  · intro h
    obtain ⟨positions, hsub, rfl⟩ := hcovers.mp (List.mem_cons_of_mem _ h)
    refine ⟨positions, hsub, Finset.nonempty_iff_ne_empty.mpr ?_, rfl⟩
    rintro rfl
    exact hown (by rwa [widenAt_empty] at h)
  · rintro ⟨positions, hsub, hne, rfl⟩
    refine (List.mem_cons.mp (hcovers.mpr ⟨positions, hsub, rfl⟩)).resolve_left fun h => ?_
    have hempty : positions = ∅ :=
      widenAt_injOn hsub (Finset.empty_subset _) (h.trans widenAt_empty.symm)
    exact hne.ne_empty hempty

/-- No signature is looked at twice. -/
lemma nodup_generalizations (tags : List Tag) : (generalizations tags).Nodup := by
  refine ((pairwise_generalizations tags).of_cons).imp fun {a b} h => ?_
  rintro rfl
  exact h.asymm h

/-- There are as many of them as nonempty sets of positions.

**Proof sketch.** The row has no repetition, so it is as long as its set, and `widenAt` tells sets
of positions apart. -/
lemma length_generalizations (hlength : tags.length ≤ widestStepwise) :
    (generalizations tags).length = 2 ^ (concrete tags).card - 1 := by
  have hset : (generalizations tags).toFinset =
      ((concrete tags).powerset.erase ∅).image (widenAt tags) := by
    ext signature
    rw [List.mem_toFinset, mem_generalizations_iff hlength, Finset.mem_image]
    simp only [Finset.mem_erase, Finset.mem_powerset, Finset.nonempty_iff_ne_empty]
    constructor
    · rintro ⟨positions, hsub, hne, rfl⟩
      exact ⟨positions, ⟨hne, hsub⟩, rfl⟩
    · rintro ⟨positions, ⟨hne, hsub⟩, rfl⟩
      exact ⟨positions, hsub, hne, rfl⟩
  have hinj : Set.InjOn (widenAt tags) ((concrete tags).powerset.erase ∅ : Finset (Finset ℕ)) :=
    widenAt_injOn.mono fun positions h => Finset.mem_powerset.mp (Finset.mem_of_mem_erase h)
  calc (generalizations tags).length = (generalizations tags).toFinset.card :=
        (List.toFinset_card_of_nodup (nodup_generalizations tags)).symm
    _ = ((concrete tags).powerset.erase ∅).card := by rw [hset, Finset.card_image_of_injOn hinj]
    _ = 2 ^ (concrete tags).card - 1 := by
      rw [Finset.card_erase_of_mem (Finset.empty_mem_powerset _), Finset.card_powerset]

end Sets

/-- **The more general signatures, once each and in order.** For calls of at most eight arguments they
are the signatures that widen a nonempty set of the positions that are not `any`. There is one for each
such set, none stands there twice, and they are sorted by the number of widened positions and among
equally many by the leftmost positions that stay. For calls of more arguments there is only the
signature that is `any` throughout, and none if that is the call's own. -/
theorem generalizations_enumerate (tags : List Tag) :
    (tags.length ≤ 8 →
      (∀ signature, signature ∈ generalizations tags ↔
        ∃ positions ⊆ concrete tags, positions.Nonempty ∧ signature = widenAt tags positions) ∧
      (generalizations tags).length = 2 ^ (concrete tags).card - 1 ∧
      (generalizations tags).Nodup ∧
      (generalizations tags).Pairwise (MoreSpecific tags)) ∧
    (8 < tags.length →
      generalizations tags =
        if tags = List.replicate tags.length .any then [] else [List.replicate tags.length .any]) := by
  refine ⟨fun hlength => ⟨fun signature => mem_generalizations_iff hlength,
    length_generalizations hlength, nodup_generalizations tags,
    (pairwise_generalizations tags).of_cons⟩, fun hlong => ?_⟩
  rw [generalizations_eq, if_pos (show widestStepwise < tags.length from hlong)]

/-- A call with an `any` between two other tags has three generalizations; a call of nine integers has
one. -/
theorem generalizations_enumerate_anyBetween :
    [Tag.int, .any, .float].length ≤ 8 ∧
      generalizations [.int, .any, .float] =
        [[.int, .any, .any], [.any, .any, .float], [.any, .any, .any]] ∧
      [Tag.any, .any, .float] = widenAt [.int, .any, .float] {0} ∧
      [Tag.any, .any, .float] ∈ generalizations [.int, .any, .float] ∧
      (generalizations [.int, .any, .float]).length = 2 ^ (concrete [.int, .any, .float]).card - 1 ∧
      8 < (List.replicate 9 Tag.int).length ∧
      generalizations (List.replicate 9 .int) = [List.replicate 9 .any] := by
  obtain ⟨hmem, hlength, -, -⟩ := (generalizations_enumerate [.int, .any, .float]).1 (by decide)
  have hleft : [Tag.any, .any, .float] = widenAt [.int, .any, .float] {0} := by decide
  refine ⟨by decide, by decide, hleft, (hmem _).mpr ⟨{0}, by decide, by decide, hleft⟩, hlength,
    by decide, ?_⟩
  exact (generalizations_enumerate (List.replicate 9 .int)).2 (by decide)

end Retarget
