import Mathlib.Order.Bounds.Basic
import Retarget.Proofs.Types.Equality

set_option autoImplicit false

/-!
# Common types

Null is below every type and every type below `any`; the type of arrays with unknown items is above all
arrays. In this order the join of two types is the least type above both, up to the order of record
fields. So a row of types has one join, in whatever order and grouping it is formed.

## Main definitions

* `Retarget.Ty.Below` — the order of types.
* `Retarget.ProperTy` — the types with distinct fields, preordered.
* `Retarget.Ty.SameBounds` — rows of types with the same types above them.
* `Retarget.Ty.Joins` — a join of a row of types in some order and grouping.

## Main results

* `Retarget.ProperTy.isLUB_join` — the join is a least upper bound.
* `Retarget.Ty.join_comm_same`, `Retarget.Ty.join_assoc_same` — the laws that follow.
* `Retarget.Ty.Joins.same_joinAll` — every order and grouping gives the same join.
-/

namespace Retarget

namespace Ty

/-! ## Cases of the join -/

/-- Absence is always allowed. -/
lemma join_null (t : Ty) : t.join .null = t := by
  cases t with
  | array item => cases item <;> rfl
  | _ => rfl

/-- The type of null goes with any type. -/
lemma null_join (t : Ty) : Ty.null.join t = t := by
  cases t <;> rfl

/-- How two types have a common one. -/
lemma join_cases (a b : Ty) :
    (a.same b = true ∧ a.join b = a) ∨ (a = .null ∧ a.join b = b) ∨ (b = .null ∧ a.join b = a) ∨
      (∃ x y, a = .array x ∧ b = .array y ∧ a.join b = .array none) ∨ a.join b = .any := by
  unfold join
  split_ifs with hsame
  · exact .inl ⟨hsame, rfl⟩
  · split
    · exact .inr (.inl ⟨rfl, rfl⟩)
    · exact .inr (.inr (.inl ⟨rfl, rfl⟩))
    · exact .inr (.inr (.inr (.inl ⟨_, _, rfl, rfl, rfl⟩)))
    · exact .inr (.inr (.inr (.inr rfl)))

/-- Of two equal types the first one is the common type. -/
lemma join_of_same {a b : Ty} (h : a.same b = true) : a.join b = a :=
  if_pos h

/-- Arrays stay arrays. -/
lemma exists_array_join (x y : Option Ty) : ∃ z, (Ty.array x).join (.array y) = .array z := by
  rcases join_cases (.array x) (.array y) with ⟨-, h⟩ | ⟨h, -⟩ | ⟨h, -⟩ | ⟨_, _, -, -, h⟩ | h
  · exact ⟨x, h⟩
  · cases h
  · cases h
  · exact ⟨none, h⟩
  · unfold join at h
    split_ifs at h

section Distinct

variable {a b : Ty}

/-- The common type of types that name fields once does so. -/
lemma Distinct.join (ha : a.Distinct) (hb : b.Distinct) : (a.join b).Distinct := by
  rcases join_cases a b with ⟨-, h⟩ | ⟨-, h⟩ | ⟨-, h⟩ | ⟨_, _, -, -, h⟩ | h
  · rwa [h]
  · rwa [h]
  · rwa [h]
  · rw [h]
    exact .unknownItem
  · rw [h]
    exact distinct_any

/-- The common type of a row of types that name fields once does so. -/
lemma Distinct.joinAll {ts : List Ty} (h : ∀ t ∈ ts, t.Distinct) : (Ty.joinAll ts).Distinct := by
  cases ts with
  | nil => exact distinct_any
  | cons t ts =>
    rw [Ty.joinAll]
    induction ts generalizing t with
    | nil => exact h t List.mem_cons_self
    | cons u us ih =>
      rw [List.foldl_cons]
      refine ih _ (List.forall_mem_cons.mpr ⟨?_, fun v hv => h v (by simp [hv])⟩)
      exact (h t List.mem_cons_self).join (h u (by simp))

end Distinct

/-! ## The order of types -/

/-- Each value of the first type is one of the second, as far as types tell. -/
inductive Below : Ty → Ty → Prop
  | same {a b : Ty} : a.same b = true → Below a b
  | null {b : Ty} : Below .null b
  | any {a : Ty} : Below a .any
  | array {item : Option Ty} : Below (.array item) (.array none)

namespace Below

variable {a b c d : Ty}

/-- Every type is below itself. -/
lemma refl (ha : a.Distinct) : a.Below a := .same (same_refl ha)

/-- Nothing else is above the unknown type. -/
lemma eq_any (h : Ty.any.Below b) : b = .any := by
  cases h with
  | same h => exact (eq_of_tag (by decide) (by decide) (tag_of_same h)).symm
  | any => rfl

/-- Nothing but the unknown type is above the arrays of unknown items. -/
lemma of_unknownItem (h : (Ty.array none).Below b) : b = .array none ∨ b = .any := by
  cases h with
  | same h => exact .inl (unknownItem_same_iff.mp h)
  | any => exact .inr rfl
  | array => exact .inl rfl

/-- What is the same as an array is an array. -/
lemma eq_array {x : Option Ty} (h : a.same (.array x) = true) : ∃ y, a = .array y := by
  have htag := tag_of_same h
  cases a with
  | array y => exact ⟨y, rfl⟩
  | int | float | bool | string | date | dateTime | duration | record | function | null | any =>
    cases htag

/-- What is above a type is above all below it. -/
lemma trans (ha : a.Distinct) (h : a.Below b) (h' : b.Below c) : a.Below c := by
  cases h with
  | null => exact .null
  | any =>
    obtain rfl := h'.eq_any
    exact .any
  | array =>
    rcases h'.of_unknownItem with rfl | rfl
    · exact .array
    · exact .any
  | same hab =>
    cases h' with
    | same hbc => exact .same (same_trans ha hab hbc)
    | any => exact .any
    | null =>
      obtain rfl : a = .null := by
        have htag := tag_of_same hab
        cases a <;> first | rfl | cases htag
      exact .null
    | array =>
      obtain ⟨y, rfl⟩ := eq_array hab
      exact .array

/-- Types below each other are the same. -/
lemma antisymm (ha : a.Distinct) (hb : b.Distinct) (h : a.Below b) (h' : b.Below a) :
    a.same b = true := by
  cases h with
  | same h => exact h
  | any =>
    obtain rfl := h'.eq_any
    rfl
  | null =>
    cases h' with
    | same h' => exact same_symm hb ha h'
    | null => rfl
  | array =>
    rcases h'.of_unknownItem with h' | h'
    · cases h'
      rfl
    · cases h'

/-! ## The join in the order -/

/-- The common type is above the first type. -/
lemma join_left (ha : a.Distinct) (b : Ty) : a.Below (a.join b) := by
  rcases join_cases a b with ⟨-, h⟩ | ⟨rfl, -⟩ | ⟨-, h⟩ | ⟨x, y, rfl, rfl, h⟩ | h
  · rw [h]
    exact refl ha
  · exact .null
  · rw [h]
    exact refl ha
  · rw [h]
    exact .array
  · rw [h]
    exact .any

/-- The common type is above the second type. -/
lemma join_right (ha : a.Distinct) (hb : b.Distinct) : b.Below (a.join b) := by
  rcases join_cases a b with ⟨hsame, h⟩ | ⟨-, h⟩ | ⟨rfl, -⟩ | ⟨x, y, rfl, rfl, h⟩ | h
  · rw [h]
    exact .same (same_symm ha hb hsame)
  · rw [h]
    exact refl hb
  · exact .null
  · rw [h]
    exact .array
  · rw [h]
    exact .any

/-- The join is below whatever is above both types.

**Proof sketch.** By cases on how the two types are below `d`. Where both are the same as `d`, they are
the same as each other; where `d` is the type of arrays with unknown items, both are arrays or one is
null. -/
lemma join (ha : a.Distinct) (hb : b.Distinct) (hd : d.Distinct) (had : a.Below d)
    (hbd : b.Below d) : (a.join b).Below d := by
  have harrays (x y : Option Ty) : ((Ty.array x).join (.array y)).Below (.array none) := by
    obtain ⟨z, hz⟩ := exists_array_join x y
    rw [hz]
    exact .array
  cases had with
  | null => rwa [null_join]
  | any => exact .any
  | @array x =>
    cases hbd with
    | null =>
      rw [join_null]
      exact .array
    | array => exact harrays _ _
    | same hbd =>
      obtain ⟨y, rfl⟩ := eq_array hbd
      exact harrays _ _
  | same had =>
    cases hbd with
    | null =>
      rw [join_null]
      exact .same had
    | any => exact .any
    | same hbd =>
      rw [join_of_same (same_trans ha had (same_symm hb hd hbd))]
      exact .same had
    | @array y =>
      obtain ⟨x, rfl⟩ := eq_array had
      exact harrays _ _

end Below

section Bounds

variable {a b c d : Ty}

/-- The types above a join are those above both types. -/
lemma join_below_iff (ha : a.Distinct) (hb : b.Distinct) (hd : d.Distinct) :
    (a.join b).Below d ↔ a.Below d ∧ b.Below d :=
  ⟨fun h => ⟨(Below.join_left ha b).trans ha h, (Below.join_right ha hb).trans hb h⟩,
    fun h => h.1.join ha hb hd h.2⟩

/-- Types with the same types above them are the same. -/
lemma same_of_below_iff (ha : a.Distinct) (hb : b.Distinct)
    (h : ∀ d, d.Distinct → (a.Below d ↔ b.Below d)) : a.same b = true :=
  Below.antisymm ha hb ((h b hb).mpr (.refl hb)) ((h a ha).mp (.refl ha))

/-- The order of two types does not matter. -/
lemma join_comm_same (ha : a.Distinct) (hb : b.Distinct) : (a.join b).same (b.join a) = true := by
  refine same_of_below_iff (ha.join hb) (hb.join ha) fun d hd => ?_
  rw [join_below_iff ha hb hd, join_below_iff hb ha hd, and_comm]

/-- The grouping of three types does not matter. -/
lemma join_assoc_same (ha : a.Distinct) (hb : b.Distinct) (hc : c.Distinct) :
    ((a.join b).join c).same (a.join (b.join c)) = true := by
  refine same_of_below_iff ((ha.join hb).join hc) (ha.join (hb.join hc)) fun d hd => ?_
  rw [join_below_iff (ha.join hb) hc hd, join_below_iff ha hb hd,
    join_below_iff ha (hb.join hc) hd, join_below_iff hb hc hd, and_assoc]

/-- A type joined with itself stays. -/
lemma join_self (ha : a.Distinct) : a.join a = a :=
  join_of_same (same_refl ha)

/-- The types above the join of a row are those above all its types. -/
lemma joinAll_below_iff {ts : List Ty} (hne : ts ≠ []) (hts : ∀ t ∈ ts, t.Distinct)
    (hd : d.Distinct) : (joinAll ts).Below d ↔ ∀ t ∈ ts, t.Below d := by
  cases ts with
  | nil => exact absurd rfl hne
  | cons t ts =>
    rw [joinAll]
    induction ts generalizing t with
    | nil => simp
    | cons u us ih =>
      obtain ⟨ht, hts⟩ := List.forall_mem_cons.mp hts
      obtain ⟨hu, hus⟩ := List.forall_mem_cons.mp hts
      rw [List.foldl_cons, ih _ (List.cons_ne_nil _ _)
        (List.forall_mem_cons.mpr ⟨ht.join hu, hus⟩), List.forall_mem_cons, join_below_iff ht hu hd,
        List.forall_mem_cons, List.forall_mem_cons, and_assoc]

end Bounds

/-! ## Rows of types -/

/-- The same types are above all types of both rows. -/
def SameBounds (ts us : List Ty) : Prop :=
  ∀ d : Ty, d.Distinct → ((∀ t ∈ ts, t.Below d) ↔ ∀ u ∈ us, u.Below d)

namespace SameBounds

variable {ts us vs ts' us' : List Ty} {a b : Ty}

/-- A row of types has the bounds of itself. -/
lemma refl (ts : List Ty) : SameBounds ts ts := fun _ _ => Iff.rfl

/-- Two rows with the same bounds may be exchanged. -/
lemma symm (h : SameBounds ts us) : SameBounds us ts := fun d hd => (h d hd).symm

/-- Rows with the bounds of a third one have the same. -/
lemma trans (h : SameBounds ts us) (h' : SameBounds us vs) : SameBounds ts vs :=
  fun d hd => (h d hd).trans (h' d hd)

/-- The order of types does not matter for what is above them. -/
lemma of_perm (h : ts.Perm us) : SameBounds ts us :=
  fun _ _ => forall_congr' fun _ => by rw [h.mem_iff]

/-- What is above two rows is above both of them. -/
lemma append (h : SameBounds ts us) (h' : SameBounds ts' us') :
    SameBounds (ts ++ ts') (us ++ us') := fun d hd => by
  rw [List.forall_mem_append, List.forall_mem_append, h d hd, h' d hd]

/-- The common type of a row has the bounds of the row. -/
lemma joinAll (hne : ts ≠ []) (hts : ∀ t ∈ ts, t.Distinct) : SameBounds [Ty.joinAll ts] ts :=
  fun d hd => by rw [List.forall_mem_singleton, joinAll_below_iff hne hts hd]

/-- Types with the same bounds are equal. -/
lemma same (h : SameBounds [a] [b]) (ha : a.Distinct) (hb : b.Distinct) : a.same b = true :=
  same_of_below_iff ha hb fun d hd => by simpa using h d hd

end SameBounds

/-- The order of a row does not matter to its join. -/
lemma same_joinAll_of_perm {ts us : List Ty} (h : ts.Perm us) (hts : ∀ t ∈ ts, t.Distinct) :
    (joinAll ts).same (joinAll us) = true := by
  by_cases hne : ts = []
  · subst hne
    rw [List.nil_perm.mp h]
    rfl
  · have hne' : us ≠ [] := fun hus => hne (hus ▸ h).eq_nil
    have hus : ∀ u ∈ us, u.Distinct := fun u hu => hts u (h.mem_iff.mpr hu)
    have hbounds := (SameBounds.joinAll hne hts).trans (.of_perm h)
    exact (hbounds.trans (SameBounds.joinAll hne' hus).symm).same (.joinAll hts) (.joinAll hus)

/-- The type comes of joining all types of the row, two at a time, in some order and grouping. -/
inductive Joins : List Ty → Ty → Prop
  | one (t : Ty) : Joins [t] t
  | join {ts us : List Ty} {a b : Ty} : Joins ts a → Joins us b → Joins (ts ++ us) (a.join b)
  | perm {ts us : List Ty} {a : Ty} : ts.Perm us → Joins ts a → Joins us a

namespace Joins

variable {ts : List Ty} {a : Ty}

/-- A type that comes of joining a row needs a type in it. -/
lemma ne_nil (h : Joins ts a) : ts ≠ [] := by
  induction h with
  | one t => exact List.cons_ne_nil _ _
  | join _ _ ih _ => exact List.append_ne_nil_of_left_ne_nil ih _
  | perm hperm _ ih => exact fun hnil => ih (hperm.trans (hnil ▸ .refl _)).eq_nil

/-- What comes of joining types that name fields once does so. -/
lemma distinct (h : Joins ts a) (hts : ∀ t ∈ ts, t.Distinct) : a.Distinct := by
  induction h with
  | one t => exact hts t List.mem_cons_self
  | join _ _ ih ih' =>
    obtain ⟨hleft, hright⟩ := List.forall_mem_append.mp hts
    exact (ih hleft).join (ih' hright)
  | perm hperm _ ih => exact ih fun t ht => hts t (hperm.mem_iff.mp ht)

/-- What comes of joining a row has the bounds of the row. -/
lemma sameBounds (h : Joins ts a) (hts : ∀ t ∈ ts, t.Distinct) : SameBounds [a] ts := by
  induction h with
  | one t => exact .refl _
  | join h h' ih ih' =>
    obtain ⟨hleft, hright⟩ := List.forall_mem_append.mp hts
    refine fun d hd => ?_
    rw [List.forall_mem_singleton, join_below_iff (h.distinct hleft) (h'.distinct hright) hd,
      List.forall_mem_append, ← ih hleft d hd, ← ih' hright d hd, List.forall_mem_singleton,
      List.forall_mem_singleton]
  | perm hperm _ ih => exact (ih fun t ht => hts t (hperm.mem_iff.mp ht)).trans (.of_perm hperm)

/-- Every order and grouping gives the join from left to right. -/
lemma same_joinAll (h : Joins ts a) (hts : ∀ t ∈ ts, t.Distinct) :
    a.same (joinAll ts) = true :=
  ((h.sameBounds hts).trans (SameBounds.joinAll h.ne_nil hts).symm).same (h.distinct hts)
    (.joinAll hts)

end Joins

end Ty

/-! ## Least upper bounds -/

/-- A type that names the fields of each of its records once. -/
structure ProperTy where
  ty : Ty
  distinct : ty.Distinct

namespace ProperTy

instance : Preorder ProperTy where
  le a b := a.ty.Below b.ty
  le_refl a := .refl a.distinct
  le_trans a _ _ h h' := h.trans a.distinct h'

/-- The common type of two branches. -/
def join (a b : ProperTy) : ProperTy := ⟨a.ty.join b.ty, a.distinct.join b.distinct⟩

/-- The common type is the least one above both types. -/
lemma join_le_iff {a b d : ProperTy} : a.join b ≤ d ↔ a ≤ d ∧ b ≤ d :=
  Ty.join_below_iff a.distinct b.distinct d.distinct

/-- The join of two types is the least type above both. -/
lemma isLUB_join (a b : ProperTy) : IsLUB {a, b} (a.join b) :=
  isLUB_iff_le_iff.mpr fun d => by rw [join_le_iff, upperBounds_insert, upperBounds_singleton]; rfl

/-- Sameness of types is an equivalence. -/
lemma equivalence_same : Equivalence fun a b : ProperTy => a.ty.same b.ty = true where
  refl a := Ty.same_refl a.distinct
  symm {a b} h := Ty.same_symm a.distinct b.distinct h
  trans {a _ _} h h' := Ty.same_trans a.distinct h h'

/-- Types are below each other exactly where they are the same. -/
lemma antisymmRel_iff {a b : ProperTy} : AntisymmRel (· ≤ ·) a b ↔ a.ty.same b.ty = true :=
  ⟨fun h => Ty.Below.antisymm a.distinct b.distinct h.1 h.2,
    fun h => ⟨.same h, .same (Ty.same_symm a.distinct b.distinct h)⟩⟩

end ProperTy

end Retarget
