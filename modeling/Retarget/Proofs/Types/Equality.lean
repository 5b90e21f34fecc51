import Mathlib.Data.List.Nodup
import Mathlib.Data.List.Perm.Subperm
import Mathlib.Tactic.Common
import Retarget.Ty

set_option autoImplicit false

/-!
# Sameness of types

Two record types are the same where each field of one stands in the other with the same type, at any
depth. As long as a record names each field once, this is an equivalence: the one that disregards the
order of fields and nothing else.

## Main definitions

* `Retarget.Ty.Distinct` — every record in a type names its fields once.
* `Retarget.Ty.Reordered` — a type and the same type with some fields moved.

## Main results

* `Retarget.Ty.same_refl`, `Retarget.Ty.same_symm`, `Retarget.Ty.same_trans` — sameness is an
  equivalence.
* `Retarget.Ty.same_iff_reordered` — types are the same where they differ by the order of fields.
-/

namespace Retarget

namespace Ty

/-! ## Types with distinct fields -/

/-- Every record in the type, at any depth, names each of its fields once. -/
inductive Distinct : Ty → Prop
  /-- A type without parts. -/
  | single {t : Ty} : t.tag ≠ .array → t.tag ≠ .record → Distinct t
  | unknownItem : Distinct (.array none)
  | array {item : Ty} : Distinct item → Distinct (.array (some item))
  | record {fields : List (String × Ty)} : (fields.map Prod.fst).Nodup →
      (∀ f ∈ fields, Distinct f.2) → Distinct (.record fields)

/-- The unknown type has no records. -/
lemma distinct_any : Distinct .any := .single nofun nofun

/-- The type of truth values has no records. -/
lemma distinct_bool : Distinct .bool := .single nofun nofun

/-- An array names fields once where its items do. -/
lemma distinct_array_iff {item : Ty} : Distinct (.array (some item)) ↔ item.Distinct := by
  refine ⟨fun h => ?_, .array⟩
  cases h with
  | single harray _ => exact absurd rfl harray
  | array hitem => exact hitem

/-- A record names fields once where its own names are distinct and its fields do. -/
lemma distinct_record_iff {fields : List (String × Ty)} : Distinct (.record fields) ↔
    (fields.map Prod.fst).Nodup ∧ ∀ f ∈ fields, f.2.Distinct := by
  refine ⟨fun h => ?_, fun h => .record h.1 h.2⟩
  cases h with
  | single _ hrecord => exact absurd rfl hrecord
  | record hnames hfields => exact ⟨hnames, hfields⟩

/-- Where names are distinct, a field is found under its name. -/
lemma lookup_of_mem {fields : List (String × Ty)} (h : (fields.map Prod.fst).Nodup) {name : String}
    {t : Ty} (hmem : (name, t) ∈ fields) : fields.lookup name = some t := by
  obtain ⟨before, after, rfl⟩ := List.append_of_mem hmem
  refine List.lookup_eq_some_iff.mpr ⟨before, after, rfl, fun p hp => bne_iff_ne.mpr ?_⟩
  rintro rfl
  rw [List.map_append, List.map_cons] at h
  exact (List.nodup_append.mp h).2.2 _ (List.mem_map_of_mem hp) _ List.mem_cons_self rfl

/-- A field that is found is one of the record. -/
lemma mem_of_lookup {fields : List (String × Ty)} {name : String} {t : Ty}
    (h : fields.lookup name = some t) : (name, t) ∈ fields := by
  obtain ⟨before, after, rfl, -⟩ := List.lookup_eq_some_iff.mp h
  exact List.mem_append_right _ List.mem_cons_self

/-! ## Sameness by shape -/

section Shapes

variable {a b : Ty}

/-- Types that are the same have one shape. -/
lemma tag_of_same (h : a.same b = true) : a.tag = b.tag := by
  cases a <;> cases b <;> first | rfl | simp [same, tag] at h

/-- A type without parts is given by its shape. -/
lemma eq_of_tag (harray : a.tag ≠ .array) (hrecord : a.tag ≠ .record) (h : a.tag = b.tag) :
    a = b := by
  cases a <;> cases b <;> first | rfl | exact absurd rfl harray | exact absurd rfl hrecord | cases h

/-- A type without parts equals itself. -/
lemma same_self_of_single (harray : a.tag ≠ .array) (hrecord : a.tag ≠ .record) :
    a.same a = true := by
  cases a <;> first | rfl | exact absurd rfl harray | exact absurd rfl hrecord

/-- An array of unknown items equals only itself. -/
lemma unknownItem_same_iff : (Ty.array none).same b = true ↔ b = .array none := by
  constructor
  · intro h
    match b, h with
    | .array none, _ => rfl
  · rintro rfl
    rfl

/-- An array equals the arrays whose items equal its own. -/
lemma array_same_iff : (Ty.array (some a)).same b = true ↔
    ∃ item, b = .array (some item) ∧ a.same item = true := by
  constructor
  · intro h
    match b, h with
    | .array (some item), h => exact ⟨item, rfl, h⟩
  · rintro ⟨item, rfl, h⟩
    exact h

/-- Fields equal others where each of them finds an equal one of its name. -/
lemma sameFields_iff {fields others : List (String × Ty)} : sameFields fields others = true ↔
    ∀ f ∈ fields, ∃ u, others.lookup f.1 = some u ∧ f.2.same u = true := by
  induction fields with
  | nil => simp [sameFields]
  | cons f fields ih =>
    obtain ⟨name, t⟩ := f
    rw [sameFields, Bool.and_eq_true, ih, List.forall_mem_cons]
    cases others.lookup name <;> simp

/-- A record is the same as those with as many fields that have its fields with the same types. -/
lemma record_same_iff {fields : List (String × Ty)} : (Ty.record fields).same b = true ↔
    ∃ others, b = .record others ∧ fields.length = others.length ∧
      ∀ f ∈ fields, ∃ u, others.lookup f.1 = some u ∧ f.2.same u = true := by
  constructor
  · intro h
    match b, h with
    | .record others, h =>
      rw [same, Bool.and_eq_true, beq_iff_eq, sameFields_iff] at h
      exact ⟨others, rfl, h⟩
  · rintro ⟨others, rfl, h⟩
    rw [same, Bool.and_eq_true, beq_iff_eq, sameFields_iff]
    exact h

end Shapes

/-! ## An equivalence -/

/-- Every type is the same as itself. -/
lemma same_refl {a : Ty} (ha : a.Distinct) : a.same a = true := by
  induction ha with
  | single harray hrecord => exact same_self_of_single harray hrecord
  | unknownItem => rfl
  | array _ ih => exact array_same_iff.mpr ⟨_, rfl, ih⟩
  | record hnames _ ih =>
    exact record_same_iff.mpr ⟨_, rfl, rfl, fun f hf => ⟨f.2, lookup_of_mem hnames hf, ih f hf⟩⟩

/-- Sameness carries over: a field that the first record has, with its type, is one of the second
record and so one of the third.

**Proof sketch.** By induction on the first type, along the fields of records. -/
lemma same_trans {a b c : Ty} (ha : a.Distinct) (hab : a.same b = true) (hbc : b.same c = true) :
    a.same c = true := by
  induction ha generalizing b c with
  | single harray hrecord =>
    obtain rfl := eq_of_tag harray hrecord (tag_of_same hab)
    exact hbc
  | unknownItem =>
    obtain rfl := unknownItem_same_iff.mp hab
    exact hbc
  | array _ ih =>
    obtain ⟨item, rfl, hitem⟩ := array_same_iff.mp hab
    obtain ⟨item', rfl, hitem'⟩ := array_same_iff.mp hbc
    exact array_same_iff.mpr ⟨item', rfl, ih hitem hitem'⟩
  | record _ _ ih =>
    obtain ⟨others, rfl, hlength, hfields⟩ := record_same_iff.mp hab
    obtain ⟨others', rfl, hlength', hfields'⟩ := record_same_iff.mp hbc
    refine record_same_iff.mpr ⟨others', rfl, hlength.trans hlength', fun f hf => ?_⟩
    obtain ⟨u, hu, hsame⟩ := hfields f hf
    obtain ⟨v, hv, hsame'⟩ := hfields' _ (mem_of_lookup hu)
    exact ⟨v, hv, ih f hf hsame hsame'⟩

/-- Two records of as many fields, one of which has all names of the other, have the same names. -/
lemma names_perm {fields others : List (String × Ty)} (hnames : (fields.map Prod.fst).Nodup)
    (hlength : fields.length = others.length)
    (hfields : ∀ f ∈ fields, ∃ u, others.lookup f.1 = some u ∧ f.2.same u = true) :
    (fields.map Prod.fst).Perm (others.map Prod.fst) := by
  refine (List.subperm_of_subset hnames fun name hname => ?_).perm_of_length_le (by simp [hlength])
  obtain ⟨f, hf, rfl⟩ := List.mem_map.mp hname
  obtain ⟨u, hu, -⟩ := hfields f hf
  exact List.mem_map.mpr ⟨(f.1, u), mem_of_lookup hu, rfl⟩

/-- Sameness goes both ways: a record with as many fields has no field that the other has not.

**Proof sketch.** By induction on the first type. Records are compared by the fields of the first
one; as they have as many and their names are distinct, the names are the same up to order
(`names_perm`), so every field of the second one is found too. -/
lemma same_symm {a b : Ty} (ha : a.Distinct) (hb : b.Distinct) (h : a.same b = true) :
    b.same a = true := by
  induction ha generalizing b with
  | single harray hrecord =>
    obtain rfl := eq_of_tag harray hrecord (tag_of_same h)
    exact h
  | unknownItem =>
    obtain rfl := unknownItem_same_iff.mp h
    exact h
  | array _ ih =>
    obtain ⟨item, rfl, hitem⟩ := array_same_iff.mp h
    exact array_same_iff.mpr ⟨_, rfl, ih (distinct_array_iff.mp hb) hitem⟩
  | @record fields hnames _ ih =>
    obtain ⟨others, rfl, hlength, hfields⟩ := record_same_iff.mp h
    obtain ⟨hnames', hothers⟩ := distinct_record_iff.mp hb
    refine record_same_iff.mpr ⟨fields, rfl, hlength.symm, fun g hg => ?_⟩
    have hname : g.1 ∈ fields.map Prod.fst :=
      (names_perm hnames hlength hfields).mem_iff.mpr (List.mem_map_of_mem hg)
    obtain ⟨f, hf, hfg⟩ := List.mem_map.mp hname
    obtain ⟨u, hu, hsame⟩ := hfields f hf
    obtain rfl : g.2 = u := by
      rw [hfg, lookup_of_mem hnames' hg] at hu
      exact Option.some.inj hu
    exact ⟨f.2, hfg ▸ lookup_of_mem hnames hf, ih f hf (hothers g hg) hsame⟩

/-! ## The order of fields -/

/-- The second type is the first one with fields of records moved, at any depth. -/
inductive Reordered : Ty → Ty → Prop
  | refl (t : Ty) : Reordered t t
  | trans {a b c : Ty} : Reordered a b → Reordered b c → Reordered a c
  /-- The fields of a record change places. -/
  | fields {fields others : List (String × Ty)} : fields.Perm others →
      Reordered (.record fields) (.record others)
  | item {a b : Ty} : Reordered a b → Reordered (.array (some a)) (.array (some b))
  | field {before after : List (String × Ty)} {name : String} {a b : Ty} : Reordered a b →
      Reordered (.record (before ++ (name, a) :: after)) (.record (before ++ (name, b) :: after))

/-- Moving fields keeps their names. -/
lemma Reordered.distinct {a b : Ty} (h : Reordered a b) (ha : a.Distinct) : b.Distinct := by
  induction h with
  | refl => exact ha
  | trans _ _ ih ih' => exact ih' (ih ha)
  | fields hperm =>
    obtain ⟨hnames, hfields⟩ := distinct_record_iff.mp ha
    exact .record ((hperm.map _).nodup_iff.mp hnames) fun f hf => hfields f (hperm.mem_iff.mpr hf)
  | item _ ih => exact .array (ih (distinct_array_iff.mp ha))
  | @field before after name a b _ ih =>
    obtain ⟨hnames, hfields⟩ := distinct_record_iff.mp ha
    refine .record (by simpa using hnames) fun f hf => ?_
    rw [List.mem_append, List.mem_cons] at hf
    rcases hf with hf | rfl | hf
    · exact hfields f (List.mem_append_left _ hf)
    · exact ih (hfields (name, a) (List.mem_append_right _ List.mem_cons_self))
    · exact hfields f (List.mem_append_right _ (List.mem_cons_of_mem _ hf))

/-- Moving fields gives the same type.

**Proof sketch.** By induction on the moves. A move keeps the names distinct, so that looking a
field up by its name finds it wherever it stands. -/
lemma Reordered.same {a b : Ty} (h : Reordered a b) (ha : a.Distinct) : a.same b = true := by
  induction h with
  | refl => exact same_refl ha
  | trans h _ ih ih' => exact same_trans ha (ih ha) (ih' (h.distinct ha))
  | fields hperm =>
    obtain ⟨hnames, hfields⟩ := distinct_record_iff.mp ha
    refine record_same_iff.mpr ⟨_, rfl, hperm.length_eq, fun f hf => ?_⟩
    have hnames' := (hperm.map _).nodup_iff.mp hnames
    exact ⟨f.2, lookup_of_mem hnames' (hperm.mem_iff.mp hf), same_refl (hfields f hf)⟩
  | item _ ih => exact array_same_iff.mpr ⟨_, rfl, ih (distinct_array_iff.mp ha)⟩
  | @field before after name a b hab ih =>
    obtain ⟨hnames', -⟩ := distinct_record_iff.mp ((Reordered.field hab).distinct ha)
    obtain ⟨-, hfields⟩ := distinct_record_iff.mp ha
    refine record_same_iff.mpr ⟨_, rfl, by simp, fun f hf => ?_⟩
    have hsame := same_refl (hfields f hf)
    have hcases := hf
    rw [List.mem_append, List.mem_cons] at hcases
    rcases hcases with hf' | rfl | hf'
    · exact ⟨f.2, lookup_of_mem hnames' (List.mem_append_left _ hf'), hsame⟩
    · exact ⟨b, lookup_of_mem hnames' (List.mem_append_right _ List.mem_cons_self),
        ih (hfields _ hf)⟩
    · exact ⟨f.2, lookup_of_mem hnames' (List.mem_append_right _ (List.mem_cons_of_mem _ hf')),
        hsame⟩

/-- Fields in one order, each with its type rearranged. -/
lemma Reordered.fieldwise {fields others : List (String × Ty)}
    (h : List.Forall₂ (fun f g => f.1 = g.1 ∧ Reordered f.2 g.2) fields others)
    (before : List (String × Ty)) :
    Reordered (.record (before ++ fields)) (.record (before ++ others)) := by
  induction h generalizing before with
  | nil => exact .refl _
  | @cons f g fields others hfg _ ih =>
    obtain ⟨name, t⟩ := f
    obtain ⟨name', u⟩ := g
    obtain ⟨rfl : name = name', htu⟩ := hfg
    have hrest := ih (before ++ [(name, u)])
    rw [List.append_assoc, List.append_assoc] at hrest
    exact .trans (.field htu) hrest

/-- Types are the same exactly where they differ by the order of fields, at any depth.

**Proof sketch.** The fields of the second record, taken in the order of the first one, are a
rearrangement of the second record, and they have the types of the first one up to the order of
fields. -/
lemma same_iff_reordered {a b : Ty} (ha : a.Distinct) (hb : b.Distinct) :
    a.same b = true ↔ Reordered a b := by
  refine ⟨fun h => ?_, fun h => h.same ha⟩
  induction ha generalizing b with
  | single harray hrecord =>
    obtain rfl := eq_of_tag harray hrecord (tag_of_same h)
    exact .refl _
  | unknownItem =>
    obtain rfl := unknownItem_same_iff.mp h
    exact .refl _
  | array _ ih =>
    obtain ⟨item, rfl, hitem⟩ := array_same_iff.mp h
    exact .item (ih (distinct_array_iff.mp hb) hitem)
  | @record fields hnames _ ih =>
    obtain ⟨others, rfl, hlength, hfields⟩ := record_same_iff.mp h
    obtain ⟨-, hothers⟩ := distinct_record_iff.mp hb
    let paired : List (String × Ty) := fields.map fun f => (f.1, (others.lookup f.1).getD .any)
    have hpaired : List.Forall₂ (fun f g => f.1 = g.1 ∧ Reordered f.2 g.2) fields paired := by
      rw [List.forall₂_map_right_iff, List.forall₂_same]
      intro f hf
      obtain ⟨u, hu, hsame⟩ := hfields f hf
      rw [hu]
      exact ⟨rfl, ih f hf (hothers _ (mem_of_lookup hu)) hsame⟩
    have hsub : paired ⊆ others := by
      intro g hg
      obtain ⟨f, hf, rfl⟩ := List.mem_map.mp hg
      obtain ⟨u, hu, -⟩ := hfields f hf
      rw [hu]
      exact mem_of_lookup hu
    have hnodup : paired.Nodup := by
      refine List.Nodup.of_map Prod.fst ?_
      simpa [paired, List.map_map, Function.comp_def] using hnames
    have hperm : paired.Perm others :=
      (List.subperm_of_subset hnodup hsub).perm_of_length_le (by simp [paired, hlength])
    exact .trans (Reordered.fieldwise hpaired []) (.fields hperm)

end Ty

end Retarget
