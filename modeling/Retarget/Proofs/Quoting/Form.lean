import Retarget.Proofs.Dispatch
import Retarget.Proofs.Quoting.Pieces
import Retarget.Target

set_option autoImplicit false

/-!
# Sealed calls

Writing a call from arguments whose codes are sealed gives sealed code, in which the codes of the
arguments that the form writes stand outside of constants. What the text of a form must satisfy for
that can be checked form by form.

## Main definitions

* `Retarget.Emit.Succeeds`, `Retarget.Emit.Notes` — writing succeeds with the given result, and notes
  the given helpers.
* `Retarget.Quoting.Writes` — sealed code in which the codes of the arguments stand.
* `Retarget.Form.written` — the arguments that a form writes.
* `Retarget.Form.isSound` — the check of the text of a form.

## Main results

* `Retarget.Form.writes_emit` — a form with sound text writes its arguments.
-/

namespace Retarget

open Quoting

/-! ## Writing that succeeds -/

namespace Emit

variable {α β : Type} {names : Bindings}

/-- Writing succeeds with the given result, where the given names are bound. -/
def Succeeds (m : Emit α) (names : Bindings) (a : α) : Prop := (m names).outcome = .ok a

/-- A value is what it comes to. -/
@[simp] lemma succeeds_pure {a b : α} : (pure a : Emit α).Succeeds names b ↔ a = b :=
  ⟨fun h => Except.ok.inj h, fun h => h ▸ rfl⟩

/-- Computations in turn succeed where each of them does. -/
@[simp] lemma succeeds_bind {m : Emit α} {f : α → Emit β} {b : β} :
    (m >>= f).Succeeds names b ↔ ∃ a, m.Succeeds names a ∧ (f a).Succeeds names b := by
  unfold Succeeds
  rcases hwritten : m names with ⟨outcome, helpers⟩
  simp only [Bind.bind, hwritten]
  cases outcome with
  | error e => simp
  | ok a => simp

/-- Noting a helper succeeds. -/
@[simp] lemma succeeds_require {helper : String} {u : Unit} :
    (require helper).Succeeds names u ↔ True :=
  iff_true_intro rfl

/-- Noting helpers succeeds. -/
@[simp] lemma succeeds_requireAll {helpers : List String} {u : Unit} :
    (requireAll helpers).Succeeds names u ↔ True :=
  iff_true_intro rfl

/-- An error does not succeed. -/
@[simp] lemma succeeds_fail {e : CompileError} {a : α} :
    (fail e : Emit α).Succeeds names a ↔ False :=
  iff_false_intro nofun

/-- Looking up a name finds what it stands for. -/
@[simp] lemma succeeds_lookup {name : String} {found : Option Fragment} :
    (lookup name).Succeeds names found ↔ names.lookup name = found :=
  ⟨fun h => Except.ok.inj h, fun h => h ▸ rfl⟩

/-- Where a name is bound a computation sees what it stands for. -/
@[simp] lemma succeeds_binding {name : String} {fragment : Fragment} {m : Emit α} {a : α} :
    (binding name fragment m).Succeeds names a ↔ m.Succeeds ((name, fragment) :: names) a :=
  Iff.rfl

/-- Writing succeeds with the given result and notes the helpers, where the given names are
bound. -/
def Notes (m : Emit α) (names : Bindings) (a : α) (helpers : List String) : Prop :=
  m names = ⟨.ok a, helpers⟩

/-- A value notes no helper. -/
@[simp] lemma notes_pure {a b : α} {helpers : List String} :
    (pure a : Emit α).Notes names b helpers ↔ a = b ∧ [] = helpers := by
  simp [Notes, pure]

/-- Of two computations in turn the helpers of the first one are noted first. -/
@[simp] lemma notes_bind {m : Emit α} {f : α → Emit β} {b : β} {helpers : List String} :
    (m >>= f).Notes names b helpers ↔
      ∃ a before, m.Notes names a before ∧ ∃ after, (f a).Notes names b after ∧
        before ++ after = helpers := by
  unfold Notes
  rcases hwritten : m names with ⟨outcome, before⟩
  simp only [Bind.bind, hwritten]
  cases outcome with
  | error e => simp
  | ok a =>
    rcases hnext : f a names with ⟨result, after⟩
    simp only [hnext, Emission.mk.injEq, Except.ok.injEq]
    constructor
    · rintro ⟨rfl, rfl⟩
      exact ⟨a, before, ⟨rfl, rfl⟩, after, hnext, rfl⟩
    · rintro ⟨_, _, ⟨rfl, rfl⟩, after', hafter, rfl⟩
      rw [hnext] at hafter
      cases hafter
      exact ⟨rfl, rfl⟩

/-- Noting helpers notes these. -/
@[simp] lemma notes_requireAll {noted helpers : List String} {u : Unit} :
    (requireAll noted).Notes names u helpers ↔ noted = helpers := by
  simp [Notes, requireAll]

/-- Noting a helper notes this one. -/
@[simp] lemma notes_require {helper : String} {helpers : List String} {u : Unit} :
    (require helper).Notes names u helpers ↔ [helper] = helpers :=
  notes_requireAll

/-- An error has no result. -/
@[simp] lemma notes_fail {e : CompileError} {a : α} {helpers : List String} :
    (fail e : Emit α).Notes names a helpers ↔ False :=
  iff_false_intro nofun

/-- Looking up a name notes no helper. -/
@[simp] lemma notes_lookup {name : String} {found : Option Fragment} {helpers : List String} :
    (lookup name).Notes names found helpers ↔ names.lookup name = found ∧ [] = helpers := by
  simp [Notes, lookup]

/-- Where a name is bound a computation notes what it notes there. -/
@[simp] lemma notes_binding {name : String} {fragment : Fragment} {m : Emit α} {a : α}
    {helpers : List String} : (binding name fragment m).Notes names a helpers ↔
      m.Notes ((name, fragment) :: names) a helpers :=
  Iff.rfl

end Emit

/-! ## Arguments -/

/-- The code of the argument, where writing it succeeds. -/
def Operand.Yields (names : Bindings) (o : Operand) (code : String) : Prop :=
  ∃ fragment, o.fragment.Succeeds names fragment ∧ fragment.code = code

/-- The code of the argument is sealed, where writing it succeeds. -/
def Operand.Sound (q : Quoting) (names : Bindings) (o : Operand) : Prop :=
  ∀ fragment, o.fragment.Succeeds names fragment → q.IsSealed fragment.code

/-- Sealed code in which the codes of the arguments stand outside of constants. -/
def Quoting.Writes (q : Quoting) (names : Bindings) (os : List Operand) (code : String) : Prop :=
  q.Carries (Operand.Yields names) os code

section Arguments

attribute [simp] List.Subperm.refl

variable {q : Quoting} {names : Bindings} {o : Operand} {os : List Operand}

/-- Fewer of the arguments, in any order. -/
lemma Quoting.Writes.mono {code : String} (h : q.Writes names os code) {some : List Operand}
    (hsome : some.Subperm os) : q.Writes names some code := by
  obtain ⟨hsealed, ws, hseals, hholds⟩ := h
  exact ⟨hsealed, ws, hseals, hholds.mono hsome⟩

/-- Sealed code writes nothing that it need not. -/
lemma Quoting.IsSealed.writes {code : String} (h : q.IsSealed code) (names : Bindings) :
    q.Writes names [] code := by
  obtain ⟨ps, hps⟩ := h
  exact ⟨⟨ps, hps⟩, ps, hps, .nil q _ ps⟩

/-- A sound argument writes itself. -/
lemma Operand.Sound.writes (ho : o.Sound q names) {fragment : Fragment}
    (h : o.fragment.Succeeds names fragment) : q.Writes names [o] fragment.code := by
  obtain ⟨ps, hps⟩ := ho fragment h
  exact ⟨⟨ps, hps⟩, ps, hps, hps.holds ⟨fragment, h, rfl⟩⟩

/-- The code of a sound argument writes it. -/
lemma Operand.Sound.writes_code (ho : o.Sound q names) {code : String}
    (h : o.code.Succeeds names code) : q.Writes names [o] code := by
  simp only [Operand.code, Emit.succeeds_bind, Emit.succeeds_pure] at h
  obtain ⟨fragment, hfragment, rfl⟩ := h
  exact ho.writes hfragment

/-- Codes and text that fit write all that the codes write. -/
lemma Quoting.writes_of_parts (parts : List (Part Operand)) {code : String}
    (hfits : fits [] true parts = true) (hcode : code.toList = parts.flatMap Part.chars)
    (hparts : parts.Forall (Part.Sound q (Operand.Yields names)))
    (hos : os.Subperm (parts.flatMap Part.carried)) : q.Writes names os code := by
  have hall : q.Writes names (parts.flatMap Part.carried) code :=
    carries_of_fits hfits hcode hparts
  exact hall.mono hos

/-- Text before and behind a code. -/
lemma Quoting.Writes.enclosed {code : String} (h : q.Writes names os code)
    (opening closing : String) (hframes : frames opening closing = true) :
    q.Writes names os (opening ++ code ++ closing) :=
  writes_of_parts [.text opening, .code code os, .text closing] hframes
    (by simp [Part.chars]) ⟨trivial, h, trivial⟩ (by simp [Part.carried])

/-- Text between two codes. -/
lemma Quoting.Writes.separated {os' : List Operand} {a b mark : String}
    (ha : q.Writes names os a) (hmark : separates mark = true) (hb : q.Writes names os' b) :
    q.Writes names (os ++ os') (a ++ mark ++ b) :=
  writes_of_parts [.code a os, .text mark, .code b os'] hmark (by simp [Part.chars])
    ⟨ha, trivial, hb⟩ (by simp [Part.carried])

/-- Parentheses around a code. -/
lemma Quoting.Writes.parens {code : String} (h : q.Writes names os code) :
    q.Writes names os ("(" ++ code ++ ")") :=
  h.enclosed "(" ")" (by rfl)

/-- A code as it is written on a side of an operator. -/
lemma Quoting.Writes.wrap {fragment : Fragment}
    (h : q.Writes names os fragment.code) (table : PrecedenceTable) (outer : String)
    (side : Side) : q.Writes names os (table.wrap fragment outer side) := by
  unfold PrecedenceTable.wrap
  split_ifs
  · exact h.parens
  · exact h

/-- The code of a sound argument on a side of an operator writes it. -/
lemma Operand.Sound.writes_wrapped (ho : o.Sound q names)
    {table : PrecedenceTable} {outer : String} {side : Side} {code : String}
    (h : (o.wrapped table outer side).Succeeds names code) : q.Writes names [o] code := by
  simp only [Operand.wrapped, Emit.succeeds_bind, Emit.succeeds_pure] at h
  obtain ⟨fragment, hfragment, rfl⟩ := h
  exact (ho.writes hfragment).wrap table outer side

/-! ## Rows of codes -/

/-- No codes with commas between them. -/
@[simp] lemma commaSeparated_nil : commaSeparated [] = "" := rfl

/-- One code has no comma. -/
@[simp] lemma commaSeparated_singleton (c : String) : commaSeparated [c] = c := by
  simp [commaSeparated]

/-- A comma stands behind the first of several codes. -/
lemma commaSeparated_cons_cons (c d : String) (cs : List String) :
    commaSeparated (c :: d :: cs) = c ++ ", " ++ commaSeparated (d :: cs) :=
  String.intercalate_cons_cons

/-- Codes with commas between them write what each of them writes. -/
lemma Quoting.writes_commaSeparated {groups : List (List Operand)}
    {cs : List String} (h : List.Forall₂ (q.Writes names) groups cs) :
    q.Writes names groups.flatten (commaSeparated cs) := by
  induction h with
  | nil => exact (isSealed_of_isBare (by decide)).writes names
  | @cons os c groups cs hc hcs ih =>
    cases hcs with
    | nil => simpa using hc
    | @cons os' d groups cs hd hcs =>
      rw [commaSeparated_cons_cons]
      exact hc.separated (by decide) ih

/-- The codes of arguments write one argument each. -/
lemma forall₂_codes (hos : ∀ o ∈ os, o.Sound q names) {cs : List String}
    (h : (codes os).Succeeds names cs) :
    List.Forall₂ (q.Writes names) (os.map ([·])) cs := by
  induction os generalizing cs with
  | nil =>
    simp only [codes, Emit.succeeds_pure] at h
    subst h
    exact .nil
  | cons o os ih =>
    obtain ⟨ho, hrest⟩ := List.forall_mem_cons.mp hos
    simp only [codes, Emit.succeeds_bind, Emit.succeeds_pure] at h
    obtain ⟨c, hc, cs, hcs, rfl⟩ := h
    exact .cons (ho.writes_code hc) (ih hrest hcs)

/-- A row of arguments, each in a row of its own. -/
lemma flatten_map_singleton (os : List Operand) : (os.map ([·])).flatten = os := by
  induction os with
  | nil => rfl
  | cons o os ih => simp [ih]

/-- The codes of sound arguments with commas between them write the arguments. -/
lemma writes_codeList (hos : ∀ o ∈ os, o.Sound q names) {code : String}
    (h : (codeList os).Succeeds names code) : q.Writes names os code := by
  simp only [codeList, Emit.succeeds_bind, Emit.succeeds_pure] at h
  obtain ⟨cs, hcs, rfl⟩ := h
  simpa [flatten_map_singleton] using writes_commaSeparated (forall₂_codes hos hcs)

/-- The keys and values of a record: an argument without a partner is dropped. -/
def paired : List Operand → List (List Operand)
  | key :: value :: rest => [key, value] :: paired rest
  | _ => []

/-- Each pair of a key and a value writes the two. -/
lemma forall₂_keyValueCodes {mark : String} (hmark : separates mark = true) :
    ∀ {os : List Operand}, (∀ o ∈ os, o.Sound q names) → ∀ {pairs : List String},
      (keyValueCodes mark os).Succeeds names pairs →
        List.Forall₂ (q.Writes names) (paired os) pairs
  | [], _, _, h | [_], _, _, h => by
    simp only [keyValueCodes, Emit.succeeds_pure] at h
    subst h
    exact .nil
  | key :: value :: rest, hos, _, h => by
    simp only [keyValueCodes, Emit.succeeds_bind, Emit.succeeds_pure] at h
    obtain ⟨k, hk, v, hv, pairs, hpairs, rfl⟩ := h
    have hkey := (hos key (by simp)).writes_code hk
    have hvalue := (hos value (by simp)).writes_code hv
    exact .cons (hkey.separated hmark hvalue) (forall₂_keyValueCodes hmark (fun o ho => hos o (by simp [ho])) hpairs)

end Arguments

/-! ## Forms that all targets share -/

/-- The arguments that a form writes. -/
def Form.written : Form → Site → List Operand
  | .constant _ _, _ => []
  | .identity, site | .prefixOp _ _, site | .suffix _ _, site => [site.operand 0]
  | .infixOp _, site => [site.operand 0, site.operand 1]
  | .sequence _ _, site | .helper _, site => site.operands
  | .method _, site => site.operand 0 :: site.operands.drop 1
  | .enclosed _ inner _ _, site => inner.written site
  | .exchanged inner, site => inner.written site.exchanged
  | .record _, site => (paired site.operands).flatten

/-- The text of a form closes its brackets and keeps the codes of the arguments apart. -/
def Form.isSound (q : Quoting) : Form → Bool
  | .constant code _ => isBare code || q.seals? code
  | .identity => true
  | .infixOp text | .prefixOp _ text | .helper text | .method text | .suffix text _ => isBare text
  | .sequence opening closing => frames opening closing
  | .enclosed opening inner closing _ => frames opening closing && inner.isSound q
  | .exchanged inner => inner.isSound q
  | .record mark => separates mark

section Forms

variable {q : Quoting} {names : Bindings} {site : Site}

/-- An argument that the call does not have is never written. -/
lemma Site.sound_operand (h : ∀ o ∈ site.operands, o.Sound q names) (i : Nat) :
    (site.operand i).Sound q names := by
  rw [Site.operand, List.getD_eq_getElem?_getD]
  cases hi : site.operands[i]? with
  | none => exact fun fragment hfragment => (Emit.succeeds_fail.mp hfragment).elim
  | some o => exact h o (List.mem_of_getElem? hi)

/-- Sound arguments are so in the other order. -/
lemma Site.sound_exchanged (h : ∀ o ∈ site.operands, o.Sound q names) :
    ∀ o ∈ site.exchanged.operands, o.Sound q names := by
  unfold Site.exchanged
  split
  · rename_i hoperands _
    intro o ho
    refine h o ?_
    rw [hoperands]
    simp only [List.mem_cons] at ho ⊢
    tauto
  · exact h

/-- Writing a call in a form with sound text gives sealed code in which the codes of the arguments
stand that the form writes.

**Proof sketch.** By induction on the form. Each case reads off the code, lists its parts in the
order they are written, and leaves the rest to `writes_of_parts`: a constant text has to be bare, a
code has to be sealed, and the arguments in the parts together have to be the ones that the form
says it writes. -/
theorem Form.writes_emit {table : PrecedenceTable} {form : Form}
    (hform : form.isSound q = true) (hsite : ∀ o ∈ site.operands, o.Sound q names)
    {fragment : Fragment} (h : (form.emit table site).Succeeds names fragment) :
    q.Writes names (form.written site) fragment.code := by
  induction form generalizing site fragment with
  | constant code op =>
    simp only [Form.emit, Emit.succeeds_pure] at h
    subst h
    rcases Bool.or_eq_true_iff.mp hform with hbare | hseals
    · exact (isSealed_of_isBare hbare).writes names
    · exact (isSealed_of_seals? hseals).writes names
  | identity => exact (site.sound_operand hsite 0).writes h
  | infixOp op =>
    simp only [Form.emit, Emit.succeeds_bind, Emit.succeeds_pure] at h
    obtain ⟨a, ha, b, hb, rfl⟩ := h
    have hlhs := (site.sound_operand hsite 0).writes_wrapped ha
    have hrhs := (site.sound_operand hsite 1).writes_wrapped hb
    exact writes_of_parts [.code a [_], .text " ", .bare op, .text " ", .code b [_]] rfl
      (by simp [Part.chars, Fragment.operation]) ⟨hlhs, trivial, hform, trivial, hrhs⟩
      (by simp [Part.carried, Form.written])
  | prefixOp key text =>
    simp only [Form.emit, Emit.succeeds_bind, Emit.succeeds_pure] at h
    obtain ⟨a, ha, rfl⟩ := h
    have hoperand := (site.sound_operand hsite 0).writes_wrapped ha
    exact writes_of_parts [.bare text, .code a [_]] rfl
      (by simp [Part.chars, Fragment.operation]) ⟨hform, hoperand⟩
      (by simp [Part.carried, Form.written])
  | sequence opening closing =>
    simp only [Form.emit, Emit.succeeds_bind, Emit.succeeds_pure] at h
    obtain ⟨row, hrow, rfl⟩ := h
    exact (writes_codeList hsite hrow).enclosed opening closing hform
  | helper name =>
    simp only [Form.emit, Emit.succeeds_bind, Emit.succeeds_pure, Emit.succeeds_require] at h
    obtain ⟨-, -, row, hrow, rfl⟩ := h
    have hrow := writes_codeList hsite hrow
    exact writes_of_parts [.bare name, .text "(", .code row site.operands, .text ")"] rfl
      (by simp [Part.chars, Fragment.atom]) ⟨hform, trivial, hrow, trivial⟩
      (by simp [Part.carried, Form.written])
  | method text =>
    simp only [Form.emit, Emit.succeeds_bind, Emit.succeeds_pure] at h
    obtain ⟨receiver, hreceiver, row, hrow, rfl⟩ := h
    have hreceiver := (site.sound_operand hsite 0).writes_wrapped hreceiver
    have hrow := writes_codeList (fun o ho => hsite o (List.mem_of_mem_drop ho)) hrow
    exact writes_of_parts
      [.code receiver [_], .bare text, .text "(", .code row (site.operands.drop 1), .text ")"] rfl
      (by simp [Part.chars, Fragment.atom]) ⟨hreceiver, hform, trivial, hrow, trivial⟩
      (by simp [Part.carried, Form.written])
  | suffix text op =>
    simp only [Form.emit, Emit.succeeds_bind, Emit.succeeds_pure] at h
    obtain ⟨receiver, hreceiver, rfl⟩ := h
    have hreceiver := (site.sound_operand hsite 0).writes_wrapped hreceiver
    exact writes_of_parts [.code receiver [_], .bare text] rfl (by simp [Part.chars])
      ⟨hreceiver, hform⟩ (by simp [Part.carried, Form.written])
  | enclosed opening inner closing op ih =>
    simp only [Form.isSound, Bool.and_eq_true] at hform
    simp only [Form.emit, Emit.succeeds_bind, Emit.succeeds_pure] at h
    obtain ⟨inside, hinside, rfl⟩ := h
    exact (ih hform.2 hsite hinside).enclosed opening closing hform.1
  | exchanged inner ih => exact ih hform (site.sound_exchanged hsite) h
  | record mark =>
    simp only [Form.emit, Emit.succeeds_bind, Emit.succeeds_pure] at h
    obtain ⟨pairs, hpairs, rfl⟩ := h
    have hrow := writes_commaSeparated (forall₂_keyValueCodes hform hsite hpairs)
    unfold braced
    split_ifs with hempty
    · obtain rfl := List.isEmpty_iff.mp hempty
      exact hrow.enclosed "\x7b" "\x7d" (by rfl)
    · exact hrow.enclosed "\x7b " " \x7d" (by rfl)

/-! ## Arguments that a form omits -/

/-- The last of an odd number of arguments has no partner. -/
def isUnpaired (count i : Nat) : Bool := count % 2 == 1 && i + 1 == count

/-- A key of a record without a value. -/
def isLoneKey (name : String) (count i : Nat) : Bool := name == "record" && isUnpaired count i

/-- The form does not write the argument at a place of a call with that many. -/
def Form.omits : Form → Nat → Nat → Bool
  | .constant _ _, _, _ => true
  | .identity, _, i | .prefixOp _ _, _, i | .suffix _ _, _, i => i != 0
  | .infixOp _, _, i => 1 < i
  | .sequence _ _, _, _ | .helper _, _, _ | .method _, _, _ => false
  | .enclosed _ inner _ _, count, i => inner.omits count i
  | .exchanged inner, count, i =>
    inner.omits count 0 || inner.omits count 1 || inner.omits count i
  | .record _, count, i => isUnpaired count i

/-- The argument at a place that the call has. -/
lemma Site.operand_eq {i : Nat} {o : Operand} (h : site.operands[i]? = some o) :
    site.operand i = o := by
  rw [Site.operand, List.getD_eq_getElem?_getD, h, Option.getD_some]

/-- The arguments of a call, place by place. -/
lemma Site.map_operand_range (site : Site) :
    (List.range site.operands.length).map site.operand = site.operands := by
  refine List.ext_getElem (by simp) fun i h _ => ?_
  rw [List.length_map, List.length_range] at h
  simpa using site.operand_eq (List.getElem?_eq_getElem h)

/-- The arguments at any places that satisfy the predicate are among those that are written, each place
with an argument of its own. -/
def Site.Lists (site : Site) (written : List Operand) (p : Nat → Prop) : Prop :=
  ∀ places : List Nat, places.Nodup → (∀ i ∈ places, i < site.operands.length ∧ p i) →
    (places.map site.operand).Subperm written

/-- What is written are the arguments at all places of a row. -/
lemma Site.lists_map (row : List Nat) {p : Nat → Prop}
    (h : ∀ i < site.operands.length, p i → i ∈ row) : site.Lists (row.map site.operand) p := by
  intro places hnodup hplaces
  obtain ⟨part, hperm, hsub⟩ : places.Subperm row :=
    hnodup.subperm fun i hi => h i (hplaces i hi).1 (hplaces i hi).2
  exact ⟨part.map site.operand, hperm.map _, hsub.map _⟩

/-- Fewer places. -/
lemma Site.Lists.imp {written : List Operand} {p p' : Nat → Prop} (h : site.Lists written p)
    (himp : ∀ i < site.operands.length, p' i → p i) : site.Lists written p' :=
  fun places hnodup hplaces => h places hnodup fun i hi =>
    ⟨(hplaces i hi).1, himp i (hplaces i hi).1 (hplaces i hi).2⟩

/-- The argument at one place is written. -/
lemma Site.Lists.mem {written : List Operand} {p : Nat → Prop} (h : site.Lists written p) {i : Nat}
    (hi : i < site.operands.length) (hp : p i) : site.operand i ∈ written := by
  have hone := h [i] (List.nodup_singleton i) (by simpa using ⟨hi, hp⟩)
  exact List.singleton_subperm_iff.mp hone

/-- All arguments are those at all places. -/
lemma Site.lists_operands (site : Site) (p : Nat → Prop) : site.Lists site.operands p := by
  have h : site.Lists ((List.range site.operands.length).map site.operand) p :=
    Site.lists_map _ fun i hi _ => List.mem_range.mpr hi
  rwa [site.map_operand_range] at h

/-- The pairs are the arguments but one without a partner. -/
lemma flatten_paired : ∀ os : List Operand, (paired os).flatten = os.take (2 * (os.length / 2))
  | [] => rfl
  | [_] => by simp [paired]
  | a :: b :: rest => by
    have hhalf : 2 * ((rest.length + 1 + 1) / 2) = 2 * (rest.length / 2) + 1 + 1 := by omega
    rw [paired, List.flatten_cons, flatten_paired rest, List.length_cons, List.length_cons, hhalf]
    rfl

/-- The places of exchanged arguments. -/
lemma Site.exists_turn (site : Site) : ∃ turn : Nat → Nat,
    site.exchanged.operands.length = site.operands.length ∧ Function.Injective turn ∧
    ∀ i < site.operands.length, turn i < site.operands.length ∧ turn i ∈ [0, 1, i] ∧
      site.exchanged.operand (turn i) = site.operand i := by
  unfold Site.exchanged
  split
  · rename_i a b os s t ts hos _
    refine ⟨fun i => if i = 0 then 1 else if i = 1 then 0 else i, by simp [hos], ?_, fun i hi => ?_⟩
    · intro i j h
      dsimp only at h
      split_ifs at h <;> omega
    · rw [hos, List.length_cons, List.length_cons] at hi ⊢
      rcases i with - | - | i
      · simp [Site.operand, hos]
      · simp [Site.operand, hos]
      · have hlt : i < os.length := by omega
        simp [Site.operand, hos, hlt]
  · exact ⟨id, rfl, fun _ _ h => h, fun i hi => ⟨hi, by simp, rfl⟩⟩

/-- A form writes all arguments that it does not omit.

**Proof sketch.** By induction on the form: for each the places of the arguments that it writes are
listed, and a place that is not omitted is one of these. A form with exchanged operands writes what
its inner form writes at the exchanged site, so the places are carried over by `exists_turn`; a
record writes its complete pairs, that is the arguments before the last even place. -/
lemma Form.lists_written (form : Form) (site : Site) :
    site.Lists (form.written site) fun i => form.omits site.operands.length i = false := by
  induction form generalizing site with
  | constant code op =>
    exact Site.lists_map [] fun i _ h => by cases h
  | identity | prefixOp key text | suffix text op =>
    exact Site.lists_map [0] fun i _ h => by simpa [Form.omits] using h
  | infixOp op =>
    refine Site.lists_map [0, 1] fun i _ h => ?_
    simp only [Form.omits, decide_eq_false_iff_not] at h
    simp only [List.mem_cons, List.not_mem_nil, or_false]
    omega
  | sequence opening closing | helper name => exact site.lists_operands _
  | method text =>
    -- A site without operands answers a default one, which a method still writes as its receiver.
    rcases hos : site.operands with - | ⟨o, os⟩
    · have hwritten : Form.written (.method text) site = [0].map site.operand := by
        simp [Form.written, hos]
      rw [hwritten]
      exact Site.lists_map [0] fun i hi => by simp [hos] at hi
    · have hwritten : Form.written (.method text) site = site.operands := by
        simp [Form.written, Site.operand, hos]
      rw [hwritten]
      exact site.lists_operands _
  | enclosed opening inner closing op ih => exact ih site
  | exchanged inner ih =>
    intro places hnodup hplaces
    obtain ⟨turn, hlength, hinjective, hturn⟩ := site.exists_turn
    have hwritten := ih site.exchanged (places.map turn) (hnodup.map hinjective) ?_
    · have hsame : (places.map turn).map site.exchanged.operand = places.map site.operand := by
        rw [List.map_map]
        exact List.map_congr_left fun i hi => (hturn i (hplaces i hi).1).2.2
      rwa [hsame] at hwritten
    · refine List.forall_mem_map.mpr fun i hi => ?_
      obtain ⟨hlt, homits⟩ := hplaces i hi
      obtain ⟨hturnLt, hmem, -⟩ := hturn i hlt
      simp only [Form.omits, Bool.or_eq_false_iff] at homits
      obtain ⟨⟨h₀, h₁⟩, hi⟩ := homits
      rw [hlength]
      simp only [List.mem_cons, List.not_mem_nil, or_false] at hmem
      rcases hmem with heq | heq | heq <;> rw [heq] at hturnLt ⊢ <;> exact ⟨hturnLt, ‹_›⟩
  | record mark =>
    have hle : 2 * (site.operands.length / 2) ≤ site.operands.length := by omega
    have hwritten : Form.written (.record mark) site =
        (List.range (2 * (site.operands.length / 2))).map site.operand := by
      calc (paired site.operands).flatten
          = ((List.range site.operands.length).map site.operand).take
              (2 * (site.operands.length / 2)) := by rw [flatten_paired, site.map_operand_range]
        _ = (List.range (2 * (site.operands.length / 2))).map site.operand := by
          rw [← List.map_take, List.take_range, Nat.min_eq_left hle]
    rw [hwritten]
    refine Site.lists_map _ fun i hi h => List.mem_range.mpr ?_
    simp only [Form.omits, isUnpaired, Bool.and_eq_false_iff, beq_eq_false_iff_ne] at h
    omega

end Forms

/-! ## Dispatch -/

/-- The tests whose answer the type of the value settles. -/
def settledTests : List (String × List Tag) :=
  ("is_float", [.int]) :: selectables.map fun s => ("is_" ++ s.stem, [s.tag])

/-- The assertions that the type of the value settles. -/
def settledAssertions : List (String × Tag) :=
  selectables.map fun s => ("assert_" ++ s.stem, s.tag)

/-- The type of the value settles the selector, so that the argument at the place has no use: the
value of a test, and the message of an assertion. -/
def isSettled (name : String) (tags : List Tag) (i : Nat) : Bool :=
  decide ((name, tags) ∈ settledTests) ||
    (i == 1 && tags.length == 2 &&
      (tags.head?.any fun tag => decide ((name, tag) ∈ settledAssertions)))

/-- A signature without `any` covers itself only. -/
lemma Covers.eq {signature tags : List Tag} (h : Covers signature tags)
    (hany : ∀ tag ∈ signature, tag ≠ .any) : signature = tags := by
  induction h with
  | nil => rfl
  | cons htag _ ih =>
    obtain ⟨hne, hrest⟩ := List.forall_mem_cons.mp hany
    rw [htag.resolve_right hne, ih hrest]

/-- Selectors are settled by what their signatures cover. -/
lemma isSettled_of_covers {name : String} {signature tags : List Tag} {i : Nat}
    (hcovers : Covers signature tags) (h : isSettled name signature i = true) : isSettled name tags i = true := by
  have hany : ∀ e ∈ settledTests, ∀ tag ∈ e.2, tag ≠ .any := by decide
  have hknown : ∀ e ∈ settledAssertions, e.2 ≠ .any := by decide
  simp only [isSettled, Bool.or_eq_true, Bool.and_eq_true, decide_eq_true_eq, beq_iff_eq,
    Option.any_eq_true] at h ⊢
  rcases h with htest | ⟨⟨rfl, hlength⟩, tag, htag, hassertion⟩
  · rw [← hcovers.eq (hany _ htest)]
    exact .inl htest
  · refine .inr ⟨⟨rfl, hcovers.length_eq ▸ hlength⟩, tag, ?_, hassertion⟩
    cases hcovers with
    | nil => cases htag
    | cons hfirst _ =>
      cases htag
      rw [hfirst.resolve_right (hknown _ hassertion), List.head?_cons]

/-- A signature covers its own tags only, where it is not `any`. -/
lemma Covers.getElem? {signature tags : List Tag} (h : Covers signature tags) {i : Nat} {tag : Tag}
    (htag : signature[i]? = some tag) (hne : tag ≠ .any) : tags[i]? = some tag := by
  induction h generalizing i with
  | nil => cases htag
  | cons hfirst _ ih =>
    cases i with
    | zero =>
      cases htag
      exact congrArg some (hfirst.resolve_right hne).symm
    | succ i => exact ih htag

/-- The argument at the place is of the type of null, in a test of equality. -/
def isNullTyped (name : String) (tags : List Tag) (i : Nat) : Bool :=
  (name == "eq" || name == "neq") && tags.length == 2 && tags[i]? == some .null

/-- The other side of a test of equality is tested for null, so that the one at the place has no use:
it is of the type of null, and of two such sides it is the left one. -/
def isNullSide (name : String) (tags : List Tag) (i : Nat) : Bool :=
  isNullTyped name tags i && (i == 0 || tags.head? != some .null)

/-- A side of the type of null stays one under more specific tags. -/
lemma isNullTyped_of_covers {name : String} {signature tags : List Tag} {i : Nat}
    (hcovers : Covers signature tags) (h : isNullTyped name signature i = true) :
    isNullTyped name tags i = true := by
  simp only [isNullTyped, Bool.and_eq_true, beq_iff_eq] at h ⊢
  obtain ⟨⟨hname, hlength⟩, hnull⟩ := h
  exact ⟨⟨hname, hcovers.length_eq ▸ hlength⟩, hcovers.getElem? hnull (by decide)⟩

/-- A side of the type of null that has a use is the right one of two such sides. -/
lemma eq_nulls_of_isNullTyped {name : String} {tags : List Tag} {i : Nat}
    (h : isNullTyped name tags i = true) (hside : isNullSide name tags i = false) :
    (name = "eq" ∨ name = "neq") ∧ tags = [.null, .null] ∧ i = 1 := by
  rw [isNullSide, h, Bool.true_and, Bool.or_eq_false_iff] at hside
  simp only [isNullTyped, Bool.and_eq_true, Bool.or_eq_true, beq_iff_eq] at h
  obtain ⟨⟨hname, hlength⟩, hnull⟩ := h
  obtain ⟨s, t, rfl⟩ := List.length_eq_two.mp hlength
  rcases i with - | - | i
  · simp at hside
  · exact ⟨hname, by simpa using And.intro (bne_eq_false_iff_eq.mp hside.2) hnull, rfl⟩
  · cases hnull

/-- The types of the arguments may say that one has no use. -/
def mayExplain (name : String) (tags : List Tag) (i : Nat) : Bool :=
  isSettled name tags i || isNullTyped name tags i

namespace Registry

variable {ε : Type} {r : Registry ε}

/-- The form of a call is registered for a signature that covers the tags, or for any number of
arguments. -/
lemma exists_of_lookup (hfallback : r.fallback = none) {name : String} {tags : List Tag} {form : ε}
    (h : r.lookup name tags = .ok form) :
    (∃ signature, ((name, signature), form) ∈ r.signatures ∧ Covers signature tags) ∨
      ∃ least, (name, least, form) ∈ r.variadics := by
  simp only [lookup, hfallback, Option.or_none] at h
  split at h
  · rename_i found hfound
    cases h
    rcases Option.or_eq_some_iff.mp hfound with hsignature | ⟨-, hvariadic⟩
    · left
      obtain ⟨signature, hmem, hform⟩ := List.exists_of_findSome?_eq_some hsignature
      obtain ⟨before, after, heq, -⟩ := List.lookup_eq_some_iff.mp hform
      exact ⟨signature, by simp [heq], (mem_generalizations.mp hmem).1⟩
    · right
      unfold variadic? at hvariadic
      split at hvariadic
      · rename_i least form' hlookup
        split_ifs at hvariadic
        cases hvariadic
        obtain ⟨before, after, heq, -⟩ := List.lookup_eq_some_iff.mp hlookup
        exact ⟨least, by simp [heq]⟩
      · cases hvariadic
  · cases h

/-- A call that is written has a form. -/
lemma exists_of_call {emit : ε → Site → Emit Fragment} {site : Site} {names : Bindings}
    {fragment : Fragment} (h : (r.call emit site).Succeeds names fragment) :
    ∃ form, r.lookup site.name site.tags = .ok form ∧ (emit form site).Succeeds names fragment := by
  unfold Registry.call at h
  split at h
  · exact ⟨_, ‹_›, h⟩
  · exact (Emit.succeeds_fail.mp h).elim

/-- All forms of the registry satisfy the predicate with the names that they are registered for. -/
def checks (r : Registry ε) (p : String → ε → Bool) : Bool :=
  (r.signatures.all fun e => p e.1.1 e.2) && r.variadics.all fun e => p e.1 e.2.2

/-- What is checked for all forms of a registry holds of those that are found. -/
lemma of_checks (hfallback : r.fallback = none) {p : String → ε → Bool} (hp : r.checks p = true)
    {name : String} {tags : List Tag} {form : ε} (h : r.lookup name tags = .ok form) :
    p name form = true := by
  simp only [checks, Bool.and_eq_true, List.all_eq_true] at hp
  rcases exists_of_lookup hfallback h with ⟨signature, hmem, -⟩ | ⟨least, hmem⟩
  · exact hp.1 _ hmem
  · exact hp.2 _ hmem

/-- What a form omits of the calls of a signature is explained by the signature. -/
def explains (r : Registry ε) (explained : String → List Tag → Nat → Bool)
    (omits : ε → Nat → Nat → Bool) : Bool :=
  r.signatures.all fun e => (List.range e.1.2.length).all fun i =>
    !omits e.2 e.1.2.length i || explained e.1.1 e.1.2 i

/-- The form of a call omits an argument only where the types explain it, or where it is left alone
among any number of arguments. -/
lemma omits_eq_false (hfallback : r.fallback = none) (explained : String → List Tag → Nat → Bool)
    (hcovered : ∀ name signature tags i, Covers signature tags →
      explained name signature i = true → explained name tags i = true)
    {omits : ε → Nat → Nat → Bool} (hexplains : r.explains explained omits = true)
    (alone : String → Nat → Nat → Bool)
    (hvariadics : ∀ name least form, (name, least, form) ∈ r.variadics → ∀ count i,
      omits form count i = true → alone name count i = true)
    {name : String} {tags : List Tag} {form : ε} (h : r.lookup name tags = .ok form) {i : Nat}
    (hi : i < tags.length) (hexplained : explained name tags i = false)
    (halone : alone name tags.length i = false) : omits form tags.length i = false := by
  rcases exists_of_lookup hfallback h with ⟨signature, hmem, hcovers⟩ | ⟨least, hmem⟩
  · have hsame : signature.length = tags.length := hcovers.length_eq
    have hentry := List.all_eq_true.mp (List.all_eq_true.mp hexplains _ hmem) i
      (List.mem_range.mpr (hsame ▸ hi))
    rw [← hsame]
    simpa [mt (hcovered _ _ _ _ hcovers) (Bool.eq_false_iff.mp hexplained)] using hentry
  · by_contra homits
    have hvariadic := hvariadics _ _ _ hmem _ _ (Bool.not_eq_false _ ▸ homits)
    rw [hvariadic] at halone
    cases halone

/-- Where sides of tests of equality are left out, the form of a call omits an argument only if the types
say that it has no use. Of two sides of the type of null the right one is written. -/
lemma omits_eq_false_of_sides (hfallback : r.fallback = none) {omits : ε → Nat → Nat → Bool}
    (hexplains : r.explains mayExplain omits = true) (alone : String → Nat → Nat → Bool)
    (hvariadics : ∀ name least form, (name, least, form) ∈ r.variadics → ∀ count i,
      omits form count i = true → alone name count i = true)
    (hnulls : ∀ name ∈ ["eq", "neq"], ∀ form, r.lookup name [.null, .null] = .ok form →
      omits form 2 1 = false)
    {name : String} {tags : List Tag} {form : ε} (h : r.lookup name tags = .ok form) {i : Nat}
    (hi : i < tags.length) (hsettled : isSettled name tags i = false)
    (hside : isNullSide name tags i = false) (halone : alone name tags.length i = false) :
    omits form tags.length i = false := by
  by_cases hnull : isNullTyped name tags i = true
  · obtain ⟨hname, rfl, rfl⟩ := eq_nulls_of_isNullTyped hnull hside
    exact hnulls name (by simpa using hname) form h
  · refine omits_eq_false hfallback mayExplain (fun name signature tags i hcovers h => ?_) hexplains
      alone hvariadics h hi ?_ halone
    · simp only [mayExplain, Bool.or_eq_true] at h ⊢
      exact h.imp (isSettled_of_covers hcovers) (isNullTyped_of_covers hcovers)
    · rw [mayExplain, hsettled, Bool.eq_false_iff.mpr hnull]
      rfl

/-- The calls of the name have one form, for one signature. -/
def only [DecidableEq ε] (r : Registry ε) (name : String) (signature : List Tag) (form : ε) : Bool :=
  (r.signatures.all fun e => e.1.1 != name || (e.1.2 == signature && decide (e.2 = form))) &&
    r.variadics.all fun e => e.1 != name

/-- A call of a name that has one form finds that form, with as many arguments as its signature. -/
lemma of_only [DecidableEq ε] (hfallback : r.fallback = none) {name : String} {signature tags : List Tag}
    {form found : ε} (honly : r.only name signature form = true)
    (h : r.lookup name tags = .ok found) : tags.length = signature.length ∧ found = form := by
  simp only [only, Bool.and_eq_true, List.all_eq_true] at honly
  rcases exists_of_lookup hfallback h with ⟨s, hmem, hcovers⟩ | ⟨least, hmem⟩
  · obtain ⟨rfl, rfl⟩ : s = signature ∧ found = form := by simpa using honly.1 _ hmem
    exact ⟨hcovers.length_eq.symm, rfl⟩
  · have hname := honly.2 _ hmem
    simp at hname

end Registry

end Retarget
