import Retarget.Proofs.Calling.Scan
import Retarget.Proofs.Naming.Outline

set_option autoImplicit false

/-!
# Calls and noted helpers

The code of a call is made of the call of a helper, if its form has one, and of the codes of the
arguments that the form writes. It calls what these call, and writing it notes the helpers that are
noted for these. A ledger keeps both sides of that account for the arguments; each form carries it
over to the code that it writes.

## Main definitions

* `Retarget.Share` — what code is made of.
* `Retarget.Ledger`, `Retarget.Ledger.Accounts` — what arguments call and note, and a code that calls
  and notes what its shares do.
* `Retarget.Form.shares`, `Retarget.Form.isTidy` — the shares of a call in a form, and the check of
  the text of the form.

## Main results

* `Retarget.Form.accounts_emit` — a call in a form with tidy text calls and notes what its shares do.
-/

namespace Retarget

open Quoting

/-- What code is made of: the call of a helper, or the code of an argument. -/
inductive Share
  | helper (name : String)
  | operand (o : Operand)

/-- The names that a share contributes, with those that the arguments do. -/
def Share.Gives (gives : Operand → String → Prop) : Share → String → Prop
  | .helper name, n => n = name
  | .operand o, n => gives o n

/-- The call of a helper contributes its name. -/
@[simp] lemma Share.gives_helper {gives : Operand → String → Prop} {name n : String} :
    (Share.helper name).Gives gives n ↔ n = name :=
  Iff.rfl

/-- The code of an argument contributes what the argument does. -/
@[simp] lemma Share.gives_operand {gives : Operand → String → Prop} {o : Operand} {n : String} :
    (Share.operand o).Gives gives n ↔ gives o n :=
  Iff.rfl

/-- What the codes of arguments call, among the names of a catalogue, and which helpers are noted
for them. -/
structure Ledger (q : Quoting) where
  lawful : q.Lawful
  catalogue : Catalogue
  calls : Operand → String → Prop
  notes : Operand → String → Prop

namespace Ledger

variable {q : Quoting} {L : Ledger q} {shares shares' : List Share} {a b code : String}
  {helpers helpers' : List String}

/-- The code calls what its shares call, and the helpers are those that are noted for them. -/
structure Accounts (L : Ledger q) (shares : List Share) (code : String) (helpers : List String) :
    Prop where
  tells : q.Tells L.catalogue (fun n => ∃ s ∈ shares, s.Gives L.calls n) code
  notes (n : String) : n ∈ helpers ↔ ∃ s ∈ shares, s.Gives L.notes n

/-- The ledger is right about the argument, where the given names are bound. -/
def Knows (L : Ledger q) (names : Bindings) (o : Operand) : Prop :=
  ∀ fragment helpers, o.fragment.Notes names fragment helpers →
    L.Accounts [.operand o] fragment.code helpers

/-! ## Codes and text -/

namespace Accounts

/-- Order and repetition do not matter. -/
lemma congr (h : L.Accounts shares code helpers) (hshares : ∀ s, s ∈ shares ↔ s ∈ shares')
    (hhelpers : ∀ n, n ∈ helpers ↔ n ∈ helpers') : L.Accounts shares' code helpers' where
  tells := h.tells.congr fun n => by simp only [hshares]
  notes n := by simp only [← hhelpers, h.notes, hshares]

/-- Code that calls nothing. -/
lemma silent (h : q.Tells L.catalogue (fun _ => False) code) : L.Accounts [] code [] where
  tells := h.congr fun n => by simp
  notes n := by simp

/-- Text that calls no helper has no shares. -/
lemma quiet (h : isQuiet code.toList = true) : L.Accounts [] code [] := silent (tells_of_isQuiet h)

/-- Text around a code, which opens and closes it, leaves the shares as they are. -/
lemma enclosed (h : L.Accounts shares code helpers) (opening closing : String)
    (hopens : opens opening.toList = true) (hcloses : closes closing.toList = true) :
    L.Accounts shares (opening ++ code ++ closing) helpers where
  tells := h.tells.enclosed L.lawful hopens hcloses
  notes := h.notes

/-- Parentheses leave the shares of a code as they are. -/
lemma parens (h : L.Accounts shares code helpers) : L.Accounts shares ("(" ++ code ++ ")") helpers :=
  h.enclosed "(" ")" (by decide) (by decide)

/-- Two codes with a mark between them have the shares of both. -/
lemma joined (ha : L.Accounts shares a helpers) {mark : String} (hmark : divides mark.toList = true)
    (hb : L.Accounts shares' b helpers') :
    L.Accounts (shares ++ shares') (a ++ mark ++ b) (helpers ++ helpers') where
  tells := (ha.tells.joined L.lawful hmark hb.tells).congr fun n => by
    simp only [List.mem_append, or_and_right, exists_or]
  notes n := by simp only [List.mem_append, ha.notes, hb.notes, or_and_right, exists_or]

/-- The call of a helper that is noted. -/
lemma callOf (h : L.Accounts shares code helpers) {name : String}
    (hname : name.toList.all continuesName = true) :
    L.Accounts (.helper name :: shares) (name ++ "(" ++ code ++ ")") (name :: helpers) where
  tells := (h.tells.callOf L.lawful (List.all_eq_true.mp hname)).congr fun n => by simp
  notes n := by simp [h.notes]

/-- A code as it is written on a side of an operator. -/
lemma wrap {fragment : Fragment} (h : L.Accounts shares fragment.code helpers)
    (table : PrecedenceTable) (outer : String) (side : Side) :
    L.Accounts shares (table.wrap fragment outer side) helpers := by
  unfold PrecedenceTable.wrap
  split_ifs
  · exact h.parens
  · exact h

end Accounts

/-- Names with commas between them. -/
lemma accounts_names {ss : List String} (h : ∀ s ∈ ss, L.Accounts [] s []) :
    L.Accounts [] (commaSeparated ss) [] := by
  induction ss with
  | nil => exact .quiet (by decide)
  | cons s ss ih =>
    obtain ⟨hs, hss⟩ := List.forall_mem_cons.mp h
    cases ss with
    | nil => simpa using hs
    | cons t ts =>
      rw [commaSeparated_cons_cons]
      exact hs.joined (by decide) (ih hss)

/-! ## Arguments -/

section Arguments

variable {names : Bindings} {o : Operand} {os : List Operand}

/-- The code of an argument is its share. -/
lemma Knows.accounts_code (ho : L.Knows names o) (h : o.code.Notes names code helpers) :
    L.Accounts [.operand o] code helpers := by
  simp only [Operand.code, Emit.notes_bind, Emit.notes_pure] at h
  obtain ⟨fragment, noted, hfragment, _, ⟨rfl, rfl⟩, rfl⟩ := h
  rw [List.append_nil]
  exact ho fragment noted hfragment

/-- The code of an argument is its share, with parentheses or without. -/
lemma Knows.accounts_wrapped (ho : L.Knows names o) {table : PrecedenceTable} {outer : String} {side : Side}
    (h : (o.wrapped table outer side).Notes names code helpers) :
    L.Accounts [.operand o] code helpers := by
  simp only [Operand.wrapped, Emit.notes_bind, Emit.notes_pure] at h
  obtain ⟨fragment, noted, hfragment, _, ⟨rfl, rfl⟩, rfl⟩ := h
  rw [List.append_nil]
  exact (ho fragment noted hfragment).wrap table outer side

/-- An argument that the call does not have is never written. -/
lemma knows_operand {site : Site} (h : ∀ o ∈ site.operands, L.Knows names o) (i : Nat) :
    L.Knows names (site.operand i) := by
  rw [Site.operand, List.getD_eq_getElem?_getD]
  cases hi : site.operands[i]? with
  | none => exact fun fragment helpers hfragment => (Emit.notes_fail.mp hfragment).elim
  | some o => exact h o (List.mem_of_getElem? hi)

/-- A ledger that is right about the arguments of a call is right about them in the other order. -/
lemma knows_exchanged {site : Site}
    (h : ∀ o ∈ site.operands, L.Knows names o) :
    ∀ o ∈ site.exchanged.operands, L.Knows names o := by
  unfold Site.exchanged
  split
  · rename_i hoperands _
    intro o ho
    refine h o ?_
    rw [hoperands]
    simp only [List.mem_cons] at ho ⊢
    tauto
  · exact h

/-- A row of codes, each with its own shares, and the helpers that are noted for them in turn. -/
inductive Rows (L : Ledger q) : List (List Share) → List String → List String → Prop
  | nil : Rows L [] [] []
  | cons {shares : List Share} {code : String} {helpers rest : List String}
      {groups : List (List Share)} {cs : List String} : L.Accounts shares code helpers →
      Rows L groups cs rest → Rows L (shares :: groups) (code :: cs) (helpers ++ rest)

/-- The shares of two rows, one behind the other. -/
lemma Rows.append {groups groups' : List (List Share)} {cs cs' : List String}
    (h : L.Rows groups cs helpers) (h' : L.Rows groups' cs' helpers') :
    L.Rows (groups ++ groups') (cs ++ cs') (helpers ++ helpers') := by
  induction h with
  | nil => exact h'
  | cons hcode _ ih =>
    rw [List.append_assoc]
    exact .cons hcode ih

/-- A change of each code that keeps its account. -/
lemma Rows.map {groups : List (List Share)} {cs : List String} (h : L.Rows groups cs helpers)
    {f : String → String} (hf : ∀ {shares : List Share} {code : String} {helpers : List String},
      L.Accounts shares code helpers → L.Accounts shares (f code) helpers) :
    L.Rows groups (cs.map f) helpers := by
  induction h with
  | nil => exact .nil
  | cons hcode _ ih => exact .cons (hf hcode) ih

/-- Codes with commas between them. -/
lemma Rows.separated {groups : List (List Share)} {cs : List String}
    (h : L.Rows groups cs helpers) :
    L.Accounts groups.flatten (commaSeparated cs) helpers := by
  induction h with
  | nil => exact .quiet (by decide)
  | cons hcode hrest ih =>
    cases hrest with
    | nil => simpa using hcode
    | cons hnext hmore =>
      rw [commaSeparated_cons_cons]
      exact hcode.joined (by decide) ih

/-- The codes of arguments have one share each. -/
lemma rows_codes (hos : ∀ o ∈ os, L.Knows names o) {cs : List String}
    (h : (codes os).Notes names cs helpers) :
    L.Rows (os.map fun o => [.operand o]) cs helpers := by
  induction os generalizing cs helpers with
  | nil =>
    simp only [codes, Emit.notes_pure] at h
    obtain ⟨rfl, rfl⟩ := h
    exact .nil
  | cons o os ih =>
    obtain ⟨ho, hrest⟩ := List.forall_mem_cons.mp hos
    simp only [codes, Emit.notes_bind, Emit.notes_pure] at h
    obtain ⟨c, noted, hc, _, ⟨cs, more, hcs, _, ⟨rfl, rfl⟩, rfl⟩, rfl⟩ := h
    rw [List.append_nil]
    exact .cons (ho.accounts_code hc) (ih hrest hcs)

/-- One share for each of a row of arguments. -/
lemma flatten_singletons (os : List Operand) :
    (os.map fun o => [Share.operand o]).flatten = os.map .operand := by
  induction os with
  | nil => rfl
  | cons o os ih => simp [ih]

/-- The codes of a row of arguments between commas have a share for each of them. -/
lemma accounts_codeList (hos : ∀ o ∈ os, L.Knows names o)
    (h : (codeList os).Notes names code helpers) :
    L.Accounts (os.map .operand) code helpers := by
  simp only [codeList, Emit.notes_bind, Emit.notes_pure] at h
  obtain ⟨cs, noted, hcs, _, ⟨rfl, rfl⟩, rfl⟩ := h
  rw [List.append_nil, ← flatten_singletons]
  exact (rows_codes hos hcs).separated

/-- The keys and values of a record. -/
lemma rows_keyValueCodes {mark : String} (hmark : divides mark.toList = true) :
    ∀ {os : List Operand}, (∀ o ∈ os, L.Knows names o) → ∀ {pairs helpers : List String},
      (keyValueCodes mark os).Notes names pairs helpers →
        L.Rows ((paired os).map (·.map .operand)) pairs helpers
  | [], _, _, _, h | [_], _, _, _, h => by
    simp only [keyValueCodes, Emit.notes_pure] at h
    obtain ⟨rfl, rfl⟩ := h
    exact .nil
  | key :: value :: rest, hos, _, _, h => by
    simp only [keyValueCodes, Emit.notes_bind, Emit.notes_pure] at h
    obtain ⟨k, noted, hk, _, ⟨v, noted', hv, _, ⟨pairs, more, hpairs, _, ⟨rfl, rfl⟩, rfl⟩, rfl⟩,
      rfl⟩ := h
    rw [List.append_nil, ← List.append_assoc]
    have hkey := (hos key (by simp)).accounts_code hk
    have hvalue := (hos value (by simp)).accounts_code hv
    exact .cons (hkey.joined hmark hvalue)
      (rows_keyValueCodes hmark (fun o ho => hos o (by simp [ho])) hpairs)

end Arguments

end Ledger

/-! ## Forms that all targets share -/

namespace Form

/-- The helper that a form calls. -/
def own : Form → List String
  | .helper name => [name]
  | .enclosed _ inner _ _ | .exchanged inner => inner.own
  | _ => []

/-- What the code of a call in a form is made of. -/
def shares (form : Form) (site : Site) : List Share :=
  form.own.map .helper ++ (form.written site).map .operand

/-- The text of a form calls no helper but its own, and keeps the names in the codes of the arguments
as they are. -/
def isTidy : Form → Bool
  | .constant code _ => decide (stemLetter ∉ letters code)
  | .identity | .helper _ => true
  | .infixOp op => divides (' ' :: (letters op ++ [' ']))
  | .prefixOp _ text => opens (letters text)
  | .sequence opening closing => opens (letters opening) && closes (letters closing)
  | .method text => divides (letters text ++ ['('])
  | .suffix text _ => closes (letters text)
  | .enclosed opening inner closing _ =>
    opens (letters opening) && closes (letters closing) && inner.isTidy
  | .exchanged inner => inner.isTidy
  | .record mark => divides (letters mark)

variable {q : Quoting} {L : Ledger q} {names : Bindings} {site : Site}

/-- Writing a call in a form with tidy text calls and notes what the shares of the form do.

**Proof sketch.** Induction over the form, since an enclosed or exchanged form contains another one.
Text in front of a code only opens it, text behind closes it, and a mark between two codes divides
them; the check of the form says so of each text. -/
theorem accounts_emit {table : PrecedenceTable} {form : Form} (hsound : form.isSound q = true)
    (hform : form.isTidy = true) (hown : ∀ name ∈ form.own, name.toList.all continuesName = true)
    (hsite : ∀ o ∈ site.operands, L.Knows names o)
    {fragment : Fragment} {helpers : List String}
    (h : (form.emit table site).Notes names fragment helpers) :
    L.Accounts (form.shares site) fragment.code helpers := by
  induction form generalizing site fragment helpers with
  | constant code op =>
    simp only [Form.emit, Emit.notes_pure] at h
    obtain ⟨rfl, rfl⟩ := h
    obtain ⟨ps, hseals⟩ : q.IsSealed code :=
      (Bool.or_eq_true_iff.mp hsound).elim isSealed_of_isBare isSealed_of_seals?
    exact .silent (tells_of_not_mem hseals.spells (by simpa [isTidy] using hform))
  | identity => exact Ledger.knows_operand hsite 0 fragment helpers h
  | infixOp op =>
    simp only [Form.emit, Emit.notes_bind, Emit.notes_pure] at h
    obtain ⟨a, noted, ha, _, ⟨b, noted', hb, _, ⟨rfl, rfl⟩, rfl⟩, rfl⟩ := h
    have hlhs := (Ledger.knows_operand hsite 0).accounts_wrapped ha
    have hrhs := (Ledger.knows_operand hsite 1).accounts_wrapped hb
    have hmark : divides (" " ++ op ++ " ").toList = true := by simpa [isTidy] using hform
    simpa [shares, own, written, Fragment.operation, String.append_assoc] using
      hlhs.joined hmark hrhs
  | prefixOp key text =>
    simp only [Form.emit, Emit.notes_bind, Emit.notes_pure] at h
    obtain ⟨a, noted, ha, _, ⟨rfl, rfl⟩, rfl⟩ := h
    have hoperand := (Ledger.knows_operand hsite 0).accounts_wrapped ha
    have hopens : opens text.toList = true := by simpa [isTidy] using hform
    simpa [shares, own, written, Fragment.operation] using
      hoperand.enclosed text "" hopens (by decide)
  | sequence opening closing =>
    simp only [isTidy, letters_eq, Bool.and_eq_true] at hform
    obtain ⟨hopens, hcloses⟩ := hform
    simp only [Form.emit, Emit.notes_bind, Emit.notes_pure] at h
    obtain ⟨row, noted, hrow, _, ⟨rfl, rfl⟩, rfl⟩ := h
    rw [List.append_nil]
    exact (Ledger.accounts_codeList hsite hrow).enclosed opening closing hopens hcloses
  | helper name =>
    simp only [Form.emit, Emit.notes_bind, Emit.notes_pure, Emit.notes_require] at h
    obtain ⟨_, _, rfl, _, ⟨row, noted, hrow, _, ⟨rfl, rfl⟩, rfl⟩, rfl⟩ := h
    rw [List.append_nil]
    exact (Ledger.accounts_codeList hsite hrow).callOf (hown name (List.mem_singleton.mpr rfl))
  -- The first argument is the receiver, the others stand in the parentheses.
  | method text =>
    simp only [Form.emit, Emit.notes_bind, Emit.notes_pure] at h
    obtain ⟨receiver, noted, hreceiver, _, ⟨row, noted', hrow, _, ⟨rfl, rfl⟩, rfl⟩, rfl⟩ := h
    have hreceiver := (Ledger.knows_operand hsite 0).accounts_wrapped hreceiver
    have hrow := Ledger.accounts_codeList (fun o ho => hsite o (List.mem_of_mem_drop ho)) hrow
    have hmark : divides (text ++ "(").toList = true := by simpa [isTidy] using hform
    have hcall := (hreceiver.joined hmark hrow).enclosed "" ")" (by decide) (by decide)
    simpa [shares, own, written, Fragment.atom, String.append_assoc] using hcall
  | suffix text op =>
    simp only [Form.emit, Emit.notes_bind, Emit.notes_pure] at h
    obtain ⟨receiver, noted, hreceiver, _, ⟨rfl, rfl⟩, rfl⟩ := h
    have hreceiver := (Ledger.knows_operand hsite 0).accounts_wrapped hreceiver
    have hcloses : closes text.toList = true := by simpa [isTidy] using hform
    simpa [shares, own, written] using hreceiver.enclosed "" text (by decide) hcloses
  | enclosed opening inner closing op ih =>
    simp only [isTidy, letters_eq, Bool.and_eq_true] at hform
    simp only [isSound, Bool.and_eq_true] at hsound
    simp only [Form.emit, Emit.notes_bind, Emit.notes_pure] at h
    obtain ⟨inside, noted, hinside, _, ⟨rfl, rfl⟩, rfl⟩ := h
    rw [List.append_nil]
    exact (ih hsound.2 hform.2 hown hsite hinside).enclosed opening closing hform.1.1 hform.1.2
  | exchanged inner ih => exact ih hsound hform hown (Ledger.knows_exchanged hsite) h
  | record mark =>
    simp only [Form.emit, Emit.notes_bind, Emit.notes_pure] at h
    obtain ⟨pairs, noted, hpairs, _, ⟨rfl, rfl⟩, rfl⟩ := h
    have hmark : divides mark.toList = true := by simpa [isTidy] using hform
    have hrow := (Ledger.rows_keyValueCodes hmark hsite hpairs).separated
    rw [← List.map_flatten] at hrow
    rw [List.append_nil]
    unfold braced
    -- A record without fields is written without blanks.
    split_ifs with hempty
    · obtain rfl := List.isEmpty_iff.mp hempty
      exact hrow.enclosed "\x7b" "\x7d" (by decide) (by decide)
    · exact hrow.enclosed "\x7b " " \x7d" (by decide) (by decide)

end Form

/-- A call that is written has a form. -/
lemma Registry.exists_of_notes_call {ε : Type} {r : Registry ε} {emit : ε → Site → Emit Fragment}
    {site : Site} {names : Bindings} {fragment : Fragment} {helpers : List String}
    (h : (r.call emit site).Notes names fragment helpers) :
    ∃ form, r.lookup site.name site.tags = .ok form ∧
      (emit form site).Notes names fragment helpers := by
  unfold Registry.call at h
  split at h
  · exact ⟨_, ‹_›, h⟩
  · exact (Emit.notes_fail.mp h).elim

end Retarget
