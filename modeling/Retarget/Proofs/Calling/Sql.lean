import Retarget.Proofs.Calling.Ledger
import Retarget.Proofs.Quoting.Sql

set_option autoImplicit false

/-!
# Calls and noted helpers in SQL

The helper of a call over `jsonb` values is named after the call, so that which helpers a form calls
depends on the name and the types of the call.

## Main definitions

* `Retarget.Sql.CallForm.shares` — what the code of a call is made of.

## Main results

* `Retarget.Sql.accounts_call` — a call calls and notes what its shares do; likewise for the other
  constructs.
-/

namespace Retarget.Sql

open Quoting

/-- The functions that helpers are for. -/
def assisted : List String :=
  Helper.selectorFunctions ++
    ["fail", "add", "sub", "mul", "div", "mod", "pow", "eq", "neq", "lt", "lte", "gt", "gte",
     "neg", "abs", "length", "first", "last", "join", "contains"]

/-- The catalogue holds the names of the helpers of the assisted functions. -/
lemma mem_catalogue {name : String} : name ∈ catalogue ↔ name ∈ assisted.map Helper.snake :=
  Helper.mem_sorted

/-- Helpers are spelled with the characters of names. -/
lemma continuesName_of_mem {function : String} (h : function ∈ assisted) :
    (Helper.snake function).toList.all continuesName = true := by
  have hothers : ∀ function ∈ ["fail", "add", "sub", "mul", "div", "mod", "pow", "eq", "neq", "lt",
      "lte", "gt", "gte", "neg", "abs", "length", "first", "last", "join", "contains"],
      isFunction function = true :=
    List.all_eq_true.mp (by cbv)
  exact continuesName_snake ((List.mem_append.mp h).elim isFunction_of_selector (hothers function))

/-! ## Values of unknown type -/

section Conversions

variable {L : Ledger quoting} {names : Bindings} {o : Operand} {os : List Operand}
  {shares : List Share} {code : String} {fragment : Fragment} {noted : List String}

/-- A string constant calls no helper. -/
lemma accounts_quote (s : String) : L.Accounts [] (quote s) [] :=
  .silent (tells_constant (seals_quote s).spells)

/-- A cast calls what its code calls. -/
lemma accounts_cast (h : L.Accounts shares code noted) (column : Column) :
    L.Accounts shares (cast code column) noted := by
  have hcolumn : closes (" AS " ++ column.code ++ ")").toList = true := by cases column <;> decide
  simpa [cast, String.append_assoc] using h.enclosed "CAST(" _ (by decide) hcolumn

/-- An argument that is converted to `jsonb` calls what is written of it.

**Proof sketch.** A value of unknown type and a record are written as they are, an argument of the
type of null is dropped, and anything else is converted by a function around its code. -/
lemma accounts_jsonb (ho : L.Knows names o) (h : (jsonb o).Notes names code noted) :
    L.Accounts ((converted o).map .operand) code noted := by
  have hkept (hnull : o.ir.ty.isNull = false) : (converted o).map Share.operand = [.operand o] := by
    simp [converted, hnull]
  unfold jsonb at h
  split at h
  · rename_i hany
    rw [hkept (by rw [hany]; rfl)]
    exact ho.accounts_code h
  · rename_i hrecord
    rw [hkept (by rw [hrecord]; rfl)]
    exact ho.accounts_code h
  · rename_i hnull
    obtain ⟨rfl, rfl⟩ := Emit.notes_pure.mp h
    have hdropped : converted o = [] := by simp [converted, hnull, Ty.isNull]
    rw [hdropped]
    exact .quiet (by decide)
  · rename_i _ _ hne
    have hnull : o.ir.ty.isNull = false := by
      unfold Ty.isNull
      split
      · exact absurd ‹_› hne
      · rfl
    rw [hkept hnull]
    simp only [Emit.notes_bind] at h
    obtain ⟨inner, noted, hinner, after, h, rfl⟩ := h
    have hinner := ho.accounts_code hinner
    split_ifs at h
    · obtain ⟨rfl, rfl⟩ := Emit.notes_pure.mp h
      rw [List.append_nil]
      exact (accounts_cast hinner .text).enclosed "to_jsonb(" ")" (by decide) (by decide)
    · obtain ⟨rfl, rfl⟩ := Emit.notes_pure.mp h
      rw [List.append_nil]
      exact hinner.enclosed "to_jsonb(" ")" (by decide) (by decide)

/-- Code that is read as text calls what it did. -/
lemma accounts_asText (h : L.Accounts shares fragment.code noted) :
    L.Accounts shares (asText fragment) noted := by
  have hpath : L.Accounts [] "'\x7b\x7d'" [] := accounts_quote "\x7b\x7d"
  have hread := (h.wrap precedence "#>>" .left).joined
    (by decide : divides " #>> ".toList = true) hpath
  simpa [asText, String.append_assoc] using hread

/-- Code that is read as a column type calls what it did. -/
lemma accounts_readAs (h : L.Accounts shares fragment.code noted) (column : Column) :
    L.Accounts shares (readAs column fragment) noted := by
  have htext := accounts_asText h
  cases column with
  | bigint | numeric | doublePrecision | boolean => exact accounts_cast h _
  | text => exact htext.parens
  | date | timestamp | timestamptz | interval | jsonb => exact accounts_cast htext _

/-- An argument that is read as a column type calls what it did. -/
lemma accounts_coerce (ho : L.Knows names o) {column : Column}
    (h : (coerce o column).Notes names fragment noted) :
    L.Accounts [.operand o] fragment.code noted := by
  simp only [coerce, Emit.notes_bind] at h
  obtain ⟨inner, noted, hinner, after, h, rfl⟩ := h
  have hinner := ho inner noted hinner
  split_ifs at h
  · obtain ⟨rfl, rfl⟩ := Emit.notes_pure.mp h
    rw [List.append_nil]
    exact accounts_readAs hinner column
  · obtain ⟨rfl, rfl⟩ := Emit.notes_pure.mp h
    rwa [List.append_nil]

/-- A branch calls what is written of it. -/
lemma accounts_branch (ho : L.Knows names o) {ty : Ty} (h : (branch ty o).Notes names code noted) :
    L.Accounts ((branched ty o).map .operand) code noted := by
  unfold branch at h
  unfold branched
  split_ifs at h ⊢
  · exact accounts_jsonb ho h
  · exact ho.accounts_code h

/-- A row that is written step by step, in which each step writes one code. -/
lemma rows_of_steps {step : Operand → Emit String} {all : List Operand → Emit (List String)}
    {kept : Operand → List Operand} (hnil : all [] = pure [])
    (hcons : ∀ o os, all (o :: os) = do
      let code ← step o
      let rest ← all os
      return code :: rest)
    (hstep : ∀ {o code noted}, L.Knows names o → (step o).Notes names code noted →
      L.Accounts ((kept o).map .operand) code noted)
    (hos : ∀ o ∈ os, L.Knows names o) {cs : List String} (h : (all os).Notes names cs noted) :
    L.Rows (os.map fun o => (kept o).map .operand) cs noted := by
  induction os generalizing cs noted with
  | nil =>
    rw [hnil] at h
    obtain ⟨rfl, rfl⟩ := Emit.notes_pure.mp h
    exact .nil
  | cons o os ih =>
    obtain ⟨ho, hrest⟩ := List.forall_mem_cons.mp hos
    simp only [hcons, Emit.notes_bind, Emit.notes_pure] at h
    obtain ⟨c, noted, hc, _, ⟨cs, more, hcs, _, ⟨rfl, rfl⟩, rfl⟩, rfl⟩ := h
    rw [List.append_nil]
    exact .cons (hstep ho hc) (ih hrest hcs)

/-- One group of shares for what is kept of each of a row of arguments. -/
lemma flatten_kept (kept : Operand → List Operand) (os : List Operand) :
    (os.map fun o => (kept o).map Share.operand).flatten = (os.flatMap kept).map .operand := by
  rw [← List.flatMap_def, List.map_flatMap]

/-- The shares of a row of arguments that are converted to `jsonb`. -/
lemma rows_jsonbs (hos : ∀ o ∈ os, L.Knows names o) {cs : List String}
    (h : (jsonbs os).Notes names cs noted) :
    L.Rows (os.map fun o => (converted o).map .operand) cs noted :=
  rows_of_steps rfl (fun _ _ => rfl) accounts_jsonb hos h

/-- The shares of a row of branches. -/
lemma rows_branches (ty : Ty) (hos : ∀ o ∈ os, L.Knows names o) {cs : List String}
    (h : (branches ty os).Notes names cs noted) :
    L.Rows (os.map fun o => (branched ty o).map .operand) cs noted :=
  rows_of_steps rfl (fun _ _ => rfl) (fun ho hcode => accounts_branch ho hcode) hos h

/-- The shares of a row of arguments that are read as a column type. -/
lemma rows_coerceAll (hos : ∀ o ∈ os, L.Knows names o) {column : Column} {cs : List String}
    (h : (coerceAll column os).Notes names cs noted) :
    L.Rows (os.map fun o => [.operand o]) cs noted := by
  induction os generalizing cs noted with
  | nil =>
    obtain ⟨rfl, rfl⟩ := Emit.notes_pure.mp h
    exact .nil
  | cons o os ih =>
    obtain ⟨ho, hrest⟩ := List.forall_mem_cons.mp hos
    simp only [coerceAll, Emit.notes_bind, Emit.notes_pure] at h
    obtain ⟨fragment, noted, hfragment, _, ⟨cs, more, hcs, _, ⟨rfl, rfl⟩, rfl⟩, rfl⟩ := h
    rw [List.append_nil]
    exact .cons (accounts_coerce ho hfragment) (ih hrest hcs)

/-- A call that goes to the helper of its function calls that helper and what is written of its
arguments. -/
lemma accounts_untyped {site : Site} (hname : (Helper.snake site.name).toList.all continuesName = true)
    (hsite : ∀ o ∈ site.operands, L.Knows names o) (h : (untyped site).Notes names fragment noted) :
    L.Accounts (.helper (Helper.snake site.name) :: (site.operands.flatMap converted).map .operand)
      fragment.code noted := by
  simp only [untyped, Emit.notes_bind, Emit.notes_pure, Emit.notes_require] at h
  obtain ⟨_, _, rfl, _, ⟨cs, noted, hcs, _, ⟨rfl, rfl⟩, rfl⟩, rfl⟩ := h
  have hrow := (rows_jsonbs hsite hcs).separated
  rw [flatten_kept] at hrow
  rw [List.append_nil]
  exact hrow.callOf hname

/-- A failure calls its helper and what its message calls. -/
lemma accounts_failure {ty : Ty} {message : String} (hmessage : L.Accounts shares message noted)
    {more : List String} (h : (failure ty message).Notes names code more) :
    L.Accounts (.helper (Helper.snake "fail") :: shares) code (more ++ noted) := by
  have hname : (Helper.snake "fail").toList.all continuesName = true := by decide
  simp only [failure, Emit.notes_bind, Emit.notes_require] at h
  obtain ⟨_, _, rfl, after, h, rfl⟩ := h
  cases hcolumn : column? ty with
  | some column =>
    simp only [hcolumn, Emit.notes_pure] at h
    obtain ⟨rfl, rfl⟩ := h
    have hnull : L.Accounts [] (cast "NULL" column) [] := accounts_cast (.quiet (by decide)) column
    have hcall := (hnull.joined (by decide : divides ", ".toList = true) hmessage).callOf hname
    simpa [String.append_assoc] using hcall
  | none =>
    simp only [hcolumn, Emit.notes_pure] at h
    obtain ⟨rfl, rfl⟩ := h
    simpa using hmessage.callOf hname

end Conversions

/-! ## Calls -/

namespace CallForm

/-- The helpers that a form calls. -/
def own : CallForm → Site → List String
  | .shared form, _ => form.own
  | .untyped, site | .asserted, site => [Helper.snake site.name]
  | .operator _, site => if site.argTypes.any Ty.isAny then [Helper.snake site.name] else []
  | .negation, site => if (site.argType 0).isAny then [Helper.snake site.name] else []
  | .nullTest place _, site =>
    if (site.argType place).isAny then [Helper.snake site.name] else []
  | .fail, _ => [Helper.snake "fail"]
  | _, _ => []

/-- What the code of a call in a form is made of. -/
def shares (form : CallForm) (site : Site) : List Share :=
  (form.own site).map .helper ++ (form.written site).map .operand

/-- The text of a form calls no helper but its own, and keeps the names in the codes of the arguments
as they are. -/
def isTidy : CallForm → Bool
  | .shared form => form.isTidy && form.own.isEmpty
  | .operator op | .wide op | .connective op | .dateShift _ op =>
    divides (' ' :: (letters op ++ [' ']))
  | .nullTest _ test => closes (' ' :: letters test)
  | .coerced function _ | .integerOf function => opens (letters function ++ ['('])
  | .extract part => opens (letters "EXTRACT(" ++ (letters part ++ letters " FROM "))
  | .untyped | .negation | .asserted | .complement | .endsWith | .containsText | .containsItem
  | .joined | .lastItem | .field | .fail => true

/-- The functions whose helpers a form may call, for a call of the name. -/
def assists (name : String) : CallForm → List String
  | .untyped | .asserted | .operator _ | .negation | .nullTest _ _ => [name]
  | _ => []

end CallForm

/-- The text of every form is tidy, and its helpers are in the catalogue. -/
lemma checks_calls : registry.checks (fun name form => form.isTidy &&
    (form.assists name).all fun function => decide (function ∈ assisted)) = true := by
  decide +kernel

/-- What a call is made of. -/
def callShares (site : Site) : List Share :=
  match registry.lookup site.name site.tags with
  | .ok form => form.shares site
  | .error _ => []

/-- The helpers of a form are in the catalogue.

**Proof sketch.** By cases on the form. The check of the registry says that a form calls no helper
but the one named after the call (`assists`), and that a shared form calls none. -/
lemma CallForm.own_mem {form : CallForm} {site : Site}
    (hlookup : registry.lookup site.name site.tags = .ok form) {helper : String}
    (h : helper ∈ form.own site) : ∃ function ∈ assisted, helper = Helper.snake function := by
  obtain ⟨htidy, hassists⟩ :=
    Bool.and_eq_true_iff.mp (Registry.of_checks rfl checks_calls hlookup)
  have hnamed (hassisted : form.assists site.name = [site.name])
      (h : helper ∈ [Helper.snake site.name]) :
      ∃ function ∈ assisted, helper = Helper.snake function := by
    refine ⟨site.name, ?_, List.mem_singleton.mp h⟩
    simpa [hassisted] using hassists
  cases form with
  | shared form =>
    have hnone : form.own = [] := by simpa [CallForm.isTidy] using (Bool.and_eq_true_iff.mp htidy).2
    simp [CallForm.own, hnone] at h
  | untyped | asserted => exact hnamed rfl h
  | operator | negation | nullTest =>
    simp only [CallForm.own] at h
    split_ifs at h
    · exact hnamed rfl h
    · cases h
  | fail => exact ⟨"fail", by decide, List.mem_singleton.mp h⟩
  | wide | connective | complement | dateShift | coerced | integerOf | extract | endsWith
  | containsText | containsItem | joined | lastItem | field => cases h

section Calls

variable {L : Ledger quoting} {names : Bindings} {site : Site} {fragment : Fragment}
  {noted : List String}

/-- An operator between two codes. -/
lemma accounts_between {shares shares' : List Share} {a b op : String} {more : List String}
    (hop : divides (' ' :: (letters op ++ [' '])) = true) (ha : L.Accounts shares a noted)
    (hb : L.Accounts shares' b more) :
    L.Accounts (shares ++ shares') (a ++ " " ++ op ++ " " ++ b) (noted ++ more) := by
  have hmark : divides (" " ++ op ++ " ").toList = true := by simpa using hop
  simpa [String.append_assoc] using ha.joined hmark hb

/-- A function of a code. -/
lemma accounts_function {shares : List Share} {function code : String}
    (hfunction : opens (letters function ++ ['(']) = true) (h : L.Accounts shares code noted) :
    L.Accounts shares (function ++ "(" ++ code ++ ")") noted := by
  have hopens : opens (function ++ "(").toList = true := by simpa using hfunction
  exact h.enclosed (function ++ "(") ")" hopens (by decide)

/-- The read of a field calls what the object and the key call. -/
lemma accounts_fieldCode {shares shares' : List Share} {object key : String} {more : List String}
    (result : Ty) (hobject : L.Accounts shares object noted) (hkey : L.Accounts shares' key more) :
    L.Accounts (shares ++ shares') (fieldCode result object key) (noted ++ more) := by
  have hmember := hobject.joined (by decide : divides " -> ".toList = true) hkey
  have htext := hobject.joined (by decide : divides " ->> ".toList = true) hkey
  unfold fieldCode
  split
  · simpa [String.append_assoc] using hmember.parens
  · simpa [String.append_assoc] using hmember.parens
  · simpa [String.append_assoc] using htext.parens
  · exact accounts_cast htext _

/-- A date that a duration is added to or taken from calls what the two arguments call. -/
lemma accounts_dateShift {dateFirst : Bool} {op : String}
    (hop : divides (' ' :: (letters op ++ [' '])) = true) (hknows : ∀ i, L.Knows names (site.operand i))
    (h : ((CallForm.dateShift dateFirst op).emit site).Notes names fragment noted) :
    L.Accounts ((CallForm.dateShift dateFirst op).shares site) fragment.code noted := by
  simp only [CallForm.emit, Emit.notes_bind] at h
  obtain ⟨lhs, before, hlhs, after, h, rfl⟩ := h
  have hlhs := (hknows _).accounts_wrapped hlhs
  simp only [CallForm.shares, CallForm.own, CallForm.written]
  cases hdays : (site.operand (if dateFirst then 1 else 0)).ir.literal?.bind
      Temporal.literalDays? with
  | some days =>
    simp only [hdays, Emit.notes_pure] at h ⊢
    obtain ⟨rfl, rfl⟩ := h
    have hcount : L.Accounts [] (toString days) [] := .silent (tells_toString (days : Int))
    simpa [Fragment.operation] using accounts_between hop hlhs hcount
  | none =>
    simp only [hdays, Emit.notes_bind, Emit.notes_pure] at h ⊢
    obtain ⟨rhs, noted, hrhs, _, ⟨rfl, rfl⟩, rfl⟩ := h
    rw [List.append_nil]
    exact accounts_cast (accounts_between hop hlhs ((hknows _).accounts_wrapped hrhs)) .date

/-- A part of a date calls what the date calls. -/
lemma accounts_extract {part : String}
    (hpart : opens (letters "EXTRACT(" ++ (letters part ++ letters " FROM ")) = true)
    (hknows : ∀ i, L.Knows names (site.operand i))
    (h : ((CallForm.extract part).emit site).Notes names fragment noted) :
    L.Accounts [.operand (site.operand 0)] fragment.code noted := by
  simp only [CallForm.emit, Emit.notes_bind, Emit.notes_pure] at h
  obtain ⟨value, noted, hvalue, _, ⟨rfl, rfl⟩, rfl⟩ := h
  have hvalue := accounts_coerce (hknows 0) hvalue
  have hzone : L.Accounts [] "'UTC'" [] := accounts_quote "UTC"
  have hutc := (hvalue.wrap precedence "AT" .left).joined
    (by decide : divides " AT TIME ZONE ".toList = true) hzone
  have hopens : opens ("EXTRACT(" ++ part ++ " FROM ").toList = true := by simpa using hpart
  have hextract {source : String} (hsource : L.Accounts [.operand (site.operand 0)] source noted) :
      L.Accounts [.operand (site.operand 0)]
        (cast ("EXTRACT(" ++ part ++ " FROM " ++ source ++ ")") .bigint) noted :=
    accounts_cast (hsource.enclosed ("EXTRACT(" ++ part ++ " FROM ") ")" hopens (by decide)) .bigint
  rw [List.append_nil]
  split
  · exact hextract (by simpa [String.append_assoc] using hutc)
  · exact hextract hvalue

/-- Writing a call calls and notes what the shares of its form do.

**Proof sketch.** One case for each form. A form that goes to a helper for arguments of unknown type
calls that helper; all others write their arguments, converted or read as a column type, with texts
between them that keep names apart. -/
lemma accounts_emit {form : CallForm} (hsound : form.isSound site.name = true)
    (hform : form.isTidy = true)
    (hown : ∀ name ∈ form.own site, name.toList.all continuesName = true)
    (hsite : ∀ o ∈ site.operands, L.Knows names o)
    (h : (form.emit site).Notes names fragment noted) :
    L.Accounts (form.shares site) fragment.code noted := by
  have hknows := Ledger.knows_operand hsite
  cases form with
  | shared form =>
    exact Form.accounts_emit hsound (Bool.and_eq_true_iff.mp hform).1 hown hsite h
  | untyped => exact accounts_untyped (hown _ (List.mem_singleton.mpr rfl)) hsite h
  | operator op =>
    simp only [CallForm.isSound, Bool.and_eq_true] at hsound
    simp only [CallForm.emit] at h
    simp only [CallForm.shares, CallForm.own, CallForm.written] at hown ⊢
    split_ifs at h hown ⊢
    · exact accounts_untyped (hown _ (List.mem_singleton.mpr rfl)) hsite h
    · have hinfix : (Form.infixOp op).isSound quoting = true := hsound.1
      exact Form.accounts_emit hinfix hform (List.forall_mem_nil _) hsite h
  | wide op =>
    simp only [CallForm.emit] at h
    split_ifs at h
    · simp only [Emit.notes_bind, Emit.notes_pure] at h
      obtain ⟨a, before, ha, _, ⟨_, _, ⟨rfl, rfl⟩, _, ⟨b, after, hb, _, ⟨rfl, rfl⟩, rfl⟩, rfl⟩,
        rfl⟩ := h
      have hsum := accounts_between hform (accounts_cast ((hknows 0).accounts_code ha) .bigint)
        ((hknows 1).accounts_wrapped hb)
      simpa [CallForm.shares, CallForm.own, CallForm.written, Fragment.operation] using hsum
    · simp only [Emit.notes_bind, Emit.notes_pure] at h
      obtain ⟨a, before, ha, _, ⟨b, after, hb, _, ⟨rfl, rfl⟩, rfl⟩, rfl⟩ := h
      have hsum := accounts_between hform ((hknows 0).accounts_wrapped ha)
        ((hknows 1).accounts_wrapped hb)
      simpa [CallForm.shares, CallForm.own, CallForm.written, Fragment.operation] using hsum
  | negation =>
    simp only [CallForm.emit] at h
    simp only [CallForm.shares, CallForm.own, CallForm.written] at hown ⊢
    split_ifs at h hown ⊢
    · exact accounts_untyped (hown _ (List.mem_singleton.mpr rfl)) hsite h
    · exact Form.accounts_emit (by decide) (by decide) (List.forall_mem_nil _) hsite h
  | connective op =>
    simp only [CallForm.emit, Emit.notes_bind, Emit.notes_pure] at h
    obtain ⟨a, before, ha, _, ⟨b, after, hb, _, ⟨rfl, rfl⟩, rfl⟩, rfl⟩ := h
    have hboth := accounts_between hform ((accounts_coerce (hknows 0) ha).wrap precedence op .left)
      ((accounts_coerce (hknows 1) hb).wrap precedence op .right)
    simpa [CallForm.shares, CallForm.own, CallForm.written, Fragment.operation] using hboth
  | complement =>
    simp only [CallForm.emit, Emit.notes_bind, Emit.notes_pure] at h
    obtain ⟨a, noted, ha, _, ⟨rfl, rfl⟩, rfl⟩ := h
    have hoperand := (accounts_coerce (hknows 0) ha).wrap precedence "NOT" .right
    simpa [CallForm.shares, CallForm.own, CallForm.written, Fragment.operation] using
      hoperand.enclosed "NOT " "" (by decide) (by decide)
  | nullTest place test =>
    simp only [CallForm.emit] at h
    simp only [CallForm.shares, CallForm.own, CallForm.written] at hown ⊢
    split_ifs at h hown ⊢
    · exact accounts_untyped (hown _ (List.mem_singleton.mpr rfl)) hsite h
    · simp only [Emit.notes_bind, Emit.notes_pure] at h
      obtain ⟨value, noted, hvalue, _, ⟨rfl, rfl⟩, rfl⟩ := h
      have hmark : closes (" " ++ test).toList = true := by simpa [CallForm.isTidy] using hform
      have hvalue := (hknows place).accounts_wrapped hvalue
      simpa [Fragment.operation, String.append_assoc] using
        hvalue.enclosed "" (" " ++ test) (by decide) hmark
  | dateShift dateFirst op => exact accounts_dateShift hform hknows h
  | asserted =>
    simp only [CallForm.emit, Emit.notes_bind, Emit.notes_pure, Emit.notes_require] at h
    obtain ⟨_, _, rfl, _, ⟨value, before, hvalue, _, ⟨message, after, hmessage, _, ⟨rfl, rfl⟩, rfl⟩,
      rfl⟩, rfl⟩ := h
    have hcall := ((accounts_jsonb (hknows 0) hvalue).joined (by decide : divides ", ".toList = true)
      (accounts_coerce (hknows 1) hmessage)).callOf (hown _ (List.mem_singleton.mpr rfl))
    simpa [CallForm.shares, CallForm.own, CallForm.written, Fragment.atom, String.append_assoc] using
      hcall
  | coerced function column =>
    simp only [CallForm.emit, Emit.notes_bind, Emit.notes_pure] at h
    obtain ⟨cs, noted, hcs, _, ⟨rfl, rfl⟩, rfl⟩ := h
    have hrow := (rows_coerceAll hsite hcs).separated
    rw [Ledger.flatten_singletons] at hrow
    rw [List.append_nil]
    exact accounts_function hform hrow
  | integerOf function =>
    simp only [CallForm.emit, Emit.notes_bind, Emit.notes_pure] at h
    obtain ⟨value, noted, hvalue, _, ⟨rfl, rfl⟩, rfl⟩ := h
    rw [List.append_nil]
    exact accounts_cast (accounts_function hform (accounts_coerce (hknows 0) hvalue)) .bigint
  | extract part => exact accounts_extract hform hknows h
  -- The ending is written twice, which adds nothing to what is called.
  | endsWith =>
    simp only [CallForm.emit, Emit.notes_bind, Emit.notes_pure] at h
    obtain ⟨text, before, htext, _, ⟨ending, after, hending, _, ⟨rfl, rfl⟩, rfl⟩, rfl⟩ := h
    have hending := accounts_coerce (hknows 1) hending
    have htest := (((accounts_coerce (hknows 0) htext).joined
      (by decide : divides ", LENGTH(".toList = true) hending).joined
      (by decide : divides ")) = ".toList = true) hending).enclosed "RIGHT(" "" (by decide) (by decide)
    simp only [String.append_empty, ← String.append_assoc] at htest
    refine htest.congr (fun s => ?_) fun n => by simp
    simp [CallForm.shares, CallForm.own, CallForm.written]
  -- The part stands before the text that it is looked for in.
  | containsText =>
    simp only [CallForm.emit, Emit.notes_bind, Emit.notes_pure] at h
    obtain ⟨text, before, htext, _, ⟨part, after, hpart, _, ⟨rfl, rfl⟩, rfl⟩, rfl⟩ := h
    have htest := ((accounts_coerce (hknows 1) hpart).joined
      (by decide : divides " IN ".toList = true) ((hknows 0).accounts_code htext)).enclosed
      "POSITION(" ") > 0" (by decide) (by decide)
    simp only [← String.append_assoc] at htest
    refine htest.congr (fun s => ?_) fun n => by simp [or_comm]
    simp [CallForm.shares, CallForm.own, CallForm.written, or_comm]
  | containsItem =>
    simp only [CallForm.emit, Emit.notes_bind, Emit.notes_pure] at h
    obtain ⟨item, before, hitem, _, ⟨items, after, hitems, _, ⟨rfl, rfl⟩, rfl⟩, rfl⟩ := h
    have htest := (((hknows 1).accounts_wrapped hitem).joined
      (by decide : divides " = ANY(".toList = true) ((hknows 0).accounts_code hitems)).enclosed
      "" ")" (by decide) (by decide)
    rw [String.empty_append] at htest
    refine htest.congr (fun s => ?_) fun n => by simp
    simp [CallForm.shares, CallForm.own, CallForm.written, or_comm]
  | joined =>
    simp only [CallForm.emit, Emit.notes_bind, Emit.notes_pure] at h
    obtain ⟨items, before, hitems, _, ⟨separator, after, hseparator, _, ⟨rfl, rfl⟩, rfl⟩, rfl⟩ := h
    have hcall := (((hknows 0).accounts_code hitems).joined (by decide : divides ", ".toList = true)
      (accounts_coerce (hknows 1) hseparator)).enclosed "array_to_string(" ")" (by decide) (by decide)
    simpa [CallForm.shares, CallForm.own, CallForm.written, Fragment.atom, String.append_assoc] using
      hcall
  -- The array is written twice, once for its length.
  | lastItem =>
    simp only [CallForm.emit, Emit.notes_bind, Emit.notes_pure] at h
    obtain ⟨items, noted, hitems, _, ⟨rfl, rfl⟩, rfl⟩ := h
    have hitems := (hknows 0).accounts_code hitems
    have hlast := (hitems.joined (by decide : divides ")[cardinality(".toList = true) hitems).enclosed
      "(" ")]" (by decide) (by decide)
    simp only [← String.append_assoc] at hlast
    refine hlast.congr (fun s => ?_) fun n => by simp
    simp [CallForm.shares, CallForm.own, CallForm.written]
  | field =>
    simp only [CallForm.emit, Emit.notes_bind, Emit.notes_pure] at h
    obtain ⟨object, before, hobject, _, ⟨key, after, hkey, _, ⟨rfl, rfl⟩, rfl⟩, rfl⟩ := h
    have hread := accounts_fieldCode site.result ((hknows 0).accounts_wrapped hobject)
      ((hknows 1).accounts_code hkey)
    simpa [CallForm.shares, CallForm.own, CallForm.written, Fragment.atom] using hread
  | fail =>
    simp only [CallForm.emit, Emit.notes_bind, Emit.notes_pure] at h
    obtain ⟨message, before, hmessage, _, ⟨code, after, hcode, _, ⟨rfl, rfl⟩, rfl⟩, rfl⟩ := h
    have hcall := accounts_failure (accounts_coerce (hknows 0) hmessage) hcode
    exact hcall.congr (fun s => Iff.rfl) fun n => by simp [or_comm]

/-- A call calls and notes what its shares do. -/
theorem accounts_call (hsite : ∀ o ∈ site.operands, L.Knows names o)
    (h : (target.call site).Notes names fragment noted) :
    L.Accounts (callShares site) fragment.code noted := by
  obtain ⟨form, hlookup, hform⟩ := Registry.exists_of_notes_call h
  have hsound := (Bool.and_eq_true_iff.mp (Registry.of_checks rfl checks_registry hlookup)).1
  have htidy := (Bool.and_eq_true_iff.mp (Registry.of_checks rfl checks_calls hlookup)).1
  rw [callShares, hlookup]
  refine accounts_emit hsound htidy (fun name hname => ?_) hsite hform
  obtain ⟨function, hfunction, rfl⟩ := CallForm.own_mem hlookup hname
  exact continuesName_of_mem hfunction

/-- The helper of a call is in the catalogue. -/
lemma mem_catalogue_of_callShares {name : String} (h : .helper name ∈ callShares site) :
    name ∈ catalogue := by
  unfold callShares at h
  split at h
  · rename_i form hlookup
    have hown : name ∈ form.own site := by simpa [CallForm.shares] using h
    obtain ⟨function, hfunction, rfl⟩ := CallForm.own_mem hlookup hown
    exact mem_catalogue.mpr (List.mem_map_of_mem hfunction)
  · cases h

end Calls

/-! ## Constants, names and constructs -/

section Constructs

variable {L : Ledger quoting} {names : Bindings} {fragment : Fragment} {noted : List String}

/-- A constant calls no helper. -/
lemma accounts_literal {value : Literal} (h : (target.literal value).Notes names fragment noted) :
    L.Accounts [] fragment.code noted := by
  simp only [target, Emit.notes_pure] at h
  obtain ⟨rfl, rfl⟩ := h
  have hmarked (mark : String) (hmark : opens mark.toList = true) (s : String) :
      L.Accounts [] (mark ++ quote s) [] := by
    simpa using (accounts_quote s).enclosed mark "" hmark (by decide)
  cases value with
  | int v => exact .silent (tells_toString v)
  | float x => exact .silent (tells_write _ x)
  | bool b => cases b <;> exact .quiet (by decide)
  | string s => exact accounts_quote s
  | date s => exact hmarked "DATE " (by decide) s
  | dateTime s => exact hmarked "TIMESTAMPTZ " (by decide) _
  | duration s => exact hmarked "INTERVAL " (by decide) s
  | null => exact .quiet (by decide)

/-- A variable, unless it is spelled like a helper. -/
lemma accounts_identifier {name : String} (h : IsIdentifier name) (hname : name ∉ L.catalogue) :
    L.Accounts [] (identifier name) [] := by
  refine .silent ?_
  unfold identifier
  split_ifs
  · exact tells_name h.continuesName hname
  · have hmark : '\x22' ∈ quoting.marks := List.mem_cons_of_mem _ List.mem_cons_self
    have hwritten : String.ofList (quoting.written '\x22' name) =
        "\x22" ++ doubled '\x22' name ++ "\x22" := by
      rw [← String.toList_inj]
      simp [quoting]
    exact hwritten ▸ tells_constant (seals_constant hmark name).spells

/-- The code that stands for a bound name calls what the code of its value does. -/
lemma accounts_substituted {shares : List Share} (value : Ir)
    (h : L.Accounts shares fragment.code noted) :
    L.Accounts shares (substituted value fragment).code noted := by
  unfold substituted
  split_ifs
  · exact accounts_cast h .bigint
  · exact h.parens
  · exact h

/-- A conditional calls what its condition and what is written of its branches call. -/
lemma accounts_conditional {test yes no : Operand} {ty : Ty} (htest : L.Knows names test)
    (hyes : L.Knows names yes) (hno : L.Knows names no)
    (h : (target.conditional test yes no ty).Notes names fragment noted) :
    L.Accounts ((test :: (branched ty yes ++ branched ty no)).map .operand) fragment.code noted := by
  simp only [target, Emit.notes_bind, Emit.notes_pure] at h
  obtain ⟨a, noted, ha, _, ⟨b, noted', hb, _, ⟨c, noted'', hc, _, ⟨rfl, rfl⟩, rfl⟩, rfl⟩, rfl⟩ := h
  have hcase := (((accounts_coerce htest ha).joined (by decide : divides " THEN ".toList = true)
    (accounts_branch hyes hb)).joined (by decide : divides " ELSE ".toList = true)
    (accounts_branch hno hc)).enclosed "CASE WHEN " " END" (by decide) (by decide)
  simpa [Fragment.atom, String.append_assoc] using hcase

/-- An alternative calls the helper of failures and what is written of its candidates. -/
lemma accounts_alternative {candidates : List Operand} {ty : Ty}
    (hcandidates : ∀ o ∈ candidates, L.Knows names o)
    (h : (target.alternative candidates ty).Notes names fragment noted) :
    L.Accounts (.helper (Helper.snake "fail") :: (candidates.flatMap (branched ty)).map .operand)
      fragment.code noted := by
  simp only [target] at h
  split_ifs at h
  · exact (Emit.notes_fail.mp h).elim
  · simp only [Emit.notes_bind, Emit.notes_pure] at h
    obtain ⟨cs, before, hcs, _, ⟨last, after, hlast, _, ⟨rfl, rfl⟩, rfl⟩, rfl⟩ := h
    have hmessage : L.Accounts [] (quote "no alternative matched") [] := accounts_quote _
    have hfailure := accounts_failure hmessage hlast
    have hrow := ((rows_branches ty hcandidates hcs).append (.cons hfailure .nil)).separated
    have hcall := hrow.enclosed "COALESCE(" ")" (by decide) (by decide)
    refine hcall.congr (fun s => ?_) fun n => by simp
    rw [List.flatten_append, flatten_kept]
    simp [or_comm]

end Constructs

end Retarget.Sql
