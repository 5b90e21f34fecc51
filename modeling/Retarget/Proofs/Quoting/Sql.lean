import Retarget.Proofs.Grouping.Quotation
import Retarget.Proofs.Quoting.Target

set_option autoImplicit false

/-!
# Sealed SQL code

SQL constants stand between single quotes and names that need it between double quotes; a quote of
the same kind between them is written twice.

## Main definitions

* `Retarget.Sql.quoting` — the rules of SQL for quoted constants and names.
* `Retarget.Sql.drops`, `Retarget.Sql.dropsBranch` — the arguments that a call does not write, and
  the branches that a conditional or an alternative does not write.

## Main results

* `Retarget.Sql.seals` — SQL makes sealed code of sealed codes.
* `Retarget.Sql.lists_written` — a call writes all arguments that it does not drop.
-/

namespace Retarget

/-- The type of null. -/
def Ty.isNull : Ty → Bool
  | .null => true
  | _ => false

namespace Sql

open Quoting

/-! ## Constants and names -/

/-- The text between two marks, where two marks stand for one. -/
def undoubled (mark : Char) : List Char → List Char
  | [] => []
  | [c] => [c]
  | c :: d :: cs =>
    if c = mark ∧ d = mark then c :: undoubled mark cs else c :: undoubled mark (d :: cs)

/-- A character other than the mark stands for itself. -/
lemma undoubled_cons {mark c : Char} (hc : c ≠ mark) (cs : List Char) :
    undoubled mark (c :: cs) = c :: undoubled mark cs := by
  cases cs with
  | nil => rfl
  | cons d ds => rw [undoubled, if_neg fun h => hc h.1]

/-- Writing marks twice is undone. -/
lemma undoubled_doubled (mark : Char) (s : String) :
    undoubled mark (doubled mark s).toList = s.toList := by
  rw [doubled, String.toList_ofList]
  induction s.toList with
  | nil => rfl
  | cons c cs ih =>
    rw [List.flatMap_cons]
    split_ifs with hc
    · rw [List.cons_append, List.singleton_append, undoubled, if_pos ⟨hc, hc⟩, ih]
    · rw [List.singleton_append, undoubled_cons hc, ih]

/-- The text that a constant or a name in quotes denotes. -/
def denoted : List Char → Option String
  | [] => none
  | mark :: cs => some (String.ofList (undoubled mark cs.dropLast))

/-- The rules of SQL for constants between single quotes and names between double quotes. -/
def quoting : Quoting where
  marks := ['\x27', '\x22']
  written mark s := mark :: ((doubled mark s).toList ++ [mark])
  constant := Quotation.doubling
  denoted := denoted

/-- A text that is written as a constant or a name is read as that. -/
theorem lawful : quoting.Lawful where
  marks hmark := List.mem_append_left ['\x60'] hmark
  head _ _ := ⟨_, rfl⟩
  constant {mark rest} hmark hclear s := by
    have hrest : rest.head? ≠ some mark := fun hhead =>
      hclear mark hhead (List.mem_append_left ['\x60'] hmark)
    simpa [quoting] using Quotation.doubling_append hmark s hrest
  denoted _ s := by
    simp only [quoting, denoted, List.dropLast_concat, undoubled_doubled, String.ofList_toList]

/-- A text as a constant. -/
lemma seals_quote (s : String) : quoting.Seals [.constant '\x27' s] (quote s) := by
  have hmark : '\x27' ∈ quoting.marks := List.mem_cons_self
  have hwritten : String.ofList (quoting.written '\x27' s) = quote s := by
    rw [← String.toList_inj]
    simp [quoting, quote]
  exact hwritten ▸ seals_constant hmark s

/-- A constant is sealed. -/
lemma isSealed_quote (s : String) : quoting.IsSealed (quote s) := ⟨_, seals_quote s⟩

/-- A name, in quotes or without. -/
lemma isSealed_identifier {name : String} (h : IsIdentifier name) :
    quoting.IsSealed (identifier name) := by
  unfold identifier
  split_ifs
  · exact isSealed_of_isBare h.isInert.isBare
  · have hmark : '\x22' ∈ quoting.marks := List.mem_cons_of_mem _ List.mem_cons_self
    have hwritten : String.ofList (quoting.written '\x22' name) =
        "\x22" ++ doubled '\x22' name ++ "\x22" := by
      rw [← String.toList_inj]
      simp [quoting]
    exact ⟨_, hwritten ▸ seals_constant hmark name⟩

/-- The code of a constant is sealed. -/
lemma isSealed_literalCode {value : Literal} (h : value.IsUnsigned) :
    quoting.IsSealed (literalCode value) := by
  have hmarked (mark : String) (hframes : frames mark "" = true) (s : String) :
      quoting.IsSealed (mark ++ quote s) := by
    simpa using (((isSealed_quote s).writes []).enclosed mark "" hframes).1
  cases value with
  | int v => exact isSealed_of_isBare (isNumeral_toString h).isInert.isBare
  | float x => exact isSealed_of_isBare (isNumeral_write _ h.1 h.2).isInert.isBare
  | bool b => cases b <;> exact isSealed_of_isBare (by decide)
  | string s => exact isSealed_quote s
  | date s => exact hmarked "DATE " (by decide) s
  | dateTime s => exact hmarked "TIMESTAMPTZ " (by decide) _
  | duration s => exact hmarked "INTERVAL " (by decide) s
  | null => exact isSealed_of_isBare (by decide)

/-! ## Values of unknown type -/

/-- The argument, where a value of its type is converted to `jsonb`: the null of `jsonb` stands for
any argument of the type of null. -/
def converted (o : Operand) : List Operand := if o.ir.ty.isNull then [] else [o]

section Conversions

variable {names : Bindings} {o : Operand} {os : List Operand} {code : String} {fragment : Fragment}

/-- A cast writes what its code writes. -/
lemma writes_cast (h : quoting.Writes names os code) (column : Column) :
    quoting.Writes names os (cast code column) := by
  have hcolumn : isBare column.code = true := by cases column <;> decide
  exact writes_of_parts
    [.text "CAST(", .code code os, .text " AS ", .bare column.code, .text ")"] rfl
    (by simp [Part.chars, cast]) ⟨trivial, h, trivial, hcolumn, trivial⟩ (by simp [Part.carried])

/-- An argument as a `jsonb` value is written unless it is of the type of null.

**Proof sketch.** By cases on the type of the argument, as `jsonb` does: it is written as it stands,
cast, wrapped in `to_jsonb`, or replaced by `NULL` when its type is null, and then it does not count
as written. -/
lemma writes_jsonb (ho : o.Sound quoting names) (h : (jsonb o).Succeeds names code) :
    quoting.Writes names (converted o) code := by
  have hsub : (converted o).Subperm [o] := by
    unfold converted
    split_ifs
    · exact List.nil_subperm
    · exact .refl _
  unfold jsonb at h
  split at h
  · exact (ho.writes_code h).mono hsub
  · exact (ho.writes_code h).mono hsub
  · rename_i hnull
    rw [← Emit.succeeds_pure.mp h, converted, hnull]
    exact (isSealed_of_isBare (by decide)).writes names
  · simp only [Emit.succeeds_bind] at h
    obtain ⟨inner, hinner, h⟩ := h
    have hinner := (ho.writes_code hinner).mono hsub
    split_ifs at h
    · rw [← Emit.succeeds_pure.mp h]
      exact (writes_cast hinner .text).enclosed "to_jsonb(" ")" (by decide)
    · rw [← Emit.succeeds_pure.mp h]
      exact hinner.enclosed "to_jsonb(" ")" (by decide)

/-- Arguments as `jsonb` values are written one by one. -/
lemma forall₂_jsonbs {cs : List String} (hos : ∀ o ∈ os, o.Sound quoting names)
    (h : (jsonbs os).Succeeds names cs) :
    List.Forall₂ (quoting.Writes names) (os.map converted) cs := by
  induction os generalizing cs with
  | nil =>
    rw [← Emit.succeeds_pure.mp h]
    exact .nil
  | cons o os ih =>
    obtain ⟨ho, hrest⟩ := List.forall_mem_cons.mp hos
    simp only [jsonbs, Emit.succeeds_bind, Emit.succeeds_pure] at h
    obtain ⟨c, hc, cs, hcs, rfl⟩ := h
    exact .cons (writes_jsonb ho hc) (ih hrest hcs)

/-- Code that is read as text writes what it did. -/
lemma writes_asText (h : quoting.Writes names os fragment.code) :
    quoting.Writes names os (asText fragment) := by
  have hpath : quoting.Writes names [] "'\x7b\x7d'" := (isSealed_of_seals? (by decide)).writes names
  exact writes_of_parts [.code _ os, .text " #>> ", .code "'\x7b\x7d'" []] rfl
    (by simp [Part.chars, asText]) ⟨h.wrap precedence "#>>" .left, trivial, hpath⟩
    (by simp [Part.carried])

/-- Code that is read as a column type writes what it did. -/
lemma writes_readAs (h : quoting.Writes names os fragment.code) (column : Column) :
    quoting.Writes names os (readAs column fragment) := by
  have htext := writes_asText h
  cases column with
  | bigint | numeric | doublePrecision | boolean => exact writes_cast h _
  | text => exact htext.parens
  | date | timestamp | timestamptz | interval | jsonb => exact writes_cast htext _

/-- An argument that is read as a column type is written. -/
lemma writes_coerce (ho : o.Sound quoting names) {column : Column}
    (h : (coerce o column).Succeeds names fragment) : quoting.Writes names [o] fragment.code := by
  simp only [coerce, Emit.succeeds_bind] at h
  obtain ⟨inner, hinner, h⟩ := h
  have hinner := ho.writes hinner
  split_ifs at h
  · rw [← Emit.succeeds_pure.mp h]
    exact writes_readAs hinner column
  · rwa [← Emit.succeeds_pure.mp h]

/-- Arguments that are read as a column type are written one by one. -/
lemma forall₂_coerceAll {cs : List String} (hos : ∀ o ∈ os, o.Sound quoting names)
    {column : Column} (h : (coerceAll column os).Succeeds names cs) :
    List.Forall₂ (quoting.Writes names) (os.map ([·])) cs := by
  induction os generalizing cs with
  | nil =>
    rw [← Emit.succeeds_pure.mp h]
    exact .nil
  | cons o os ih =>
    obtain ⟨ho, hrest⟩ := List.forall_mem_cons.mp hos
    simp only [coerceAll, Emit.succeeds_bind, Emit.succeeds_pure] at h
    obtain ⟨fragment, hfragment, cs, hcs, rfl⟩ := h
    exact .cons (writes_coerce ho hfragment) (ih hrest hcs)

/-- A call of a helper over `jsonb` arguments writes them unless they are of the type of null. -/
lemma writes_untyped {site : Site} (hname : isBare (Helper.snake site.name) = true)
    (hsite : ∀ o ∈ site.operands, o.Sound quoting names)
    (h : (untyped site).Succeeds names fragment) :
    quoting.Writes names (site.operands.flatMap converted) fragment.code := by
  simp only [untyped, Emit.succeeds_bind, Emit.succeeds_pure, Emit.succeeds_require] at h
  obtain ⟨-, -, cs, hcs, rfl⟩ := h
  have hrow := writes_commaSeparated (forall₂_jsonbs hsite hcs)
  rw [← List.flatMap_def] at hrow
  exact writes_of_parts
    [.bare (Helper.snake site.name), .text "(", .code _ (site.operands.flatMap converted), .text ")"]
    rfl (by simp [Part.chars, Fragment.atom]) ⟨hname, trivial, hrow, trivial⟩
    (by simp [Part.carried])

/-- A call of the failure helper. -/
def failureCode (ty : Ty) (message : String) : String :=
  match column? ty with
  | some column => Helper.snake "fail" ++ "(" ++ cast "NULL" column ++ ", " ++ message ++ ")"
  | none => Helper.snake "fail" ++ "(" ++ message ++ ")"

/-- A failure with a message always comes to its code. -/
@[simp] lemma succeeds_failure {ty : Ty} {message : String} :
    (failure ty message).Succeeds names code ↔ failureCode ty message = code := by
  unfold failure failureCode
  cases column? ty <;> simp

/-- A failure writes what its message writes. -/
lemma writes_failureCode (ty : Ty) (h : quoting.Writes names os code) :
    quoting.Writes names os (failureCode ty code) := by
  unfold failureCode
  split
  · rename_i column _
    have hnull : quoting.Writes names [] (cast "NULL" column) :=
      writes_cast ((isSealed_of_isBare (by decide)).writes names) column
    exact writes_of_parts
      [.text (Helper.snake "fail"), .text "(", .code _ [], .text ", ", .code code os, .text ")"]
      rfl (by simp [Part.chars]) ⟨trivial, trivial, hnull, trivial, h, trivial⟩
      (by simp [Part.carried])
  · exact h.enclosed (Helper.snake "fail" ++ "(") ")" (by decide)

/-- The branch, where it is written. -/
def branched (ty : Ty) (o : Operand) : List Operand := if ty.isAny then converted o else [o]

/-- A branch is written unless it is null as `jsonb`. -/
lemma writes_branch (ho : o.Sound quoting names) {ty : Ty} (h : (branch ty o).Succeeds names code) :
    quoting.Writes names (branched ty o) code := by
  unfold branch at h
  unfold branched
  split_ifs at h ⊢
  · exact writes_jsonb ho h
  · exact ho.writes_code h

/-- Branches are written one by one. -/
lemma forall₂_branches {cs : List String} (hos : ∀ o ∈ os, o.Sound quoting names) {ty : Ty}
    (h : (branches ty os).Succeeds names cs) :
    List.Forall₂ (quoting.Writes names) (os.map (branched ty)) cs := by
  induction os generalizing cs with
  | nil =>
    rw [← Emit.succeeds_pure.mp h]
    exact .nil
  | cons o os ih =>
    obtain ⟨ho, hrest⟩ := List.forall_mem_cons.mp hos
    simp only [branches, Emit.succeeds_bind, Emit.succeeds_pure] at h
    obtain ⟨c, hc, cs, hcs, rfl⟩ := h
    exact .cons (writes_branch ho hc) (ih hrest hcs)

end Conversions

/-! ## Calls -/

/-- The argument at the place is converted to `jsonb`. -/
def CallForm.converts : CallForm → List Ty → Nat → Bool
  | .untyped, _, _ => true
  | .operator _, argTypes, _ => argTypes.any Ty.isAny
  | .negation, argTypes, _ => (argTypes.getD 0 .any).isAny
  | .nullTest place _, argTypes, _ => (argTypes.getD place .any).isAny
  | .asserted, _, i => i == 0
  | _, _, _ => false

/-- The arguments that a form writes. -/
def CallForm.written : CallForm → Site → List Operand
  | .shared form, site => form.written site
  | .untyped, site => site.operands.flatMap converted
  | .operator _, site =>
    if site.argTypes.any Ty.isAny then site.operands.flatMap converted
    else [site.operand 0, site.operand 1]
  | .negation, site =>
    if (site.argType 0).isAny then site.operands.flatMap converted else [site.operand 0]
  | .nullTest place _, site =>
    if (site.argType place).isAny then site.operands.flatMap converted else [site.operand place]
  | .dateShift dateFirst _, site =>
    let duration := site.operand (if dateFirst then 1 else 0)
    match duration.ir.literal?.bind Temporal.literalDays? with
    | some _ => [site.operand (if dateFirst then 0 else 1)]
    | none => [site.operand (if dateFirst then 0 else 1), duration]
  | .asserted, site => converted (site.operand 0) ++ [site.operand 1]
  | .coerced _ _, site => site.operands
  | .wide _, site | .connective _, site | .endsWith, site | .containsText, site
  | .containsItem, site | .joined, site | .field, site => [site.operand 0, site.operand 1]
  | .complement, site | .integerOf _, site | .extract _, site | .lastItem, site | .fail, site =>
    [site.operand 0]

/-- The text of a form closes its brackets and keeps the codes of the arguments apart; for calls of a
helper this is about the name of the call. -/
def CallForm.isSound (name : String) : CallForm → Bool
  | .shared form => form.isSound quoting
  | .untyped | .negation | .asserted => isBare (Helper.snake name)
  | .operator text | .nullTest _ text => isBare text && isBare (Helper.snake name)
  | .wide text | .connective text | .dateShift _ text | .coerced text _ | .integerOf text
  | .extract text => isBare text
  | .complement | .endsWith | .containsText | .containsItem | .joined | .lastItem | .field
  | .fail => true

/-- The form does not write the argument at a place, whatever that is. -/
def CallForm.omits : CallForm → Nat → Nat → Bool
  | .shared form, count, i => form.omits count i
  | .untyped, _, _ | .coerced _ _, _, _ => false
  | .operator _, _, i | .wide _, _, i | .connective _, _, i | .dateShift _ _, _, i
  | .asserted, _, i | .endsWith, _, i | .containsText, _, i | .containsItem, _, i | .joined, _, i
  | .field, _, i => 1 < i
  | .negation, _, i | .complement, _, i | .integerOf _, _, i | .extract _, _, i | .lastItem, _, i
  | .fail, _, i => i != 0
  | .nullTest place _, _, i => i != place

/-- The form may write an argument as a count of days. -/
def CallForm.countsDays : CallForm → Bool
  | .dateShift _ _ => true
  | _ => false

/-- What the types of the arguments say about one that is not written: the type of the value settles
it, or it is of the type of null in a test of equality. -/
def explained (name : String) (tags : List Tag) (i : Nat) : Bool :=
  isSettled name tags i || isNullSide name tags i

/-- The text of every form is sound, only shifts count days, what a form omits is explained by the types, and
failures have one form. -/
lemma registry_passes : (registry.checks (fun name form => form.isSound name && (!form.countsDays || isShift name)) &&
    (registry.explains mayExplain CallForm.omits && registry.only "fail" [.any] .fail)) = true := by
  decide +kernel

/-- All forms are sound, and only shifts of dates count days. -/
lemma checks_registry :
    registry.checks (fun name form => form.isSound name && (!form.countsDays || isShift name)) = true :=
  (Bool.and_eq_true_iff.mp registry_passes).1

/-- What a form omits is explained by the types of its arguments. -/
lemma explains_registry : registry.explains mayExplain CallForm.omits = true :=
  (Bool.and_eq_true_iff.mp (Bool.and_eq_true_iff.mp registry_passes).2).1

/-- A failure is a call of the failure helper. -/
lemma only_fail : registry.only "fail" [.any] .fail = true :=
  (Bool.and_eq_true_iff.mp (Bool.and_eq_true_iff.mp registry_passes).2).2

section Calls

variable {names : Bindings} {site : Site} {fragment : Fragment}

/-- An operator between two codes. -/
lemma writes_between {os os' : List Operand} {a b op : String} (hop : isBare op = true)
    (ha : quoting.Writes names os a) (hb : quoting.Writes names os' b) :
    quoting.Writes names (os ++ os') (a ++ " " ++ op ++ " " ++ b) :=
  writes_of_parts [.code a os, .text " ", .bare op, .text " ", .code b os'] rfl
    (by simp [Part.chars]) ⟨ha, trivial, hop, trivial, hb⟩ (by simp [Part.carried])

/-- The read of a field writes what the object and the key write. -/
lemma writes_fieldCode {os os' : List Operand} {object key : String} (result : Ty)
    (hobject : quoting.Writes names os object) (hkey : quoting.Writes names os' key) :
    quoting.Writes names (os ++ os') (fieldCode result object key) := by
  have hmember : separates " -> " = true := by decide
  have htext : separates " ->> " = true := by decide
  unfold fieldCode
  split
  · simpa [String.append_assoc] using (hobject.separated hmember hkey).parens
  · simpa [String.append_assoc] using (hobject.separated hmember hkey).parens
  · simpa [String.append_assoc] using (hobject.separated htext hkey).parens
  · exact writes_cast (hobject.separated htext hkey) _

/-- A date that a duration is added to or taken from writes the date, and the duration unless it is
a count of days. -/
lemma writes_dateShift {dateFirst : Bool} {op : String} (hop : isBare op = true)
    (hsound : ∀ i, (site.operand i).Sound quoting names)
    (h : ((CallForm.dateShift dateFirst op).emit site).Succeeds names fragment) :
    quoting.Writes names ((CallForm.dateShift dateFirst op).written site) fragment.code := by
  simp only [CallForm.emit, Emit.succeeds_bind] at h
  obtain ⟨lhs, hlhs, h⟩ := h
  have hlhs := (hsound _).writes_wrapped hlhs
  simp only [CallForm.written]
  cases hdays : (site.operand (if dateFirst then 1 else 0)).ir.literal?.bind
      Temporal.literalDays? with
  | some days =>
    simp only [hdays, Emit.succeeds_pure] at h ⊢
    subst h
    have hcount := isSealed_of_isBare (q := quoting) (isNumeral_toString_nat days).isInert.isBare
    simpa [Fragment.operation] using writes_between hop hlhs (hcount.writes names)
  | none =>
    simp only [hdays, Emit.succeeds_bind, Emit.succeeds_pure] at h ⊢
    obtain ⟨rhs, hrhs, rfl⟩ := h
    exact writes_cast (writes_between hop hlhs ((hsound _).writes_wrapped hrhs)) .date

/-- A part of a date writes the date. -/
lemma writes_extract {part : String} (hpart : isBare part = true)
    (hsound : ∀ i, (site.operand i).Sound quoting names)
    (h : ((CallForm.extract part).emit site).Succeeds names fragment) :
    quoting.Writes names [site.operand 0] fragment.code := by
  simp only [CallForm.emit, Emit.succeeds_bind, Emit.succeeds_pure] at h
  obtain ⟨value, hvalue, rfl⟩ := h
  have hvalue := writes_coerce (hsound 0) hvalue
  have hzone : quoting.Writes names [] "'UTC'" := (isSealed_of_seals? (by decide)).writes names
  have hutc := hvalue.wrap precedence "AT" .left
  have hextract {source : String} (hsource : quoting.Writes names [site.operand 0] source) :
      quoting.Writes names [site.operand 0]
        (cast ("EXTRACT(" ++ part ++ " FROM " ++ source ++ ")") .bigint) := by
    refine writes_cast ?_ .bigint
    exact writes_of_parts
      [.text "EXTRACT(", .bare part, .text " FROM ", .code source [site.operand 0], .text ")"] rfl
      (by simp [Part.chars]) ⟨trivial, hpart, trivial, hsource, trivial⟩ (by simp [Part.carried])
  split
  · refine hextract ?_
    exact writes_of_parts
      [.code _ [site.operand 0], .text " AT TIME ZONE ", .code "'UTC'" []] rfl
      (by simp [Part.chars]) ⟨hutc, trivial, hzone⟩ (by simp [Part.carried])
  · exact hextract hvalue

/-- Writing a call gives sealed code in which the codes of the arguments stand that its form
writes.

**Proof sketch.** By cases on the form, each by the parts of its text (`writes_of_parts`) or by the
lemma of the helper that writes it (`writes_between`, `writes_cast`, `writes_coerce`,
`writes_untyped`). A form that falls back to the untyped function when an operand has type `any` is
split on that test. Where an argument is written twice (`endsWith`, `lastItem`) one of its codes is
chosen, and where the order differs (`containsText`, `containsItem`) the rows of arguments are
permutations of each other. -/
lemma writes_emit {form : CallForm} (hform : form.isSound site.name = true)
    (hsite : ∀ o ∈ site.operands, o.Sound quoting names)
    (h : (form.emit site).Succeeds names fragment) :
    quoting.Writes names (form.written site) fragment.code := by
  have hsound := site.sound_operand hsite
  have hexchanged : [site.operand 0, site.operand 1].Perm [site.operand 1, site.operand 0] :=
    .swap _ _ []
  cases form with
  | shared form => exact Form.writes_emit hform hsite h
  | untyped => exact writes_untyped hform hsite h
  | operator op =>
    simp only [CallForm.isSound, Bool.and_eq_true] at hform
    simp only [CallForm.emit] at h
    simp only [CallForm.written]
    split_ifs at h ⊢
    · exact writes_untyped hform.2 hsite h
    · have hinfix : (Form.infixOp op).isSound quoting = true := hform.1
      exact Form.writes_emit hinfix hsite h
  | wide op =>
    simp only [CallForm.emit] at h
    split_ifs at h
    · simp only [Emit.succeeds_bind, Emit.succeeds_pure, exists_eq_left'] at h
      obtain ⟨a, ha, b, hb, rfl⟩ := h
      exact writes_between hform (writes_cast ((hsound 0).writes_code ha) .bigint)
        ((hsound 1).writes_wrapped hb)
    · simp only [Emit.succeeds_bind, Emit.succeeds_pure] at h
      obtain ⟨a, ha, b, hb, rfl⟩ := h
      exact writes_between hform ((hsound 0).writes_wrapped ha)
        ((hsound 1).writes_wrapped hb)
  | negation =>
    simp only [CallForm.emit] at h
    simp only [CallForm.written]
    split_ifs at h ⊢
    · exact writes_untyped hform hsite h
    · exact Form.writes_emit (by decide) hsite h
  | connective op =>
    simp only [CallForm.emit, Emit.succeeds_bind, Emit.succeeds_pure] at h
    obtain ⟨a, ha, b, hb, rfl⟩ := h
    exact writes_between hform ((writes_coerce (hsound 0) ha).wrap _ _ _)
      ((writes_coerce (hsound 1) hb).wrap _ _ _)
  | complement =>
    simp only [CallForm.emit, Emit.succeeds_bind, Emit.succeeds_pure] at h
    obtain ⟨a, ha, rfl⟩ := h
    have hoperand := (writes_coerce (hsound 0) ha).wrap precedence "NOT" .right
    simpa [Fragment.operation, CallForm.written] using
      hoperand.enclosed "NOT " "" (by decide)
  | nullTest place test =>
    simp only [CallForm.isSound, Bool.and_eq_true] at hform
    simp only [CallForm.emit] at h
    simp only [CallForm.written]
    split_ifs at h ⊢
    · exact writes_untyped hform.2 hsite h
    · simp only [Emit.succeeds_bind, Emit.succeeds_pure] at h
      obtain ⟨value, hvalue, rfl⟩ := h
      exact writes_of_parts [.code value [_], .text " ", .bare test] rfl
        (by simp [Part.chars, Fragment.operation])
        ⟨(hsound place).writes_wrapped hvalue, trivial, hform.1⟩ (by simp [Part.carried])
  | dateShift dateFirst op => exact writes_dateShift hform hsound h
  | asserted =>
    simp only [CallForm.emit, Emit.succeeds_bind, Emit.succeeds_pure, Emit.succeeds_require] at h
    obtain ⟨-, -, value, hvalue, message, hmessage, rfl⟩ := h
    exact writes_of_parts
      [.bare (Helper.snake site.name), .text "(", .code value (converted (site.operand 0)),
        .text ", ", .code message.code [_], .text ")"] rfl
      (by simp [Part.chars, Fragment.atom])
      ⟨hform, trivial, writes_jsonb (hsound 0) hvalue, trivial, writes_coerce (hsound 1) hmessage,
        trivial⟩ (by simp [Part.carried, CallForm.written])
  | coerced function column =>
    simp only [CallForm.emit, Emit.succeeds_bind, Emit.succeeds_pure] at h
    obtain ⟨cs, hcs, rfl⟩ := h
    have hrow := writes_commaSeparated (forall₂_coerceAll hsite hcs)
    rw [flatten_map_singleton] at hrow
    exact writes_of_parts
      [.bare function, .text "(", .code _ site.operands, .text ")"] rfl
      (by simp [Part.chars, Fragment.atom]) ⟨hform, trivial, hrow, trivial⟩
      (by simp [Part.carried, CallForm.written])
  | integerOf function =>
    simp only [CallForm.emit, Emit.succeeds_bind, Emit.succeeds_pure] at h
    obtain ⟨value, hvalue, rfl⟩ := h
    refine writes_cast ?_ .bigint
    exact writes_of_parts
      [.bare function, .text "(", .code value.code [site.operand 0], .text ")"] rfl
      (by simp [Part.chars]) ⟨hform, trivial, writes_coerce (hsound 0) hvalue, trivial⟩
      (by simp [Part.carried, CallForm.written])
  | extract part => exact writes_extract hform hsound h
  | endsWith =>
    simp only [CallForm.emit, Emit.succeeds_bind, Emit.succeeds_pure] at h
    obtain ⟨text, htext, ending, hending, rfl⟩ := h
    have hending := writes_coerce (hsound 1) hending
    exact writes_of_parts
      [.text "RIGHT(", .code text.code [_], .text ", LENGTH(", .code ending.code [_],
        .text ")) = ", .code ending.code [_]] rfl
      (by simp [Part.chars, Fragment.operation])
      ⟨trivial, writes_coerce (hsound 0) htext, trivial, hending, trivial, hending⟩
      (by
        have hsub : [site.operand 0, site.operand 1].Sublist
            [site.operand 0, site.operand 1, site.operand 1] :=
          (List.sublist_append_left [site.operand 1] [site.operand 1]).cons_cons _
        simpa [Part.carried, CallForm.written] using hsub.subperm)
  | containsText =>
    simp only [CallForm.emit, Emit.succeeds_bind, Emit.succeeds_pure] at h
    obtain ⟨text, htext, part, hpart, rfl⟩ := h
    exact writes_of_parts
      [.text "POSITION(", .code part.code [_], .text " IN ", .code text [_], .text ") > 0"] rfl
      (by simp [Part.chars, Fragment.operation])
      ⟨trivial, writes_coerce (hsound 1) hpart, trivial, (hsound 0).writes_code htext, trivial⟩
      (by simpa [Part.carried, CallForm.written] using hexchanged.subperm)
  | containsItem =>
    simp only [CallForm.emit, Emit.succeeds_bind, Emit.succeeds_pure] at h
    obtain ⟨item, hitem, items, hitems, rfl⟩ := h
    exact writes_of_parts
      [.code item [_], .text " = ANY(", .code items [_], .text ")"] rfl
      (by simp [Part.chars, Fragment.operation])
      ⟨(hsound 1).writes_wrapped hitem, trivial, (hsound 0).writes_code hitems, trivial⟩
      (by simpa [Part.carried, CallForm.written] using hexchanged.subperm)
  | joined =>
    simp only [CallForm.emit, Emit.succeeds_bind, Emit.succeeds_pure] at h
    obtain ⟨items, hitems, separator, hseparator, rfl⟩ := h
    exact writes_of_parts
      [.text "array_to_string(", .code items [_], .text ", ", .code separator.code [_], .text ")"]
      rfl (by simp [Part.chars, Fragment.atom])
      ⟨trivial, (hsound 0).writes_code hitems, trivial, writes_coerce (hsound 1) hseparator,
        trivial⟩ (by simp [Part.carried, CallForm.written])
  | lastItem =>
    simp only [CallForm.emit, Emit.succeeds_bind, Emit.succeeds_pure] at h
    obtain ⟨items, hitems, rfl⟩ := h
    have hitems := (hsound 0).writes_code hitems
    exact writes_of_parts
      [.text "(", .code items [_], .text ")[cardinality(", .code items [_], .text ")]"] rfl
      (by simp [Part.chars, Fragment.atom]) ⟨trivial, hitems, trivial, hitems, trivial⟩
      (by simp [Part.carried, CallForm.written])
  | field =>
    simp only [CallForm.emit, Emit.succeeds_bind, Emit.succeeds_pure] at h
    obtain ⟨object, hobject, key, hkey, rfl⟩ := h
    exact writes_fieldCode _ ((hsound 0).writes_wrapped hobject) ((hsound 1).writes_code hkey)
  | fail =>
    simp only [CallForm.emit, Emit.succeeds_bind, Emit.succeeds_pure, succeeds_failure] at h
    obtain ⟨message, hmessage, _, rfl, rfl⟩ := h
    exact writes_failureCode _ (writes_coerce (hsound 0) hmessage)

/-- The form of a call writes its arguments. -/
lemma writes_call (hsite : ∀ o ∈ site.operands, o.Sound quoting names)
    (h : (target.call site).Succeeds names fragment) :
    ∃ form, registry.lookup site.name site.tags = .ok form ∧
      quoting.Writes names (form.written site) fragment.code := by
  obtain ⟨form, hlookup, hform⟩ := Registry.exists_of_call h
  have hchecks := Registry.of_checks rfl checks_registry hlookup
  exact ⟨form, hlookup, writes_emit (Bool.and_eq_true_iff.mp hchecks).1 hsite hform⟩

end Calls

/-! ## Arguments that calls drop -/

/-- The call converts the argument at the place to `jsonb`. -/
def converts (name : String) (argTypes : List Ty) (i : Nat) : Bool :=
  match registry.lookup name (argTypes.map Ty.tag) with
  | .ok form => form.converts argTypes i
  | .error _ => false

/-- A call does not write the argument at the place: the types explain it, it is of the type of null
and converted to `jsonb`, or it is a duration that may be written as a count of days. -/
def drops (name : String) (args : List Ir) (argTypes : List Ty) (i : Nat) : Bool :=
  explained name (argTypes.map Ty.tag) i ||
    (converts name argTypes i && args[i]?.any fun a => a.ty.isNull) ||
    (isShift name && args[i]?.any Ir.isDuration)

/-- A conditional or an alternative of unknown type does not write a branch of the type of null. -/
def dropsBranch (ty : Ty) (branch : Ir) : Bool := ty.isAny && branch.ty.isNull

/-- Of two sides of the type of null a test of equality writes the right one. -/
lemma omits_nulls (name : String) (hname : name ∈ ["eq", "neq"]) (form : CallForm)
    (h : registry.lookup name [.null, .null] = .ok form) : form.omits 2 1 = false := by
  have heq : registry.lookup "eq" [.null, .null] = .ok (.nullTest 1 "IS NULL") := rfl
  have hneq : registry.lookup "neq" [.null, .null] = .ok (.nullTest 1 "IS NOT NULL") := rfl
  simp only [List.mem_cons, List.not_mem_nil, or_false] at hname
  rcases hname with rfl | rfl
  · cases heq.symm.trans h
    rfl
  · cases hneq.symm.trans h
    rfl

/-- The forms for any number of arguments omit none. -/
lemma omits_variadics (name : String) (least : Nat) (form : CallForm)
    (h : (name, least, form) ∈ registry.variadics) (count i : Nat)
    (homits : form.omits count i = true) : false = true := by
  have hvariadics : registry.variadics = [("record", 0, .shared (.function "jsonb_build_object")),
      ("array", 0, .shared (.sequence "ARRAY[" "]"))] := rfl
  rw [hvariadics] at h
  simp only [List.mem_cons, Prod.mk.injEq, List.not_mem_nil, or_false] at h
  rcases h with ⟨rfl, rfl, rfl⟩ | ⟨rfl, rfl, rfl⟩
  · exact homits
  · exact homits

/-- An argument that is not of the type of null is written where it is converted. -/
lemma converted_eq {o : Operand} (h : o.ir.ty.isNull = false) : converted o = [o] := by
  simp [converted, h]

/-- Of arguments that are converted to `jsonb` all are written that are not of the type of null. -/
lemma lists_converted (site : Site) :
    site.Lists (site.operands.flatMap converted) fun i => (site.operand i).ir.ty.isNull = false := by
  have hfilter (os : List Operand) :
      os.flatMap converted = os.filter fun o => !o.ir.ty.isNull := by
    induction os with
    | nil => rfl
    | cons o os ih => cases hnull : o.ir.ty.isNull <;> simp [converted, hnull, ih]
  have hwritten : site.operands.flatMap converted = ((List.range site.operands.length).filter
      fun i => !(site.operand i).ir.ty.isNull).map site.operand := by
    rw [hfilter]
    conv_lhs => rw [← site.map_operand_range]
    rw [List.filter_map]
    rfl
  rw [hwritten]
  exact Site.lists_map _ fun i hi hnull =>
    List.mem_filter.mpr ⟨List.mem_range.mpr hi, by rw [hnull]; rfl⟩

/-- A form writes all arguments that it does not omit, but for one that is converted to the null of
`jsonb` and for a count of days.

**Proof sketch.** By cases on the form. A form that may convert its arguments to `jsonb` writes
those that are not of type `null` (`lists_converted`), and one that may not writes its first, or its
first two arguments. What is left are the shift of a date, whose duration may be written as a number
of days, and an assertion, whose value is converted. -/
lemma CallForm.lists_written (form : CallForm) (site : Site) :
    site.Lists (form.written site) fun i => form.omits site.operands.length i = false ∧
      (form.converts site.argTypes i = true → (site.operand i).ir.ty.isNull = false) ∧
      (form.countsDays = true → (site.operand i).ir.isDuration = false) := by
  have hone : site.Lists [site.operand 0] fun i => (i != 0) = false :=
    Form.lists_written .identity site
  have hboth : site.Lists [site.operand 0, site.operand 1] fun i => decide (1 < i) = false :=
    Form.lists_written (.infixOp "") site
  cases form with
  | shared form => exact (form.lists_written site).imp fun _ _ h => h.1
  | untyped => exact (lists_converted site).imp fun _ _ h => h.2.1 rfl
  | operator op =>
    simp only [CallForm.written]
    split_ifs with hany
    · exact (lists_converted site).imp fun _ _ h => h.2.1 hany
    · exact hboth.imp fun _ _ h => h.1
  | negation =>
    simp only [CallForm.written]
    split_ifs with hany
    · exact (lists_converted site).imp fun _ _ h => h.2.1 hany
    · exact hone.imp fun _ _ h => h.1
  | nullTest place test =>
    simp only [CallForm.written]
    split_ifs with hany
    · exact (lists_converted site).imp fun _ _ h => h.2.1 hany
    · refine Site.lists_map [place] fun i _ ⟨homits, _⟩ => ?_
      simpa [CallForm.omits] using homits
  | dateShift dateFirst op =>
    simp only [CallForm.written]
    split
    · rename_i days hcount
      refine Site.lists_map [if dateFirst then 0 else 1] fun i _ ⟨homits, _, hdays⟩ => ?_
      have hduration := Ir.isDuration_of_literalDays hcount
      by_contra hne
      -- The one place that is not written is the place of the duration.
      have heq : i = if dateFirst then 1 else 0 := by
        simp only [CallForm.omits, decide_eq_false_iff_not] at homits
        rw [List.mem_singleton] at hne
        split_ifs at hne ⊢ <;> omega
      rw [← heq, hdays rfl] at hduration
      cases hduration
    · refine Site.lists_map [if dateFirst then 0 else 1, if dateFirst then 1 else 0]
        fun i _ ⟨homits, _⟩ => ?_
      simp only [CallForm.omits, decide_eq_false_iff_not] at homits
      simp only [List.mem_cons, List.not_mem_nil, or_false]
      split_ifs <;> omega
  | asserted =>
    cases hnull : (site.operand 0).ir.ty.isNull with
    | false =>
      rw [CallForm.written, converted_eq hnull]
      exact hboth.imp fun _ _ h => h.1
    | true =>
      rw [CallForm.written, converted, hnull]
      refine Site.lists_map [1] fun i _ ⟨homits, hconverts, _⟩ => ?_
      rcases i with - | - | i
      · rw [hnull] at hconverts
        cases hconverts rfl
      · exact List.mem_singleton_self 1
      · simp [CallForm.omits] at homits
  | coerced function column => exact site.lists_operands _
  | wide | connective | endsWith | containsText | containsItem | joined | field =>
    exact hboth.imp fun _ _ h => h.1
  | complement | integerOf | extract | lastItem | fail => exact hone.imp fun _ _ h => h.1

/-- A call writes all arguments that it does not drop.

**Proof sketch.** As in `CallForm.lists_written` the form writes what it does not omit. What it
omits is explained by the registry, as a settled test or a side of a null test; an argument of type
null that is converted to `jsonb`, and a duration that is written as a count of days, are dropped
too. -/
lemma lists_written {name : String} {args : List Ir} {argTypes : List Ty} {form : CallForm}
    (hlookup : registry.lookup name (argTypes.map Ty.tag) = .ok form)
    (hlength : argTypes.length = args.length) (ty : Ty) :
    Site.Lists ⟨name, Target.operands target args, argTypes, ty⟩
      (form.written ⟨name, Target.operands target args, argTypes, ty⟩)
      fun i => drops name args argTypes i = false := by
  refine (form.lists_written _).imp fun i hi hdrops => ?_
  have hcount : (argTypes.map Ty.tag).length = (Target.operands target args).length := by
    rw [List.length_map, Target.length_operands, hlength]
  have hlt : i < args.length := by rwa [Target.length_operands] at hi
  have hoperand : Site.operand ⟨name, Target.operands target args, argTypes, ty⟩ i =
      target.operand args[i] :=
    Site.operand_eq (target.getElem?_operands (List.getElem?_eq_getElem hlt))
  simp only [drops, explained, Bool.or_eq_false_iff] at hdrops
  obtain ⟨⟨⟨hsettled, hside⟩, hconverts⟩, hshift⟩ := hdrops
  rw [hoperand]
  refine ⟨?_, fun hform => ?_, fun hdays => ?_⟩
  · rw [← hcount] at hi ⊢
    exact Registry.omits_eq_false_of_sides rfl explains_registry (fun _ _ _ => false)
      omits_variadics omits_nulls hlookup hi hsettled hside rfl
  · have hcall : converts name argTypes i = true := by
      simp only [converts, hlookup]
      exact hform
    simpa [hcall, List.getElem?_eq_getElem hlt, Target.operand] using hconverts
  · have hchecks := Registry.of_checks rfl checks_registry hlookup
    have hname := (Bool.and_eq_true_iff.mp hchecks).2
    simp only [hdays, Bool.not_true, Bool.false_or] at hname
    simpa [hname, List.getElem?_eq_getElem hlt, Target.operand] using hshift

/-! ## The target -/

section Target

variable {names : Bindings} {fragment : Fragment}

/-- The code that stands for a bound name writes what the code of its value writes. -/
lemma writes_substituted {os : List Operand} (value : Ir) (h : quoting.Writes names os fragment.code) :
    quoting.Writes names os (substituted value fragment).code := by
  unfold substituted
  split_ifs
  · exact writes_cast h .bigint
  · exact h.parens
  · exact h

/-- A name stands for sealed code. -/
lemma SealsNames.cons {name : String} {value : Ir} (hnames : quoting.SealsNames names)
    (h : quoting.IsSealed fragment.code) :
    quoting.SealsNames ((name, substituted value fragment) :: names) :=
  List.forall_mem_cons.mpr ⟨(writes_substituted value (h.writes names)).1, hnames⟩

/-- Bindings around a sealed body are sealed. -/
lemma isSealed_bindIn {bindings : List (String × Operand)} {body : Operand}
    (hvalues : ∀ b ∈ bindings, b.2.Seals quoting) (hbody : body.Seals quoting)
    (hnames : quoting.SealsNames names) (h : (bindIn bindings body).Succeeds names fragment) :
    quoting.IsSealed fragment.code := by
  induction bindings generalizing names with
  | nil => exact hbody names hnames fragment h
  | cons b bindings ih =>
    obtain ⟨hvalue, hrest⟩ := List.forall_mem_cons.mp hvalues
    simp only [bindIn, Emit.succeeds_bind, Emit.succeeds_binding] at h
    obtain ⟨value, hwritten, h⟩ := h
    exact ih hrest (SealsNames.cons hnames (hvalue names hnames value hwritten)) h

/-- A conditional writes its condition, and its branches unless they are null as `jsonb`. -/
lemma writes_conditional {test yes no : Operand} {ty : Ty} (htest : test.Sound quoting names)
    (hyes : yes.Sound quoting names) (hno : no.Sound quoting names)
    (h : (target.conditional test yes no ty).Succeeds names fragment) :
    quoting.Writes names (test :: (branched ty yes ++ branched ty no)) fragment.code := by
  simp only [target, Emit.succeeds_bind, Emit.succeeds_pure] at h
  obtain ⟨a, ha, b, hb, c, hc, rfl⟩ := h
  exact writes_of_parts
    [.text "CASE WHEN ", .code a.code [test], .text " THEN ", .code b (branched ty yes),
      .text " ELSE ", .code c (branched ty no), .text " END"] rfl
    (by simp [Part.chars, Fragment.atom])
    ⟨trivial, writes_coerce htest ha, trivial, writes_branch hyes hb, trivial, writes_branch hno hc,
      trivial⟩ (by simp [Part.carried])

/-- An alternative writes its candidates unless they are null as `jsonb`. -/
lemma writes_alternative {candidates : List Operand} {ty : Ty}
    (hcandidates : ∀ o ∈ candidates, o.Sound quoting names)
    (h : (target.alternative candidates ty).Succeeds names fragment) :
    quoting.Writes names (candidates.flatMap (branched ty)) fragment.code := by
  simp only [target] at h
  split_ifs at h
  · exact (Emit.succeeds_fail.mp h).elim
  · simp only [Emit.succeeds_bind, Emit.succeeds_pure, succeeds_failure] at h
    obtain ⟨cs, hcs, last, rfl, rfl⟩ := h
    have hlast : quoting.Writes names [] (failureCode ty (quote "no alternative matched")) :=
      writes_failureCode ty ((isSealed_quote _).writes names)
    have hrow := writes_commaSeparated
      (List.rel_append (forall₂_branches hcandidates hcs) (.cons hlast .nil))
    simpa [List.flatMap_def, Fragment.atom] using
      hrow.enclosed "COALESCE(" ")" (by decide)

end Target

/-- SQL makes sealed code of sealed codes. -/
theorem seals : target.Seals quoting where
  literal hvalue h := by
    simp only [target, Emit.succeeds_pure] at h
    subst h
    exact isSealed_literalCode hvalue
  variableCode hname := isSealed_identifier hname
  letIn _ hvalues hbody hsealed h := isSealed_bindIn hvalues hbody hsealed h
  lambda _ _ h := (Emit.succeeds_fail.mp h).elim
  conditional htest hyes hno h := (writes_conditional htest hyes hno h).1
  alternative hcandidates h := (writes_alternative hcandidates h).1
  call hsite h := by
    obtain ⟨form, -, hwrites⟩ := writes_call hsite h
    exact hwrites.1

end Sql

end Retarget
