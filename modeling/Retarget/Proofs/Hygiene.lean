import Mathlib
import Retarget.Target.Sql

set_option autoImplicit false

/-!
# Bound names leave no trace in SQL

SQL code has no bindings: the code of a bound value stands where its name stood. So the names that a
lowered form binds do not show in the code: two lowered forms that differ only in them are compiled to
the same code with the same helpers, or refused with the same error.

Which binder a name stands for is followed along both forms at once, in the pairs of names that the
binders around it bind in one form and in the other, innermost first.

## Main definitions

* `Retarget.Linked` — two names stand for the same binder, or are the same free name.
* `Retarget.Ir.Renamed` — two lowered forms that differ only in the names that `let` binds.
* `Retarget.Emit.Same` — two computations come to the same, each with its own names bound.

## Main results

* `Retarget.Sql.CallForm.same_emit` — a call of arguments that are written alike is written alike.
* `Retarget.Sql.compile_renamed` — lowered forms that differ only in bound names are compiled alike.
-/

namespace Retarget

/-! ## Renaming -/

/-- Where binders bind these names in one form and in the other, innermost first, the two names stand
for the same binder, or for none and are the same. -/
inductive Linked : List (String × String) → String → String → Prop
  | free {x : String} : Linked [] x x
  | here {x y : String} {scope : List (String × String)} : Linked ((x, y) :: scope) x y
  | there {x y a b : String} {scope : List (String × String)} : x ≠ a → y ≠ b → Linked scope x y →
      Linked ((a, b) :: scope) x y

/-- The two lowered forms differ only in the names that `let` binds: every name stands for the same
binder in both. The bindings of a `let` see those before them. -/
inductive Ir.Renamed : List (String × String) → Ir → Ir → Prop
  | literal {scope : List (String × String)} {value : Literal} {ty : Ty} :
      Renamed scope (.literal value ty) (.literal value ty)
  | var {scope : List (String × String)} {x y : String} {ty : Ty} : Linked scope x y →
      Renamed scope (.var x ty) (.var y ty)
  | body {scope : List (String × String)} {body body' : Ir} {ty : Ty} : Renamed scope body body' →
      Renamed scope (.letIn [] body ty) (.letIn [] body' ty)
  | binding {scope : List (String × String)} {x y : String} {value value' body body' : Ir}
      {rest rest' : List (String × Ir)} {ty : Ty} : Renamed scope value value' →
      Renamed ((x, y) :: scope) (.letIn rest body ty) (.letIn rest' body' ty) →
      Renamed scope (.letIn ((x, value) :: rest) body ty) (.letIn ((y, value') :: rest') body' ty)
  | lambda {scope : List (String × String)} {params : List String} {body body' : Ir} {ty : Ty} :
      Renamed (params.map (fun p => (p, p)) ++ scope) body body' →
      Renamed scope (.lambda params body ty) (.lambda params body' ty)
  | cond {scope : List (String × String)} {test test' yes yes' no no' : Ir} {ty : Ty} :
      Renamed scope test test' → Renamed scope yes yes' → Renamed scope no no' →
      Renamed scope (.cond test yes no ty) (.cond test' yes' no' ty)
  | alternative {scope : List (String × String)} {candidates candidates' : List Ir} {ty : Ty} :
      candidates.length = candidates'.length →
      (∀ p ∈ candidates.zip candidates', Renamed scope p.1 p.2) →
      Renamed scope (.alternative candidates ty) (.alternative candidates' ty)
  | call {scope : List (String × String)} {name : String} {args args' : List Ir}
      {argTypes : List Ty} {ty : Ty} : args.length = args'.length →
      (∀ p ∈ args.zip args', Renamed scope p.1 p.2) →
      Renamed scope (.call name args argTypes ty) (.call name args' argTypes ty)

/-! ## Computations with different names bound -/

namespace Emit

variable {α β : Type} {names names' : Bindings}

/-- The computations come to the same, each where its own names are bound: the same result or the same
error, and the same helpers. -/
def Same (names names' : Bindings) (m m' : Emit α) : Prop := m names = m' names'

/-- A value comes to the same whatever is bound. -/
lemma same_pure (a : α) : Same names names' (pure a) (pure a) := rfl

/-- An error comes to the same whatever is bound. -/
lemma same_fail (e : CompileError) : Same names names' (fail e : Emit α) (fail e) := rfl

/-- A helper is noted whatever is bound. -/
lemma same_require (helper : String) : Same names names' (require helper) (require helper) := rfl

/-- One computation after another. -/
lemma Same.bind {m m' : Emit α} {f f' : α → Emit β} (h : Same names names' m m')
    (hf : ∀ a, Same names names' (f a) (f' a)) : Same names names' (m >>= f) (m' >>= f') := by
  rcases hwritten : m' names' with ⟨outcome, helpers⟩
  have hm : m names = ⟨outcome, helpers⟩ := Eq.trans h hwritten
  unfold Same
  simp only [Bind.bind, hwritten, hm]
  cases outcome with
  | error e => rfl
  | ok a =>
    have ha : f a names = f' a names' := hf a
    simp only [ha]

/-- Computations that branch alike come to the same where their branches do. -/
lemma Same.ite {c : Prop} [Decidable c] {m m' n n' : Emit α} (hm : c → Same names names' m m')
    (hn : ¬c → Same names names' n n') :
    Same names names' (if c then m else n) (if c then m' else n') := by
  split_ifs with h
  · exact hm h
  · exact hn h

end Emit

open Emit

/-! ## Arguments -/

/-- The lowered forms show the same to a form that looks at them. -/
structure Ir.Resembles (ir ir' : Ir) : Prop where
  ty : ir.ty = ir'.ty
  literal : ir.literal? = ir'.literal?
  narrow : Sql.isNarrow ir = Sql.isNarrow ir'
  raises : ir.mayRaise = ir'.mayRaise

/-- The arguments show the same and are written the same, each with its own names bound. -/
structure Operand.Alike (names names' : Bindings) (o o' : Operand) : Prop where
  resembles : o.ir.Resembles o'.ir
  fragment : Same names names' o.fragment o'.fragment

variable {names names' : Bindings} {o o' : Operand} {os os' : List Operand}

namespace Operand.Alike

/-- Arguments that are alike have the same code. -/
lemma code (h : o.Alike names names' o') : Same names names' o.code o'.code :=
  h.fragment.bind fun _ => same_pure _

/-- Arguments that are alike have the same code on a side of an operator. -/
lemma wrapped (h : o.Alike names names' o') (table : PrecedenceTable) (outer : String)
    (side : Side) : Same names names' (o.wrapped table outer side) (o'.wrapped table outer side) :=
  h.fragment.bind fun _ => same_pure _

end Operand.Alike

/-- Rows of arguments that are alike have the same codes. -/
lemma same_codes (h : List.Forall₂ (Operand.Alike names names') os os') :
    Same names names' (codes os) (codes os') := by
  induction h with
  | nil => exact same_pure _
  | cons ho _ ih => exact ho.code.bind fun _ => ih.bind fun _ => same_pure _

/-- Rows of arguments that are alike have the same codes between commas. -/
lemma same_codeList (h : List.Forall₂ (Operand.Alike names names') os os') :
    Same names names' (codeList os) (codeList os') :=
  (same_codes h).bind fun _ => same_pure _

/-- Rows of arguments that are alike have the same keys and values. -/
lemma same_keyValueCodes (mark : String) (h : List.Forall₂ (Operand.Alike names names') os os') :
    Same names names' (keyValueCodes mark os) (keyValueCodes mark os') := by
  induction os using keyValueCodes.induct generalizing os' with
  | case1 key value rest ih =>
    cases h with
    | cons hkey h =>
      cases h with
      | cons hvalue hrest =>
        exact hkey.code.bind fun _ => hvalue.code.bind fun _ => (ih hrest).bind fun _ => same_pure _
  | case2 os hos =>
    cases h with
    | nil => exact same_pure _
    | cons _ h =>
      cases h with
      | nil => exact same_pure _
      | cons _ _ => exact (hos _ _ _ rfl).elim

/-- The calls are the same but for their arguments, which are alike. -/
inductive Site.Alike (names names' : Bindings) : Site → Site → Prop
  | mk (name : String) {operands operands' : List Operand} (argTypes : List Ty) (result : Ty) :
      List.Forall₂ (Operand.Alike names names') operands operands' →
      Site.Alike names names' ⟨name, operands, argTypes, result⟩ ⟨name, operands', argTypes, result⟩

namespace Site.Alike

variable {site site' : Site}

/-- Calls that are alike have arguments that are alike. -/
lemma operands (h : site.Alike names names' site') :
    List.Forall₂ (Operand.Alike names names') site.operands site'.operands := by
  cases h with
  | mk _ _ _ hoperands => exact hoperands

/-- Calls that are alike have arguments that are alike at every place. -/
lemma operand (h : site.Alike names names' site') (i : Nat) :
    (site.operand i).Alike names names' (site'.operand i) := by
  cases h with
  | mk name argTypes result hoperands =>
    simp only [Site.operand, Site.tags, List.getD_eq_getElem?_getD]
    induction hoperands generalizing i with
    | nil => exact ⟨⟨rfl, rfl, rfl, rfl⟩, same_fail _⟩
    | cons ho _ ih =>
      cases i with
      | zero => exact ho
      | succ i => exact ih i

/-- Calls that are alike have the same receiver. -/
lemma receiver (h : site.Alike names names' site') (table : PrecedenceTable) :
    Same names names' (site.receiver table) (site'.receiver table) :=
  (h.operand 0).wrapped table memberOp .left

/-- Calls that are alike are so with their arguments exchanged. -/
lemma exchanged (h : site.Alike names names' site') :
    site.exchanged.Alike names names' site'.exchanged := by
  cases h with
  | mk name argTypes result hoperands =>
    rcases hoperands with - | ⟨ha, - | ⟨hb, hrest⟩⟩
    · exact .mk name argTypes result .nil
    · exact .mk name argTypes result (.cons ha .nil)
    · rcases argTypes with - | ⟨s, - | ⟨t, ts⟩⟩
      · exact .mk name _ result (.cons ha (.cons hb hrest))
      · exact .mk name _ result (.cons ha (.cons hb hrest))
      · exact .mk name _ result (.cons hb (.cons ha hrest))

end Site.Alike

/-- A call of arguments that are written alike is written alike in a form that all targets share. -/
lemma Form.same_emit (table : PrecedenceTable) (form : Form) {site site' : Site}
    (h : site.Alike names names' site') :
    Same names names' (form.emit table site) (form.emit table site') := by
  induction form generalizing site site' with
  | constant => exact same_pure _
  | identity => exact (h.operand 0).fragment
  | infixOp op =>
    exact ((h.operand 0).wrapped table op .left).bind fun _ =>
      ((h.operand 1).wrapped table op .right).bind fun _ => same_pure _
  | prefixOp key => exact ((h.operand 0).wrapped table key .right).bind fun _ => same_pure _
  | sequence => exact (same_codeList h.operands).bind fun _ => same_pure _
  | helper name =>
    exact (same_require name).bind fun _ => (same_codeList h.operands).bind fun _ => same_pure _
  | method =>
    have hrest := same_codeList (List.forall₂_drop 1 h.operands)
    exact (h.receiver table).bind fun _ => hrest.bind fun _ => same_pure _
  | suffix => exact (h.receiver table).bind fun _ => same_pure _
  | enclosed _ _ _ _ ih => exact (ih h).bind fun _ => same_pure _
  | exchanged _ ih => exact ih h.exchanged
  | record mark => exact (same_keyValueCodes mark h.operands).bind fun _ => same_pure _

namespace Sql

/-! ## Calls in SQL -/

/-- Arguments that are alike are the same as `jsonb` values. -/
lemma same_jsonb (h : o.Alike names names' o') : Same names names' (jsonb o) (jsonb o') := by
  unfold jsonb
  rw [← h.resembles.ty, ← h.resembles.literal]
  split
  · exact h.code
  · exact h.code
  · exact same_pure _
  · exact h.code.bind fun _ => .ite (fun _ => same_pure _) fun _ => same_pure _

/-- Arguments that are alike are the same when they are read as a column type. -/
lemma same_coerce (h : o.Alike names names' o') (column : Column) :
    Same names names' (coerce o column) (coerce o' column) := by
  unfold coerce
  rw [← h.resembles.ty]
  exact h.fragment.bind fun _ => .ite (fun _ => same_pure _) fun _ => same_pure _

/-- Arguments that are alike are the same as branches. -/
lemma same_branch (ty : Ty) (h : o.Alike names names' o') :
    Same names names' (branch ty o) (branch ty o') :=
  .ite (fun _ => same_jsonb h) fun _ => h.code

/-- Rows of arguments that are alike are the same as `jsonb` values. -/
lemma same_jsonbs (h : List.Forall₂ (Operand.Alike names names') os os') :
    Same names names' (jsonbs os) (jsonbs os') := by
  induction h with
  | nil => exact same_pure _
  | cons ho _ ih => exact (same_jsonb ho).bind fun _ => ih.bind fun _ => same_pure _

/-- Rows of arguments that are alike are the same when they are read as a column type. -/
lemma same_coerceAll (column : Column) (h : List.Forall₂ (Operand.Alike names names') os os') :
    Same names names' (coerceAll column os) (coerceAll column os') := by
  induction h with
  | nil => exact same_pure _
  | cons ho _ ih => exact (same_coerce ho column).bind fun _ => ih.bind fun _ => same_pure _

/-- Rows of arguments that are alike are the same as branches. -/
lemma same_branches (ty : Ty) (h : List.Forall₂ (Operand.Alike names names') os os') :
    Same names names' (branches ty os) (branches ty os') := by
  induction h with
  | nil => exact same_pure _
  | cons ho _ ih => exact (same_branch ty ho).bind fun _ => ih.bind fun _ => same_pure _

/-- A failure with a message comes to the same whatever is bound. -/
lemma same_failure (ty : Ty) (message : String) :
    Same names names' (failure ty message) (failure ty message) := by
  refine (same_require _).bind fun _ => ?_
  split
  · exact same_pure _
  · exact same_pure _

section Calls

variable {site site' : Site} (h : site.Alike names names' site')

include h

/-- Calls that are alike are the same when they go to a helper over `jsonb` arguments. -/
lemma same_untyped : Same names names' (untyped site) (untyped site') := by
  cases h with
  | mk name argTypes result hoperands =>
    exact (same_require _).bind fun _ => (same_jsonbs hoperands).bind fun _ => same_pure _

/-- Calls that are alike shift a date in the same way. -/
lemma same_dateShift (dateFirst : Bool) (op : String) :
    Same names names' ((CallForm.dateShift dateFirst op).emit site)
      ((CallForm.dateShift dateFirst op).emit site') := by
  simp only [CallForm.emit]
  have hdate := h.operand (if dateFirst then 0 else 1)
  have hduration := h.operand (if dateFirst then 1 else 0)
  rw [← hduration.resembles.literal]
  refine (hdate.wrapped precedence op .left).bind fun _ => ?_
  split
  · exact same_pure _
  · exact (hduration.wrapped precedence op .right).bind fun _ => same_pure _

/-- Calls that are alike are the same operations between wide integers. -/
lemma same_wide (op : String) :
    Same names names' ((CallForm.wide op).emit site) ((CallForm.wide op).emit site') := by
  have ha := h.operand 0
  have hb := h.operand 1
  simp only [CallForm.emit, ← ha.resembles.narrow, ← hb.resembles.narrow]
  have hrhs := hb.wrapped precedence op .right
  exact .ite (fun _ => ha.code.bind fun _ => (same_pure _).bind fun _ => hrhs.bind fun _ =>
    same_pure _) fun _ => (ha.wrapped precedence op .left).bind fun _ => hrhs.bind fun _ => same_pure _

/-- A call of arguments that are written alike is written alike.

**Proof sketch.** A form writes its arguments from left to right and puts their codes together. What
else it looks at are the name and the types of the call, which are the same, and of an argument its
type, whether it is a constant and whether the database has it in the narrow integer type, in which the
arguments resemble each other. -/
theorem CallForm.same_emit (form : CallForm) :
    Same names names' (form.emit site) (form.emit site') := by
  have hoperands := h.operands
  have hfirst := h.operand 0
  have hsecond := h.operand 1
  cases form with
  | shared form => exact form.same_emit precedence h
  | untyped => exact same_untyped h
  | operator op =>
    cases h with
    | mk => exact .ite (fun _ => same_untyped (.mk _ _ _ hoperands)) fun _ =>
        Form.same_emit precedence (.infixOp op) (.mk _ _ _ hoperands)
  | wide op => exact same_wide h op
  | negation =>
    cases h with
    | mk => exact .ite (fun _ => same_untyped (.mk _ _ _ hoperands)) fun _ =>
        Form.same_emit precedence (.prefixOp "u-" "-") (.mk _ _ _ hoperands)
  | connective op =>
    exact (same_coerce hfirst .boolean).bind fun _ => (same_coerce hsecond .boolean).bind fun _ =>
      same_pure _
  | complement => exact (same_coerce hfirst .boolean).bind fun _ => same_pure _
  | nullTest place test =>
    have hplace := h.operand place
    cases h with
    | mk => exact .ite (fun _ => same_untyped (.mk _ _ _ hoperands)) fun _ =>
        (hplace.wrapped precedence "IS" .left).bind fun _ => same_pure _
  | dateShift dateFirst op => exact same_dateShift h dateFirst op
  | asserted =>
    cases h with
    | mk => exact (same_require _).bind fun _ => (same_jsonb hfirst).bind fun _ =>
        (same_coerce hsecond .text).bind fun _ => same_pure _
  | coerced function column => exact (same_coerceAll column hoperands).bind fun _ => same_pure _
  | integerOf function => exact (same_coerce hfirst .numeric).bind fun _ => same_pure _
  | extract part =>
    cases h with
    | mk => exact (same_coerce hfirst .timestamp).bind fun _ => same_pure _
  | endsWith =>
    exact (same_coerce hfirst .text).bind fun _ => (same_coerce hsecond .text).bind fun _ =>
      same_pure _
  | containsText =>
    exact hfirst.code.bind fun _ => (same_coerce hsecond .text).bind fun _ => same_pure _
  | containsItem =>
    exact (hsecond.wrapped precedence "=" .left).bind fun _ => hfirst.code.bind fun _ => same_pure _
  | joined => exact hfirst.code.bind fun _ => (same_coerce hsecond .text).bind fun _ => same_pure _
  | lastItem => exact hfirst.code.bind fun _ => same_pure _
  | field =>
    cases h with
    | mk => exact (hfirst.wrapped precedence "->" .left).bind fun _ => hsecond.code.bind fun _ =>
        same_pure _
  | fail =>
    cases h with
    | mk _ _ result _ => exact (same_coerce hfirst .text).bind fun _ =>
        (same_failure result _).bind fun _ => same_pure _

/-- Calls that are alike are written the same in SQL. -/
lemma same_call : Same names names' (target.call site) (target.call site') := by
  cases h with
  | mk name argTypes result hoperands =>
    simp only [target, Registry.call, Site.tags]
    split
    · rename_i form _
      exact CallForm.same_emit (.mk name argTypes result hoperands) form
    · exact same_fail _

end Calls

/-! ## Lowered forms -/

section Resemblance

variable {irs irs' : List Ir} (h : List.Forall₂ Ir.Resembles irs irs')

include h

/-- Rows that resemble each other look narrow alike. -/
lemma allNarrow_eq : allNarrow irs = allNarrow irs' := by
  induction h with
  | nil => rfl
  | cons h _ ih => rw [allNarrow, allNarrow, h.narrow, ih]

/-- Rows that resemble each other may raise alike. -/
lemma anyMayRaise_eq : anyMayRaise irs = anyMayRaise irs' := by
  induction h with
  | nil => rfl
  | cons h _ ih => rw [anyMayRaise, anyMayRaise, h.raises, ih]

end Resemblance

/-- Lowered forms that differ only in bound names show the same.

**Proof sketch.** By induction on the renaming. What is compared (the type, whether it is a literal,
whether it is narrow and whether it may raise) depends on no name. -/
lemma resembles_of_renamed {scope : List (String × String)} {ir ir' : Ir}
    (h : ir.Renamed scope ir') : ir.Resembles ir' := by
  induction h with
  | literal => exact ⟨rfl, rfl, rfl, rfl⟩
  | var => exact ⟨rfl, rfl, rfl, rfl⟩
  | body _ ih => exact ⟨rfl, rfl, rfl, by simp only [Ir.mayRaise, anyBindingMayRaise, ih.raises]⟩
  | binding _ _ ihvalue ihrest =>
    have hrest := ihrest.raises
    simp only [Ir.mayRaise] at hrest
    refine ⟨rfl, rfl, rfl, ?_⟩
    simp only [Ir.mayRaise, anyBindingMayRaise, Bool.or_assoc, hrest, ihvalue.raises]
  | lambda => exact ⟨rfl, rfl, rfl, rfl⟩
  | cond _ _ _ ihtest ihyes ihno =>
    exact ⟨rfl, rfl, rfl, by simp only [Ir.mayRaise, ihtest.raises, ihyes.raises, ihno.raises]⟩
  | alternative => exact ⟨rfl, rfl, rfl, rfl⟩
  | call hlength _ ih =>
    have hargs := List.forall₂_iff_zip.mpr ⟨hlength, fun hp => ih _ hp⟩
    exact ⟨rfl, rfl, by simp only [isNarrow, allNarrow_eq hargs],
      by simp only [Ir.mayRaise, anyMayRaise_eq hargs]⟩

/-- The names that one of two forms binds, or the other, with the pieces that they stand for. -/
abbrev PairedNames := List ((String × String) × Fragment)

/-- The names that the first form binds. -/
def PairedNames.left (names : PairedNames) : Bindings := names.map fun n => (n.1.1, n.2)

/-- The names that the second form binds. -/
def PairedNames.right (names : PairedNames) : Bindings := names.map fun n => (n.1.2, n.2)

/-- The pairs of names. -/
def PairedNames.scope (names : PairedNames) : List (String × String) := names.map Prod.fst

/-- Names for the same binder stand for the same piece. -/
lemma lookup_linked {names : PairedNames} {x y : String} (h : Linked names.scope x y) :
    (names.left.lookup x).getD (target.variableCode x) =
      (names.right.lookup y).getD (target.variableCode y) := by
  induction names with
  | nil =>
    cases h
    rfl
  | cons n names ih =>
    obtain ⟨⟨a, b⟩, fragment⟩ := n
    simp only [PairedNames.left, PairedNames.right, List.map_cons, List.lookup_cons]
    cases h with
    | here => simp
    | there hx hy hrest =>
      rw [beq_false_of_ne hx, beq_false_of_ne hy]
      exact ih hrest

/-- Conditionals of arguments that are alike are written the same. -/
lemma same_conditional {test test' yes yes' no no' : Operand} (ty : Ty)
    (htest : test.Alike names names' test') (hyes : yes.Alike names names' yes')
    (hno : no.Alike names names' no') :
    Same names names' (target.conditional test yes no ty) (target.conditional test' yes' no' ty) :=
  (same_coerce htest .boolean).bind fun _ => (same_branch ty hyes).bind fun _ =>
    (same_branch ty hno).bind fun _ => same_pure _

/-- Alternatives of candidates that are alike are written the same. -/
lemma same_alternative (ty : Ty) (h : List.Forall₂ (Operand.Alike names names') os os') :
    Same names names' (target.alternative os ty) (target.alternative os' ty) := by
  have hraise : (os.dropLast.any fun o => o.ir.mayRaise) =
      os'.dropLast.any fun o => o.ir.mayRaise := by
    induction h with
    | nil => rfl
    | cons ho hrest ih =>
      cases hrest with
      | nil => rfl
      | cons =>
        rw [List.dropLast_cons_cons, List.dropLast_cons_cons, List.any_cons, List.any_cons, ih,
          ho.resembles.raises]
  simp only [target, hraise]
  exact .ite (fun _ => same_fail _) fun _ => (same_branches ty h).bind fun _ =>
    (same_failure ty _).bind fun _ => same_pure _

/-- The value of a binding is written alike, and what sees it is written alike with the name bound to
the same piece, whatever name that is. -/
lemma same_binding {names : PairedNames} {x y : String} {value value' body body' : Operand}
    {rest rest' : List (String × Operand)} (hvalue : value.Alike names.left names.right value')
    (hrest : ∀ fragment, Same (PairedNames.left (((x, y), fragment) :: names))
      (PairedNames.right (((x, y), fragment) :: names)) (bindIn rest body) (bindIn rest' body')) :
    Same names.left names.right (bindIn ((x, value) :: rest) body)
      (bindIn ((y, value') :: rest') body') := by
  refine hvalue.fragment.bind fun fragment => ?_
  rw [show substituted value'.ir fragment = substituted value.ir fragment by
    rw [substituted, substituted, hvalue.resembles.narrow]]
  exact hrest (substituted value.ir fragment)

/-- Rows of lowered forms that are alike one by one are alike as arguments. -/
lemma alike_operands {irs irs' : List Ir} (hlength : irs.length = irs'.length)
    (h : ∀ p ∈ irs.zip irs', (target.operand p.1).Alike names names' (target.operand p.2)) :
    List.Forall₂ (Operand.Alike names names') (target.operands irs) (target.operands irs') := by
  have hall : List.Forall₂ (fun ir ir' => (target.operand ir).Alike names names'
      (target.operand ir')) irs irs' := List.forall₂_iff_zip.mpr ⟨hlength, fun hp => h _ hp⟩
  induction hall with
  | nil => exact .nil
  | cons ho hrest ih =>
    obtain ⟨htail, hzip⟩ := List.forall₂_iff_zip.mp hrest
    exact .cons ho (ih htail fun p hp => hzip hp)

/-- Lowered forms that differ only in bound names are written alike, where their names stand for the
same pieces.

**Proof sketch.** Induction over the renaming. A name is looked up in either row of names, and its
binder is at the same place in both (`lookup_linked`). The value of a binding is written alike, so the
same piece is bound in both, under its name in either (`same_binding`). The other constructs only put
their parts together. -/
theorem alike_operand {scope : List (String × String)} {ir ir' : Ir} (h : ir.Renamed scope ir')
    {names : PairedNames} (hnames : names.scope = scope) :
    (target.operand ir).Alike names.left names.right (target.operand ir') := by
  refine ⟨resembles_of_renamed h, ?_⟩
  induction h generalizing names with
  | literal => exact same_pure _
  | @var scope x y ty hlinked =>
    subst hnames
    have hlookup := lookup_linked hlinked
    change (⟨.ok _, []⟩ : Emission Fragment) = ⟨.ok _, []⟩
    rw [hlookup]
  | body _ ih => exact ih hnames
  | binding hvalue _ ihvalue ihrest =>
    subst hnames
    exact same_binding ⟨resembles_of_renamed hvalue, ihvalue rfl⟩ fun fragment => ihrest rfl
  | lambda => exact same_fail _
  | cond htest hyes hno ihtest ihyes ihno =>
    exact same_conditional _ ⟨resembles_of_renamed htest, ihtest hnames⟩
      ⟨resembles_of_renamed hyes, ihyes hnames⟩ ⟨resembles_of_renamed hno, ihno hnames⟩
  | alternative hlength hall ih =>
    exact same_alternative _ (alike_operands hlength fun p hp =>
      ⟨resembles_of_renamed (hall p hp), ih p hp hnames⟩)
  | call hlength hall ih =>
    exact same_call (.mk _ _ _ (alike_operands hlength fun p hp =>
      ⟨resembles_of_renamed (hall p hp), ih p hp hnames⟩))

/-- **Lowered forms that differ only in the names that `let` binds are compiled alike to SQL**, into
either output form: to the same code with the same helpers, or the error is the same.

**Proof sketch.** The writers of the two forms are alike in environments that pair their names
(`alike_operand`); at the start both environments are empty. -/
theorem compile_renamed {ir ir' : Ir} (h : ir.Renamed [] ir') (form : OutputForm) :
    target.compile form ir = target.compile form ir' := by
  have hsame : target.fragment ir [] = target.fragment ir' [] :=
    (alike_operand h (show PairedNames.scope [] = [] from rfl)).fragment
  rw [Target.compile, Target.compile, hsame]

/-- The input under another name, and a binding that takes the name of the input. -/
def shadowedInput : Ir :=
  .letIn [("x", .var "_" .any), ("_", .literal (.int 1) .int)]
    (.call "add" [.var "x" .any, .var "_" .int] [.any, .int] .any) .any

/-- The same with names that shadow nothing. -/
def unshadowedInput : Ir :=
  .letIn [("given", .var "_" .any), ("it", .literal (.int 1) .int)]
    (.call "add" [.var "given" .any, .var "it" .int] [.any, .int] .any) .any

/-- The code of the input stands behind the binding that takes its name, and is not captured. -/
theorem compile_renamed_shadowedInput :
    shadowedInput.Renamed [] unshadowedInput ∧
      target.compile .fragment shadowedInput = target.compile .fragment unshadowedInput ∧
      target.compile .fragment shadowedInput =
        .ok ⟨"elo_add(_, to_jsonb(CAST(1 AS BIGINT)))", ["elo_add"]⟩ := by
  have hbody : (Ir.call "add" [.var "x" .any, .var "_" .int] [.any, .int] .any).Renamed
      [("_", "it"), ("x", "given")]
      (.call "add" [.var "given" .any, .var "it" .int] [.any, .int] .any) := by
    refine .call rfl ?_
    simp only [List.zip_cons_cons, List.zip_nil_right, List.forall_mem_cons]
    exact ⟨.var (.there (by decide) (by decide) .here), .var .here, List.forall_mem_nil _⟩
  have hrenamed : shadowedInput.Renamed [] unshadowedInput :=
    .binding (.var .free) (.binding .literal (.body hbody))
  exact ⟨hrenamed, compile_renamed hrenamed .fragment, rfl⟩

end Sql

end Retarget
