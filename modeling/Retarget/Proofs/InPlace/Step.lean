import Mathlib.Data.List.GetD
import Retarget.Emission.Session
import Retarget.Proofs.Quoting.Target

set_option autoImplicit false

/-!
# Writing in place

Code can be written by steps that change one session in place: every step sees the names that are bound
when it starts, binds names and notes helpers for the steps behind it, and what it has bound and noted
stays when it fails. The arguments of a call are read by their index.

The computations of `Emit` cannot bind a name for what comes after them, and give a stand-in for an
argument that a call does not have. In place, a read out of range may also stop the writing. As long as
none does, both write the same.

## Main definitions

* `Retarget.Step` — steps of writing.
* `Retarget.Step.ofEmit` — a computation as steps that leave the bound names as they are.
* `Retarget.Step.read`, `Retarget.Step.readRest` — reads by index.
* `Retarget.Form.steps` — the steps that write a call in a form.
* `Retarget.Form.least` — how many arguments the form reads by their index.
* `Retarget.Step.Target` — an output language that writes in place.
* `Retarget.Ir.Aligned` — every call has as many types of arguments as arguments.
* `Retarget.Step.Target.Follows` — the constructs of a target write in place what those of another write.

## Main results

* `Retarget.Form.steps_eq` — a form writes in place what it writes otherwise.
* `Retarget.Step.Target.Follows.fragment_eq` — and so does a target all of whose constructs do.
-/

namespace Retarget

/-- Steps of writing that change a session in place. What they bind and note stays when they fail. -/
abbrev Step := ExceptT CompileError (StateM Session)

/-- A computation behind another sees the same names, unless that one fails. -/
lemma Emit.bind_apply {α β : Type} (m : Emit α) (f : α → Emit β) (names : Bindings) :
    (m >>= f) names =
      match m names with
      | ⟨.error e, helpers⟩ => ⟨.error e, helpers⟩
      | ⟨.ok a, helpers⟩ => ⟨(f a names).outcome, helpers ++ (f a names).helpers⟩ :=
  rfl

namespace Step

variable {α β : Type}

/-! ## Computations as steps -/

/-- A computation as steps, which leave the bound names as they are. -/
def ofEmit (m : Emit α) : Step α := ExceptT.mk fun s => s.run m

/-- Note a row of helpers. -/
def requireAll (helpers : List String) : Step Unit :=
  modify fun s => { s with helpers := s.helpers ++ helpers }

/-- Note a helper. -/
def require (helper : String) : Step Unit := modify (·.require helper)

/-- The piece that a name stands for. -/
def lookup (name : String) : Step (Option Fragment) := return (← get).lookup name

/-- Steps that do the same in every session are equal. -/
lemma ext_run {p q : Step α} (h : ∀ s : Session, p.run.run s = q.run.run s) : p = q :=
  ExceptT.ext (StateT.ext h)

/-- A computation as steps does what it does in the session. -/
lemma run_ofEmit (m : Emit α) (s : Session) : (ofEmit m).run.run s = s.run m := rfl

/-- Steps behind others start in the session that these leave, unless they fail. -/
lemma run_bind (p : Step α) (f : α → Step β) (s : Session) :
    (p >>= f).run.run s =
      match p.run.run s with
      | (.error e, left) => (.error e, left)
      | (.ok a, left) => (f a).run.run left := by
  rw [ExceptT.run_bind, StateT.run_bind]
  rcases p.run.run s with ⟨_ | a, left⟩
  · rfl
  · rfl

/-- Steps that handle a failure start in the session that the failed ones leave. -/
lemma run_tryCatch (p : Step α) (f : CompileError → Step α) (s : Session) :
    (tryCatch p f).run.run s =
      match p.run.run s with
      | (.error e, left) => (f e).run.run left
      | (.ok a, left) => (.ok a, left) := by
  rw [ExceptT.run_tryCatch, StateT.run_bind]
  rcases p.run.run s with ⟨_ | a, left⟩
  · rfl
  · rfl

/-- A value as steps. -/
@[simp] lemma ofEmit_pure (a : α) : ofEmit (pure a) = pure a := by
  refine ext_run fun s => ?_
  rw [run_ofEmit]
  exact congrArg (Prod.mk _) (congrArg (Session.mk _) (List.append_nil _))

/-- One computation behind another as steps. -/
@[simp] lemma ofEmit_bind (m : Emit α) (f : α → Emit β) :
    ofEmit (m >>= f) = ofEmit m >>= fun a => ofEmit (f a) := by
  refine ext_run fun s => ?_
  rw [run_bind, run_ofEmit, run_ofEmit, Session.run, Session.run, Emit.bind_apply]
  rcases m s.names with ⟨_ | a, helpers⟩
  · rfl
  · exact congrArg (Prod.mk _) (congrArg (Session.mk _) (List.append_assoc ..).symm)

/-- An error as steps. -/
@[simp] lemma ofEmit_fail (e : CompileError) : ofEmit (Emit.fail e : Emit α) = throw e := by
  refine ext_run fun s => ?_
  exact congrArg (Prod.mk _) (congrArg (Session.mk _) (List.append_nil _))

/-- A choice of computations as a choice of steps. -/
@[simp] lemma ofEmit_ite (c : Prop) [Decidable c] (m n : Emit α) :
    ofEmit (if c then m else n) = if c then ofEmit m else ofEmit n :=
  apply_ite ofEmit c m n

/-- Noting a row of helpers as steps. -/
@[simp] lemma ofEmit_requireAll (helpers : List String) :
    ofEmit (Emit.requireAll helpers) = requireAll helpers :=
  rfl

/-- Noting a helper as steps. -/
@[simp] lemma ofEmit_require (helper : String) : ofEmit (Emit.require helper) = require helper := rfl

/-- Looking up a name as steps. -/
@[simp] lemma ofEmit_lookup (name : String) : ofEmit (Emit.lookup name) = lookup name := by
  refine ext_run fun s => ?_
  exact congrArg (Prod.mk _) (congrArg (Session.mk _) (List.append_nil _))

/-! ## Reading by index -/

/-- What a read out of range gives: it stops the writing with the given error, or else a stand-in is
read. -/
def absent (stop : Option CompileError) (standIn : β) : Step β :=
  match stop with
  | some e => throw e
  | none => pure standIn

/-- What stands at an index of a row. -/
def read (stop : Option CompileError) (row : List β) (standIn : β) (i : Nat) : Step β :=
  match row[i]? with
  | some b => pure b
  | none => absent stop standIn

/-- What stands behind the first of a row. -/
def readRest (stop : Option CompileError) (row : List β) : Step (List β) :=
  match row with
  | [] => absent stop []
  | _ :: rest => pure rest

/-- A read in range gives what stands there, and so does one that cannot stop. -/
lemma read_eq {stop : Option CompileError} {row : List β} {i : Nat}
    (h : stop.isSome = true → i < row.length) (standIn : β) :
    read stop row standIn i = pure (row.getD i standIn) := by
  rw [List.getD_eq_getElem?_getD, read]
  cases hi : row[i]? with
  | some b => rfl
  | none =>
    cases stop with
    | none => rfl
    | some e => exact absurd (h rfl) (Nat.not_lt.mpr (List.getElem?_eq_none_iff.mp hi))

/-- The rest of a row is read without a stop, unless the row is empty and reads out of range stop.
-/
lemma readRest_eq {stop : Option CompileError} {row : List β}
    (h : stop.isSome = true → 0 < row.length) : readRest stop row = pure (row.drop 1) := by
  cases row with
  | cons b rest => rfl
  | nil =>
    cases stop with
    | none => rfl
    | some e => exact absurd (h rfl) (Nat.lt_irrefl 0)

/-! ## Calls -/

/-- An argument of a call: the lowered form to look at and the steps that write its code. -/
structure Operand where
  ir : Ir
  fragment : Step Fragment

namespace Operand

/-- The code of the argument. -/
def code (o : Operand) : Step String := do return (← o.fragment).code

/-- The code of the argument on a side of an operator. -/
def wrapped (o : Operand) (table : PrecedenceTable) (outer : String) (side : Side) :
    Step String := do
  return table.wrap (← o.fragment) outer side

end Operand

/-- The codes of a row of arguments from left to right. -/
def codes : List Operand → Step (List String)
  | [] => pure []
  | o :: os => do
    let code ← o.code
    let rest ← codes os
    return code :: rest

/-- The codes of a row of arguments with commas between them. -/
def codeList (os : List Operand) : Step String := do return commaSeparated (← codes os)

/-- Keys and values in turn, as pairs; a key without a value is dropped. -/
def keyValueCodes (mark : String) : List Operand → Step (List String)
  | key :: value :: rest => do
    let key ← key.code
    let value ← value.code
    let pairs ← keyValueCodes mark rest
    return (key ++ mark ++ value) :: pairs
  | _ => pure []

/-- A call as the form that writes it sees it. -/
structure Site where
  name : String
  operands : List Operand
  argTypes : List Ty
  result : Ty

namespace Site

/-- The tags of the arguments. -/
def tags (s : Site) : List Tag := s.argTypes.map Ty.tag

/-- The argument at a place. -/
def operand (s : Site) (stop : Option CompileError) (i : Nat) : Step Operand :=
  read stop s.operands ⟨.ofLiteral .null, throw (.dispatch ⟨s.name, s.tags⟩)⟩ i

/-- The static type of the argument at a place. -/
def argType (s : Site) (stop : Option CompileError) (i : Nat) : Step Ty := read stop s.argTypes .any i

/-- The first argument as the receiver of a member read. -/
def receiver (s : Site) (stop : Option CompileError) (table : PrecedenceTable) : Step String := do
  (← s.operand stop 0).wrapped table memberOp .left

/-- The call with its first two arguments exchanged. -/
def exchanged (s : Site) (stop : Option CompileError) : Step Site :=
  match s.operands, s.argTypes with
  | a :: b :: os, t :: u :: ts =>
    pure { s with operands := b :: a :: os, argTypes := u :: t :: ts }
  | _, _ => absent stop s

end Site

end Step

/-- The steps that write a call in a form. -/
def Form.steps (stop : Option CompileError) (table : PrecedenceTable) :
    Form → Step.Site → Step Fragment
  | .constant code op, _ => return ⟨code, op⟩
  | .identity, site => do (← site.operand stop 0).fragment
  | .infixOp op, site => do
    let lhs ← (← site.operand stop 0).wrapped table op .left
    let rhs ← (← site.operand stop 1).wrapped table op .right
    return .operation (lhs ++ " " ++ op ++ " " ++ rhs) op
  | .prefixOp key text, site => do
    let operand ← (← site.operand stop 0).wrapped table key .right
    return .operation (text ++ operand) key
  | .sequence opening closing, site => do
    return .atom (opening ++ (← Step.codeList site.operands) ++ closing)
  | .helper name, site => do
    Step.require name
    return .atom (name ++ "(" ++ (← Step.codeList site.operands) ++ ")")
  | .method text, site => do
    let receiver ← site.receiver stop table
    let rest ← Step.codeList (← Step.readRest stop site.operands)
    return .atom (receiver ++ text ++ "(" ++ rest ++ ")")
  | .suffix text op, site => do
    return ⟨(← site.receiver stop table) ++ text, op⟩
  | .enclosed opening inner closing op, site => do
    let fragment ← inner.steps stop table site
    return ⟨opening ++ fragment.code ++ closing, op⟩
  | .exchanged inner, site => do inner.steps stop table (← site.exchanged stop)
  | .record mark, site => do
    return .atom (braced (← Step.keyValueCodes mark site.operands))

/-- The form of a call by the tags of its arguments, written by `steps`. -/
def Registry.callSteps {ε : Type} (registry : Registry ε) (steps : ε → Step.Site → Step Fragment)
    (site : Step.Site) : Step Fragment :=
  match registry.lookup site.name site.tags with
  | .ok form => steps form site
  | .error e => throw (.dispatch e)

/-! ## Calls as steps -/

section Calls

open Step

variable {stop : Option CompileError} {count i : Nat}

/-- An argument with the steps that write what it writes. -/
def Operand.steps (o : Operand) : Step.Operand := ⟨o.ir, ofEmit o.fragment⟩

/-- A call with the steps that write what its arguments write. -/
def Site.steps (site : Site) : Step.Site :=
  ⟨site.name, site.operands.map Operand.steps, site.argTypes, site.result⟩

namespace Operand

/-- An argument with its steps shows the same lowered form. -/
@[simp] lemma steps_ir (o : Operand) : o.steps.ir = o.ir := rfl

/-- The steps of an argument write what the argument writes. -/
@[simp] lemma steps_fragment (o : Operand) : o.steps.fragment = ofEmit o.fragment := rfl

/-- The steps of an argument write its code. -/
@[simp] lemma steps_code (o : Operand) : o.steps.code = ofEmit o.code := by
  simp [Step.Operand.code, Operand.code]

/-- The steps of an argument write its code on a side of an operator. -/
@[simp] lemma steps_wrapped (o : Operand) (table : PrecedenceTable) (outer : String) (side : Side) :
    o.steps.wrapped table outer side = ofEmit (o.wrapped table outer side) := by
  simp [Step.Operand.wrapped, Operand.wrapped]

end Operand

/-- The steps of a row of arguments write their codes. -/
@[simp] lemma codes_steps (os : List Operand) :
    Step.codes (os.map Operand.steps) = ofEmit (codes os) := by
  induction os with
  | nil => simp [Step.codes, codes]
  | cons o os ih => simp [Step.codes, codes, ih]

/-- The steps of a row of arguments write their codes between commas. -/
@[simp] lemma codeList_steps (os : List Operand) :
    Step.codeList (os.map Operand.steps) = ofEmit (codeList os) := by
  simp [Step.codeList, codeList]

/-- The steps of a row of arguments write their keys and values. -/
@[simp] lemma keyValueCodes_steps (mark : String) (os : List Operand) :
    Step.keyValueCodes mark (os.map Operand.steps) = ofEmit (keyValueCodes mark os) := by
  induction os using keyValueCodes.induct with
  | case1 key value rest ih => simp [Step.keyValueCodes, keyValueCodes, ih]
  | case2 os hos =>
    rcases os with _ | ⟨o, _ | ⟨p, os⟩⟩
    · simp [Step.keyValueCodes, keyValueCodes]
    · simp [Step.keyValueCodes, keyValueCodes]
    · exact (hos o p os rfl).elim

namespace Site

/-- A call with its steps has the same name. -/
@[simp] lemma steps_name (site : Site) : site.steps.name = site.name := rfl

/-- A call with its steps has the steps of its arguments. -/
@[simp] lemma steps_operands (site : Site) :
    site.steps.operands = site.operands.map Operand.steps :=
  rfl

/-- A call with its steps has the same types of arguments. -/
@[simp] lemma steps_argTypes (site : Site) : site.steps.argTypes = site.argTypes := rfl

/-- A call with its steps has the same type. -/
@[simp] lemma steps_result (site : Site) : site.steps.result = site.result := rfl

/-- The call has that many arguments and types of them, where a read out of range stops the
writing. -/
def Has (site : Site) (stop : Option CompileError) (count : Nat) : Prop :=
  stop.isSome = true → count ≤ site.operands.length ∧ count ≤ site.argTypes.length

variable {site : Site}

/-- A call with some number of arguments has any smaller number of them. -/
lemma Has.mono {less : Nat} (h : site.Has stop count) (hle : less ≤ count) : site.Has stop less :=
  fun hstop => ⟨Nat.le_trans hle (h hstop).1, Nat.le_trans hle (h hstop).2⟩

/-- An argument in range is read without a stop. -/
lemma Has.operand (h : site.Has stop count) (hi : i < count) :
    site.steps.operand stop i = pure (site.operand i).steps := by
  have hread : stop.isSome = true → i < site.steps.operands.length := fun hstop => by
    simpa using Nat.lt_of_lt_of_le hi (h hstop).1
  have hfail : (⟨.ofLiteral .null, throw (.dispatch ⟨site.name, site.tags⟩)⟩ : Step.Operand) =
      Operand.steps ⟨.ofLiteral .null, Emit.fail (.dispatch ⟨site.name, site.tags⟩)⟩ := by
    simp [Operand.steps]
  rw [Step.Site.operand, read_eq hread, steps_operands]
  exact congrArg pure ((congrArg _ hfail).trans (List.getD_map ..))

/-- The type of an argument in range is read without a stop. -/
lemma Has.argType (h : site.Has stop count) (hi : i < count) :
    site.steps.argType stop i = pure (site.argType i) :=
  read_eq (fun hstop => Nat.lt_of_lt_of_le hi (h hstop).2) _

/-- The receiver of a call with an argument is written without a stop. -/
lemma Has.receiver (h : site.Has stop count) (hi : 0 < count) (table : PrecedenceTable) :
    site.steps.receiver stop table = ofEmit (site.receiver table) := by
  simp [Step.Site.receiver, Site.receiver, h.operand hi]

/-- The arguments behind the first one are read without a stop. -/
lemma Has.readRest (h : site.Has stop count) (hi : 0 < count) :
    Step.readRest stop (site.operands.map Operand.steps) =
      pure ((site.operands.drop 1).map Operand.steps) := by
  rw [readRest_eq fun hstop => by simpa using Nat.lt_of_lt_of_le hi (h hstop).1, List.map_drop]

/-- The arguments of a call with two of them are exchanged without a stop. -/
lemma Has.exchanged (h : site.Has stop count) (hi : 1 < count) :
    site.steps.exchanged stop = pure site.exchanged.steps := by
  obtain ⟨name, operands, argTypes, result⟩ := site
  match operands, argTypes with
  | a :: b :: os, t :: u :: ts => rfl
  | [], _ | [_], _ | _ :: _ :: _, [] | _ :: _ :: _, [_] =>
    cases stop with
    | none => rfl
    | some e =>
      obtain ⟨hoperands, htypes⟩ := h rfl
      simp only [List.length_cons, List.length_nil] at hoperands htypes
      omega

/-- Exchanging arguments keeps their number. -/
lemma Has.exchange (h : site.Has stop count) : site.exchanged.Has stop count := by
  obtain ⟨name, operands, argTypes, result⟩ := site
  match operands, argTypes with
  | a :: b :: os, t :: u :: ts => exact h
  | [], _ | [_], _ | _ :: _ :: _, [] | _ :: _ :: _, [_] => exact h

end Site

/-- How many arguments a form reads by their index. -/
def Form.least : Form → Nat
  | .constant _ _ | .sequence _ _ | .helper _ | .record _ => 0
  | .identity | .prefixOp _ _ | .method _ | .suffix _ _ => 1
  | .infixOp _ => 2
  | .enclosed _ inner _ _ => inner.least
  | .exchanged inner => max 2 inner.least

/-- A form writes in place what it writes otherwise. -/
lemma Form.steps_eq (table : PrecedenceTable) (form : Form) {site : Site}
    (h : site.Has stop form.least) :
    form.steps stop table site.steps = ofEmit (form.emit table site) := by
  induction form generalizing site with
  | constant | sequence | helper | record => simp [Form.steps, Form.emit]
  | identity => simp [Form.steps, Form.emit, h.operand (i := 0) Nat.one_pos]
  | infixOp op =>
    have h : site.Has stop 2 := h
    simp [Form.steps, Form.emit, h.operand]
  | prefixOp => simp [Form.steps, Form.emit, h.operand (i := 0) Nat.one_pos]
  | method =>
    simp only [Form.steps, Form.emit, Site.steps_operands, h.receiver Nat.one_pos, h.readRest Nat.one_pos,
      pure_bind, codeList_steps, ofEmit_bind, ofEmit_pure]
  | suffix => simp [Form.steps, Form.emit, h.receiver Nat.one_pos]
  | enclosed opening inner closing op ih => simp [Form.steps, Form.emit, ih h]
  | exchanged inner ih =>
    have hpair : 1 < max 2 inner.least := Nat.lt_of_lt_of_le Nat.one_lt_two (Nat.le_max_left ..)
    have hinner : site.exchanged.Has stop inner.least := h.exchange.mono (Nat.le_max_right ..)
    simp [Form.steps, Form.emit, h.exchanged hpair, ih hinner]

end Calls

/-! ## Targets -/

namespace Step

/-- An output language that writes in place. -/
structure Target where
  precedence : PrecedenceTable
  literal : Literal → Step Fragment
  variableCode : String → Fragment
  letIn : List (String × Operand) → Operand → Step Fragment
  lambda : List String → Operand → Step Fragment
  conditional : Operand → Operand → Operand → Ty → Step Fragment
  alternative : List Operand → Ty → Step Fragment
  call : Site → Step Fragment
  executable : String → String

namespace Target

mutual

/-- The steps that write a lowered form. A name that is bound to a piece of code is that piece. -/
def fragment (t : Target) : Ir → Step Fragment
  | .literal value _ => t.literal value
  | .var name _ => do return (← lookup name).getD (t.variableCode name)
  | .letIn bindings body _ => t.letIn (boundOperands t bindings) ⟨body, t.fragment body⟩
  | .lambda params body _ => t.lambda params ⟨body, t.fragment body⟩
  | .cond test yes no ty =>
    t.conditional ⟨test, t.fragment test⟩ ⟨yes, t.fragment yes⟩ ⟨no, t.fragment no⟩ ty
  | .alternative candidates ty => t.alternative (operands t candidates) ty
  | .call name args argTypes ty => t.call ⟨name, operands t args, argTypes, ty⟩

/-- Lowered forms with the steps that write them. -/
def operands (t : Target) : List Ir → List Operand
  | [] => []
  | ir :: irs => ⟨ir, t.fragment ir⟩ :: operands t irs

/-- Bound values with the steps that write them. -/
def boundOperands (t : Target) : List (String × Ir) → List (String × Operand)
  | [] => []
  | (name, ir) :: rest => (name, ⟨ir, t.fragment ir⟩) :: boundOperands t rest

end

/-- A lowered form with the steps that write it. -/
def operand (t : Target) (ir : Ir) : Operand := ⟨ir, t.fragment ir⟩

/-- The code of a lowered form. -/
def emit (t : Target) (ir : Ir) : Step String := (t.operand ir).code

/-- The code of a lowered form on a side of an operator. -/
def emitWithParens (t : Target) (ir : Ir) (outer : String) (side : Side) : Step String :=
  (t.operand ir).wrapped t.precedence outer side

/-- The codes of a row of lowered forms with commas between them. -/
def emitList (t : Target) (irs : List Ir) : Step String := codeList (t.operands irs)

/-- A lowered form compiled in a session of its own. -/
def compile (t : Target) (form : OutputForm) (ir : Ir) : Except CompileError Compiled :=
  match (t.fragment ir).run.run {} with
  | (.error e, _) => .error e
  | (.ok fragment, left) =>
    let code :=
      match form with
      | .fragment => fragment.code
      | .executable => t.executable fragment.code
    .ok ⟨code, left.helperNames⟩

end Target

end Step

/-! ## Targets that write the same -/

/-- Every call has as many types of arguments as arguments, at every depth. -/
inductive Ir.Aligned : Ir → Prop
  | literal {value : Literal} {ty : Ty} : Aligned (.literal value ty)
  | var {name : String} {ty : Ty} : Aligned (.var name ty)
  | letIn {bindings : List (String × Ir)} {body : Ir} {ty : Ty} :
      (∀ b ∈ bindings, b.2.Aligned) → body.Aligned → Aligned (.letIn bindings body ty)
  | lambda {params : List String} {body : Ir} {ty : Ty} : body.Aligned →
      Aligned (.lambda params body ty)
  | cond {test yes no : Ir} {ty : Ty} : test.Aligned → yes.Aligned → no.Aligned →
      Aligned (.cond test yes no ty)
  | alternative {candidates : List Ir} {ty : Ty} : (∀ c ∈ candidates, c.Aligned) →
      Aligned (.alternative candidates ty)
  | call {name : String} {args : List Ir} {argTypes : List Ty} {ty : Ty} :
      argTypes.length = args.length → (∀ a ∈ args, a.Aligned) →
      Aligned (.call name args argTypes ty)

namespace Step.Target

/-- A target writes each construct in place as another writes it, of arguments that write the same. A
call may be expected to have as many types of arguments as arguments. -/
structure Follows (stop : Option CompileError) (p : Step.Target) (t : Retarget.Target) : Prop where
  precedence : p.precedence = t.precedence
  literal (value : Literal) : p.literal value = ofEmit (t.literal value)
  variableCode (name : String) : p.variableCode name = t.variableCode name
  letIn (bindings : List (String × Retarget.Operand)) (body : Retarget.Operand) :
    p.letIn (bindings.map (Prod.map id Operand.steps)) body.steps = ofEmit (t.letIn bindings body)
  lambda (params : List String) (body : Retarget.Operand) :
    p.lambda params body.steps = ofEmit (t.lambda params body)
  conditional (test yes no : Retarget.Operand) (ty : Ty) :
    p.conditional test.steps yes.steps no.steps ty = ofEmit (t.conditional test yes no ty)
  alternative (candidates : List Retarget.Operand) (ty : Ty) :
    p.alternative (candidates.map Operand.steps) ty = ofEmit (t.alternative candidates ty)
  call (site : Retarget.Site) :
    (stop.isSome = true → site.argTypes.length = site.operands.length) →
      p.call site.steps = ofEmit (t.call site)
  executable (code : String) : p.executable code = t.executable code

namespace Follows

variable {stop : Option CompileError} {p : Step.Target} {t : Retarget.Target}

mutual

/-- A target all of whose constructs write in place what another writes, writes the same of every
lowered form.

**Proof sketch.** Induction over the lowered form, along with the rows that it holds: the parts write
the same, so they are the arguments of the construct as steps. -/
theorem fragment_eq (hp : p.Follows stop t) :
    ∀ (ir : Ir), (stop.isSome = true → ir.Aligned) → p.fragment ir = ofEmit (t.fragment ir)
  | .literal value _, _ => hp.literal value
  | .var name _, _ => by
    simp [fragment, Retarget.Target.fragment, hp.variableCode]
  | .letIn bindings body _, h => by
    have hvalues := boundOperands_eq hp bindings fun hstop b hb => by
      cases h hstop with
      | letIn hvalues _ => exact hvalues b hb
    have hbody := fragment_eq hp body fun hstop => by
      cases h hstop with
      | letIn _ hbody => exact hbody
    rw [fragment, Retarget.Target.fragment, hvalues, hbody]
    exact hp.letIn _ ⟨body, _⟩
  | .lambda params body _, h => by
    have hbody := fragment_eq hp body fun hstop => by
      cases h hstop with
      | lambda hbody => exact hbody
    rw [fragment, Retarget.Target.fragment, hbody]
    exact hp.lambda params ⟨body, _⟩
  | .cond test yes no ty, h => by
    have hparts (hstop : stop.isSome = true) : test.Aligned ∧ yes.Aligned ∧ no.Aligned := by
      cases h hstop with
      | cond htest hyes hno => exact ⟨htest, hyes, hno⟩
    rw [fragment, Retarget.Target.fragment, fragment_eq hp test fun hstop => (hparts hstop).1,
      fragment_eq hp yes fun hstop => (hparts hstop).2.1,
      fragment_eq hp no fun hstop => (hparts hstop).2.2]
    exact hp.conditional ⟨test, _⟩ ⟨yes, _⟩ ⟨no, _⟩ ty
  | .alternative candidates ty, h => by
    have hcandidates := operands_eq hp candidates fun hstop c hc => by
      cases h hstop with
      | alternative hcandidates => exact hcandidates c hc
    rw [fragment, Retarget.Target.fragment, hcandidates]
    exact hp.alternative _ ty
  | .call name args argTypes ty, h => by
    have hargs := operands_eq hp args fun hstop a ha => by
      cases h hstop with
      | call _ hargs => exact hargs a ha
    rw [fragment, Retarget.Target.fragment, hargs]
    refine hp.call ⟨name, _, argTypes, ty⟩ fun hstop => ?_
    cases h hstop with
    | call hlength _ => rwa [Retarget.Target.length_operands]

/-- The rows of arguments write the same. -/
lemma operands_eq (hp : p.Follows stop t) :
    ∀ (irs : List Ir), (stop.isSome = true → ∀ ir ∈ irs, ir.Aligned) →
      p.operands irs = (t.operands irs).map Operand.steps
  | [], _ => rfl
  | ir :: irs, h => by
    rw [operands, Retarget.Target.operands, List.map_cons,
      fragment_eq hp ir fun hstop => h hstop ir List.mem_cons_self,
      operands_eq hp irs fun hstop a ha => h hstop a (List.mem_cons_of_mem ir ha)]
    rfl

/-- The bound values write the same. -/
lemma boundOperands_eq (hp : p.Follows stop t) :
    ∀ (bindings : List (String × Ir)), (stop.isSome = true → ∀ b ∈ bindings, b.2.Aligned) →
      p.boundOperands bindings = (t.boundOperands bindings).map (Prod.map id Operand.steps)
  | [], _ => rfl
  | (name, ir) :: bindings, h => by
    rw [boundOperands, Retarget.Target.boundOperands, List.map_cons,
      fragment_eq hp ir fun hstop => h hstop (name, ir) List.mem_cons_self,
      boundOperands_eq hp bindings fun hstop b hb => h hstop b (List.mem_cons_of_mem _ hb)]
    rfl

end

/-- A whole compilation gives the same. -/
lemma compile_eq (hp : p.Follows stop t) {ir : Ir} (h : stop.isSome = true → ir.Aligned)
    (form : OutputForm) : p.compile form ir = t.compile form ir := by
  have hrun : (p.fragment ir).run.run {} =
      ((t.fragment ir []).outcome, ⟨[], (t.fragment ir []).helpers⟩) := by
    rw [fragment_eq hp ir h]
    rfl
  rw [compile, Retarget.Target.compile, hrun]
  rcases t.fragment ir [] with ⟨_ | fragment, helpers⟩
  · rfl
  · simp only [hp.executable]
    rfl

end Follows

end Step.Target

end Retarget
