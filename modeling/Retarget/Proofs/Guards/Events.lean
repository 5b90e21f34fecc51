import Retarget.Proofs.Evaluation

set_option autoImplicit false

/-!
# Events of an evaluation

The outcome of an expression does not tell which of its parts were evaluated and in which order. A
run keeps the outcome together with the events on the way to it: the constants and functions that
were built, the names that were read, with their values, and the calls that were made. Evaluation
leaves out the branch that a conditional does not take, everything behind a raise, and the candidates
of an alternative behind the one that it gives.

## Main definitions

* `Retarget.Event` — a step of an evaluation.
* `Retarget.Run` — an outcome and the events on the way to it, and `Retarget.Run.andThen`.
* `Retarget.Ir.run`, `Retarget.Ir.events` — evaluation that keeps its events.
* `Retarget.Ir.answer` — what a conditional makes of its test.

## Main results

* `Retarget.outcome_run` — keeping the events does not change the outcome.
* `Retarget.run_cond_of_true`, `Retarget.run_cond_of_false`, `Retarget.run_cond_of_error` — a
  conditional evaluates its test and then at most one of its branches.
-/

namespace Retarget

/-- A step of an evaluation. -/
inductive Event (V : Type)
  /-- A constant was built. -/
  | constant (value : Literal)
  /-- A name was read, which had the value. -/
  | read (name : String) (v : V)
  /-- A function was built, without a look at its body. -/
  | function (params : List String)
  /-- A call was made with the values of its arguments. -/
  | call (name : String) (args : List V)

/-- An outcome and the events on the way to it. -/
structure Run (V F α : Type) where
  outcome : Except F α
  events : List (Event V)

namespace Run

variable {V F α β : Type}

/-- A run behind events that came before it. -/
def behind (events : List (Event V)) (r : Run V F α) : Run V F α := ⟨r.outcome, events ++ r.events⟩

/-- A run and what follows it, which is nothing where it raises. -/
def andThen (r : Run V F α) (next : α → Run V F β) : Run V F β :=
  match r.outcome with
  | .error f => ⟨.error f, r.events⟩
  | .ok a => (next a).behind r.events

/-- Events behind events are the events of both in turn. -/
@[simp] lemma behind_behind (es es' : List (Event V)) (r : Run V F α) :
    (r.behind es').behind es = r.behind (es ++ es') := by
  simp [behind]

/-- A failure ends the run. -/
lemma andThen_of_error {r : Run V F α} {f : F} (h : r.outcome = .error f)
    (next : α → Run V F β) : r.andThen next = ⟨.error f, r.events⟩ := by
  simp [andThen, h]

/-- A run that comes to a value goes on behind its events. -/
lemma andThen_of_ok {r : Run V F α} {a : α} (h : r.outcome = .ok a) (next : α → Run V F β) :
    r.andThen next = (next a).behind r.events := by
  simp [andThen, h]

/-- The outcome of what follows a run, unless the run raises. -/
lemma outcome_andThen (r : Run V F α) (next : α → Run V F β) :
    (r.andThen next).outcome = r.outcome.bind fun a => (next a).outcome := by
  cases h : r.outcome with
  | error f => rw [andThen_of_error h]; rfl
  | ok a => rw [andThen_of_ok h]; rfl

end Run

/-! ## Evaluation with events -/

section Evaluation

variable {V F : Type}

mutual

/-- The outcome of a lowered expression in an environment, and the events on the way to it. -/
def Ir.run (host : Host V F) : Env V → Ir → Run V F V
  | _, .literal value _ => ⟨.ok (host.literal value), [.constant value]⟩
  | env, .var name _ => ⟨.ok (env name), [.read name (env name)]⟩
  | env, .letIn bindings body _ =>
    (runBindings host env bindings).andThen fun inner => body.run host inner
  | env, .lambda params body _ =>
    ⟨.ok (host.closure params fun vs => body.eval host (env.bindAll params vs)),
      [.function params]⟩
  | env, .cond test yes no _ =>
    (test.run host env).andThen fun v =>
      (Run.mk (host.truth v) []).andThen fun
        | true => yes.run host env
        | false => no.run host env
  | env, .alternative candidates _ => runCandidates host env host.nullFailure candidates
  | env, .call name args _ _ =>
    (runAll host env args).andThen fun vs =>
      ⟨if name = "fail" then .error (host.failure vs) else host.call name vs, [.call name vs]⟩

/-- A row of expressions from left to right, up to the first that raises. -/
def runAll (host : Host V F) : Env V → List Ir → Run V F (List V)
  | _, [] => ⟨.ok [], []⟩
  | env, ir :: irs =>
    (ir.run host env).andThen fun v =>
      (runAll host env irs).andThen fun vs => ⟨.ok (v :: vs), []⟩

/-- The candidates of an alternative up to the first with a value; `failure` is the failure of the
candidate before them. -/
def runCandidates (host : Host V F) : Env V → F → List Ir → Run V F V
  | _, failure, [] => ⟨.error failure, []⟩
  | env, _, ir :: irs =>
    match host.value? (ir.run host env).outcome with
    | some v => ⟨.ok v, (ir.run host env).events⟩
    | none =>
      (runCandidates host env (host.reason (ir.run host env).outcome) irs).behind
        (ir.run host env).events

/-- A row of bindings, up to the first whose value raises. -/
def runBindings (host : Host V F) : Env V → List (String × Ir) → Run V F (Env V)
  | env, [] => ⟨.ok env, []⟩
  | env, (name, ir) :: rest =>
    (ir.run host env).andThen fun v => runBindings host (env.bind name v) rest

end

/-- The events of an evaluation, in order. -/
def Ir.events (host : Host V F) (env : Env V) (ir : Ir) : List (Event V) :=
  (ir.run host env).events

variable (host : Host V F)

mutual

/-- Keeping the events does not change the outcome.

**Proof sketch.** Induction over the expression, along with the rows that it holds. Both evaluations
take the same steps, only that the run of an alternative stops at the first candidate with a value,
behind which the outcomes of candidates do not matter. -/
theorem outcome_run : ∀ (env : Env V) (ir : Ir), (ir.run host env).outcome = ir.eval host env
  | _, .literal _ _ => by rw [Ir.run, Ir.eval]
  | _, .var _ _ => by rw [Ir.run, Ir.eval]
  | _, .lambda _ _ _ => by rw [Ir.run, Ir.eval]
  | env, .letIn bindings body _ => by
    rw [Ir.run, Ir.eval, Run.outcome_andThen, outcome_runBindings env bindings]
    cases evalBindings host env bindings with
    | error f => rfl
    | ok inner => exact outcome_run inner body
  | env, .cond test yes no _ => by
    rw [Ir.run, Ir.eval, Run.outcome_andThen, outcome_run env test]
    cases test.eval host env with
    | error f => rfl
    | ok v =>
      simp only [Except.bind, Run.outcome_andThen]
      rcases host.truth v with f | _ | _
      · rfl
      · exact outcome_run env no
      · exact outcome_run env yes
  | env, .alternative candidates _ => by
    rw [Ir.run, eval_alternative, outcome_runCandidates env host.nullFailure candidates]
    rfl
  | env, .call name args _ _ => by
    rw [Ir.run, Ir.eval, Run.outcome_andThen, outcome_runAll env args]
    cases evalAll host env args <;> rfl

/-- The same for a row of expressions. -/
theorem outcome_runAll : ∀ (env : Env V) (irs : List Ir),
    (runAll host env irs).outcome = evalAll host env irs
  | _, [] => by rw [runAll, evalAll]
  | env, ir :: irs => by
    rw [runAll, evalAll, Run.outcome_andThen, outcome_run env ir]
    cases ir.eval host env with
    | error f => rfl
    | ok v =>
      rw [Except.bind, Run.outcome_andThen, outcome_runAll env irs]
      cases evalAll host env irs <;> rfl

/-- The candidates of an alternative have the first value among their outcomes, or the failure of the
last one. -/
theorem outcome_runCandidates : ∀ (env : Env V) (failure : F) (irs : List Ir),
    (runCandidates host env failure irs).outcome =
      match (irs.map (Ir.eval host env)).findSome? host.value? with
      | some v => .ok v
      | none => .error ((irs.map (Ir.eval host env)).getLast?.elim failure host.reason)
  | _, _, [] => by rw [runCandidates]; rfl
  | env, failure, ir :: irs => by
    rw [runCandidates, outcome_run env ir, List.map_cons, List.findSome?_cons]
    cases host.value? (ir.eval host env) with
    | some v => rfl
    | none =>
      rw [Run.behind, outcome_runCandidates env _ irs, List.getLast?_cons]
      cases (irs.map (Ir.eval host env)).findSome? host.value? with
      | some v => rfl
      | none => cases (irs.map (Ir.eval host env)).getLast? <;> rfl

/-- The same for bindings. -/
theorem outcome_runBindings : ∀ (env : Env V) (bindings : List (String × Ir)),
    (runBindings host env bindings).outcome = evalBindings host env bindings
  | _, [] => by rw [runBindings, evalBindings]
  | env, (name, ir) :: rest => by
    rw [runBindings, evalBindings, Run.outcome_andThen, outcome_run env ir]
    cases ir.eval host env with
    | error f => rfl
    | ok v => exact outcome_runBindings (env.bind name v) rest

end

/-! ## Conditionals and bindings -/

/-- What a conditional makes of its test: whether it holds, unless it raises. -/
def Ir.answer (host : Host V F) (env : Env V) (test : Ir) : Except F Bool :=
  (test.eval host env).bind host.truth

variable {host} {env : Env V} {test yes no : Ir} {ty : Ty}

/-- A conditional evaluates its test and goes on by the answer. -/
lemma run_cond : (Ir.cond test yes no ty).run host env =
    (Run.mk (test.answer host env) (test.events host env)).andThen fun
      | true => yes.run host env
      | false => no.run host env := by
  rw [Ir.run, Ir.answer, ← outcome_run, Ir.events]
  cases h : (test.run host env).outcome with
  | error f => rw [Run.andThen_of_error h]; rfl
  | ok v =>
    rw [Run.andThen_of_ok h, Except.bind]
    rcases host.truth v with f | _ | _
    · simp [Run.andThen, Run.behind]
    · rfl
    · rfl

/-- A conditional whose test holds goes on with its first branch only. -/
lemma run_cond_of_true (h : test.answer host env = .ok true) :
    (Ir.cond test yes no ty).run host env = (yes.run host env).behind (test.events host env) := by
  rw [run_cond, h]
  rfl

/-- A conditional whose test does not hold goes on with its second branch only. -/
lemma run_cond_of_false (h : test.answer host env = .ok false) :
    (Ir.cond test yes no ty).run host env = (no.run host env).behind (test.events host env) := by
  rw [run_cond, h]
  rfl

/-- A conditional whose test raises does not go on. -/
lemma run_cond_of_error {f : F} (h : test.answer host env = .error f) :
    (Ir.cond test yes no ty).run host env = ⟨.error f, test.events host env⟩ := by
  rw [run_cond, h]
  rfl

/-- One binding evaluates its value in the environment outside and then its body inside. -/
lemma run_bind_one {name : String} {value body : Ir} :
    (Ir.letIn [(name, value)] body ty).run host env =
      (value.run host env).andThen fun v => body.run host (env.bind name v) := by
  rw [Ir.run, runBindings]
  cases h : (value.run host env).outcome with
  | error f => simp [Run.andThen, h]
  | ok v => simp [Run.andThen, runBindings, h, Run.behind]

end Evaluation

end Retarget
