import Retarget.Lowering
import Mathlib.Logic.Function.Basic
import Mathlib.Tactic.Common

set_option autoImplicit false

/-!
# Evaluation of the lowered form

The reference meaning of a lowered expression. Evaluation is strict: the arguments of a call and the
values of bindings come first, from left to right, and the first of them that raises is the outcome.
What constants, functions and calls stand for is the business of a host; `fail` raises whatever the
host is.

## Main definitions

* `Retarget.Host` — what evaluation takes from outside.
* `Retarget.Host.value?` — the value of an outcome that neither raises nor is null.
* `Retarget.Host.choose` — the outcome of an alternative, from the outcomes of its candidates.
* `Retarget.Ir.eval` — the outcome of a lowered expression in an environment.
* `Retarget.Host.Lawful` — what lowering relies on of a host.

## Main results

* `Retarget.Host.choose_congr` — an alternative depends on its candidates only through their values
  and on the last failure.
-/

namespace Retarget

/-- What evaluation takes from outside: the values `V`, the failures `F` and the primitives. -/
structure Host (V F : Type) where
  /-- The value of a constant. -/
  literal : Literal → V
  /-- The value of a function with the given parameters, from what it does to their values. -/
  closure : List String → (List V → Except F V) → V
  /-- The values that count as null. -/
  isNull : V → Bool
  /-- What a conditional makes of the value of its test. -/
  truth : V → Except F Bool
  /-- What a call other than `fail` does. -/
  call : String → List V → Except F V
  /-- What `fail` raises. -/
  failure : List V → F
  /-- What an alternative raises whose last candidate is null. -/
  nullFailure : F

/-- The values of the names. -/
abbrev Env (V : Type) := String → V

namespace Env

variable {V : Type}

/-- The environment with one more name. -/
def bind (env : Env V) (name : String) (v : V) : Env V := Function.update env name v

/-- The environment with a row of names. -/
def bindAll (env : Env V) : List String → List V → Env V
  | name :: names, v :: vs => bindAll (env.bind name v) names vs
  | _, _ => env

/-- A name has the value that it was bound to last. -/
@[simp] lemma bind_same (env : Env V) (name : String) (v : V) : env.bind name v name = v := by
  simp [bind]

end Env

/-! ## Alternatives -/

namespace Host

variable {V F : Type} (host : Host V F)

/-- The constant null. -/
def null : V := host.literal .null

/-- The truth value of a boolean. -/
def bool (b : Bool) : V := host.literal (.bool b)

/-- The outcome is a boolean or raises. -/
def Decides (o : Except F V) : Prop := (∃ f, o = .error f) ∨ ∃ b, o = .ok (host.bool b)

/-- The value of an outcome that neither raises nor is null. -/
def value? : Except F V → Option V
  | .ok v => if host.isNull v then none else some v
  | .error _ => none

/-- Why an outcome is of no use: what it raises, or that it is null. -/
def reason : Except F V → F
  | .ok _ => host.nullFailure
  | .error f => f

/-- The outcome of an alternative: that of the first candidate that neither raises nor is null, and
else the failure of the last one. -/
def choose (outcomes : List (Except F V)) : Except F V :=
  match outcomes.findSome? host.value? with
  | some v => .ok v
  | none => .error (outcomes.getLast?.elim host.nullFailure host.reason)

/-- A failure has no value. -/
@[simp] lemma value?_error (f : F) : host.value? (.error f) = none := rfl

/-- Null counts as no value. -/
lemma value?_ok_of_isNull {v : V} (h : host.isNull v = true) : host.value? (.ok v) = none := by
  simp [value?, h]

/-- What is not null counts as a value. -/
lemma value?_ok_of_not_isNull {v : V} (h : host.isNull v = false) :
    host.value? (.ok v) = some v := by
  simp [value?, h]

/-- The value of an alternative is the first value among its candidates. -/
lemma value?_choose (outcomes : List (Except F V)) :
    host.value? (host.choose outcomes) = outcomes.findSome? host.value? := by
  unfold choose
  cases h : outcomes.findSome? host.value? with
  | none => rfl
  | some v =>
    obtain ⟨o, -, ho⟩ := List.exists_of_findSome?_eq_some h
    cases o with
    | error f => simp at ho
    | ok w =>
      cases hw : host.isNull w with
      | true => simp [value?, hw] at ho
      | false =>
        obtain rfl : w = v := by simpa [value?, hw] using ho
        exact host.value?_ok_of_not_isNull hw

/-- Two alternatives with the same first value and the same last candidate have the same outcome. -/
lemma choose_congr {os os' : List (Except F V)}
    (hvalue : os.findSome? host.value? = os'.findSome? host.value?)
    (hlast : os.getLast? = os'.getLast?) : host.choose os = host.choose os' := by
  simp only [choose, hvalue, hlast]

end Host

/-! ## Evaluation -/

section Evaluation

variable {V F : Type}

mutual

/-- The outcome of a lowered expression in an environment. -/
def Ir.eval (host : Host V F) : Env V → Ir → Except F V
  | _, .literal value _ => .ok (host.literal value)
  | env, .var name _ => .ok (env name)
  | env, .letIn bindings body _ =>
    match evalBindings host env bindings with
    | .error f => .error f
    | .ok inner => body.eval host inner
  | env, .lambda params body _ =>
    .ok (host.closure params fun vs => body.eval host (env.bindAll params vs))
  | env, .cond test yes no _ =>
    match test.eval host env with
    | .error f => .error f
    | .ok v =>
      match host.truth v with
      | .error f => .error f
      | .ok true => yes.eval host env
      | .ok false => no.eval host env
  | env, .alternative candidates _ => host.choose (evalEach host env candidates)
  | env, .call name args _ _ =>
    match evalAll host env args with
    | .error f => .error f
    | .ok vs => if name = "fail" then .error (host.failure vs) else host.call name vs

/-- The values of a row of expressions from left to right, or the first failure among them. -/
def evalAll (host : Host V F) : Env V → List Ir → Except F (List V)
  | _, [] => .ok []
  | env, ir :: irs =>
    match ir.eval host env with
    | .error f => .error f
    | .ok v =>
      match evalAll host env irs with
      | .error f => .error f
      | .ok vs => .ok (v :: vs)

/-- The outcomes of a row of expressions, each on its own. -/
def evalEach (host : Host V F) : Env V → List Ir → List (Except F V)
  | _, [] => []
  | env, ir :: irs => ir.eval host env :: evalEach host env irs

/-- The environment behind a row of bindings, or the first failure among their values. -/
def evalBindings (host : Host V F) : Env V → List (String × Ir) → Except F (Env V)
  | env, [] => .ok env
  | env, (name, ir) :: rest =>
    match ir.eval host env with
    | .error f => .error f
    | .ok v => evalBindings host (env.bind name v) rest

end

variable (host : Host V F) (env : Env V)

attribute [local simp] Ir.eval evalAll evalEach evalBindings

/-- Outcomes, each on its own, are the outcomes of the members. -/
lemma evalEach_eq_map (irs : List Ir) : evalEach host env irs = irs.map (Ir.eval host env) := by
  induction irs with
  | nil => rfl
  | cons ir irs ih => simp [ih]

/-- The outcome of an alternative is chosen among the outcomes of its candidates. -/
lemma eval_alternative (candidates : List Ir) (ty : Ty) :
    (Ir.alternative candidates ty).eval host env =
      host.choose (candidates.map (Ir.eval host env)) := by
  rw [Ir.eval, evalEach_eq_map]

/-- A binding whose value raises raises. -/
lemma eval_bind_one_error {name : String} {value body : Ir} {ty : Ty} {f : F}
    (h : value.eval host env = .error f) :
    (Ir.letIn [(name, value)] body ty).eval host env = .error f := by
  simp [h]

/-- One binding over a body. -/
lemma eval_bind_one_ok {name : String} {value body : Ir} {ty : Ty} {v : V}
    (h : value.eval host env = .ok v) :
    (Ir.letIn [(name, value)] body ty).eval host env = body.eval host (env.bind name v) := by
  simp [h]

/-- A conditional whose test raises raises. -/
lemma eval_cond_error {test yes no : Ir} {ty : Ty} {f : F} (h : test.eval host env = .error f) :
    (Ir.cond test yes no ty).eval host env = .error f := by
  simp [h]

/-- A conditional whose test holds is its first branch. -/
lemma eval_cond_true {test yes no : Ir} {ty : Ty} {v : V} (h : test.eval host env = .ok v)
    (hv : host.truth v = .ok true) :
    (Ir.cond test yes no ty).eval host env = yes.eval host env := by
  simp [h, hv]

/-- A conditional whose test does not hold is its second branch. -/
lemma eval_cond_false {test yes no : Ir} {ty : Ty} {v : V} (h : test.eval host env = .ok v)
    (hv : host.truth v = .ok false) :
    (Ir.cond test yes no ty).eval host env = no.eval host env := by
  simp [h, hv]

/-- A call of one argument that raises raises. -/
lemma eval_call_one_error {name : String} {arg : Ir} {tys : List Ty} {ty : Ty} {f : F}
    (h : arg.eval host env = .error f) :
    (Ir.call name [arg] tys ty).eval host env = .error f := by
  simp [h]

/-- A call of one argument other than `fail` is what the host does to the argument's value. -/
lemma eval_call_one_ok {name : String} {arg : Ir} {tys : List Ty} {ty : Ty} {v : V}
    (hname : name ≠ "fail") (h : arg.eval host env = .ok v) :
    (Ir.call name [arg] tys ty).eval host env = host.call name [v] := by
  simp [h, hname]

/-- A call of `fail` raises. -/
lemma value?_eval_fail (args : List Ir) (tys : List Ty) (ty : Ty) :
    host.value? ((Ir.call "fail" args tys ty).eval host env) = none := by
  rw [Ir.eval]
  cases evalAll host env args <;> simp

end Evaluation

/-! ## What lowering relies on -/

/-- What lowering relies on of a host: how null and booleans behave, and how the selector calls of
one type go together. -/
structure Host.Lawful {V F : Type} (host : Host V F) : Prop where
  /-- The constant null is null. -/
  isNull_null : host.isNull host.null = true
  /-- A boolean decides a conditional. -/
  truth_bool (b : Bool) : host.truth (host.bool b) = .ok b
  /-- Equality with null tells whether a value is null. -/
  eq_null (v : V) : host.call "eq" [v, host.null] = .ok (host.bool (host.isNull v))
  /-- The conjunction of booleans. -/
  and_bool (a b : Bool) : host.call "and" [host.bool a, host.bool b] = .ok (host.bool (a && b))
  /-- A raising selector never gives null. -/
  isNull_as {s : Selectable} (hs : s ∈ selectables) {v w : V} :
    host.call ("as_" ++ s.stem) [v] = .ok w → host.isNull w = false
  /-- Where the raising selector gives a value, its twin gives the same. -/
  orNull_of_ok {s : Selectable} (hs : s ∈ selectables) {v w : V} :
    host.call ("as_" ++ s.stem) [v] = .ok w →
      host.call ("as_" ++ s.stem ++ "_or_null") [v] = .ok w
  /-- Where the raising selector raises, its twin gives null. -/
  orNull_of_error {s : Selectable} (hs : s ∈ selectables) {v : V} {f : F} :
    host.call ("as_" ++ s.stem) [v] = .error f →
      ∃ w, host.call ("as_" ++ s.stem ++ "_or_null") [v] = .ok w ∧ host.isNull w = true
  /-- An asserting selector succeeds exactly when the raising one does, with the same value. -/
  assert_ok {s : Selectable} (hs : s ∈ selectables) {v m w : V} :
    host.call ("assert_" ++ s.stem) [v, m] = .ok w ↔ host.call ("as_" ++ s.stem) [v] = .ok w

/-- The two booleans are different values, since they decide conditionals differently. -/
lemma Host.Lawful.bool_injective {V F : Type} {host : Host V F} (laws : host.Lawful) {a b : Bool}
    (h : host.bool a = host.bool b) : a = b := by
  have htruth := laws.truth_bool a
  rw [h, laws.truth_bool b] at htruth
  exact (Except.ok.inj htruth).symm

end Retarget
