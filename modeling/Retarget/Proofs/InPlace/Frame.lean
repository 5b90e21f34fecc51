import Retarget.Proofs.InPlace.Targets

set_option autoImplicit false

/-!
# What writing in place leaves and reads

The targets write in place what they write otherwise. So, whether a lowered form is written or an error
at any depth stops the writing, the names that were bound before are bound as before, and helpers have
only been added; what is written and added depends on the lowered form and the bound names alone.

A form reads arguments by their index, and only its place in the registry says how many there are. It
reads none that a call does not have.

## Main definitions

* `Retarget.Step.Frames` — steps that leave the bound names as they are.

## Main results

* `Retarget.TargetKind.frames_emit` — every way to write a lowered form leaves the bound names as they
  are.
* `Retarget.TargetKind.inRange_compile` — no read is out of range.
-/

namespace Retarget

open Step

/-! ## Frames -/

/-- The steps leave the bound names as they are, whether they fail or not. What comes of them and the
helpers that they add are those of a computation, which sees nothing but the names. -/
def Step.Frames {α : Type} (p : Step α) (written : Emit α) : Prop :=
  ∀ s : Session, p.run.run s =
    ((written s.names).outcome, ⟨s.names, s.helpers ++ (written s.names).helpers⟩)

/-- A computation as steps leaves the bound names as they are. -/
lemma Step.frames_ofEmit {α : Type} (m : Emit α) : (ofEmit m).Frames m := fun s => run_ofEmit m s

namespace TargetKind

/-- Writing a lowered form, its code, its code on a side of an operator or the codes of a row leaves
the names of every session as they are. The outcome and the helpers that are added are a function of
the lowered form and the names.

**Proof sketch.** The constructs of the targets write in place what they write otherwise
(`follows_steps`), so they are computations as steps, which frame (`frames_ofEmit`). For the bindings of
SQL this is `Sql.run_bindInSteps`: the names pushed so far are gone behind the body and behind every
value that fails. -/
theorem frames_emit (kind : TargetKind) (ir : Ir) (outer : String) (side : Side) (irs : List Ir) :
    ((kind.steps none).fragment ir).Frames (kind.target.fragment ir) ∧
      ((kind.steps none).emit ir).Frames (kind.target.operand ir).code ∧
      ((kind.steps none).emitWithParens ir outer side).Frames
        ((kind.target.operand ir).wrapped kind.target.precedence outer side) ∧
      ((kind.steps none).emitList irs).Frames (codeList (kind.target.operands irs)) := by
  have hfollows := kind.follows_steps none
  have hfragment : (kind.steps none).fragment ir = ofEmit (kind.target.fragment ir) :=
    hfollows.fragment_eq ir nofun
  have hoperand : (kind.steps none).operand ir = (kind.target.operand ir).steps :=
    congrArg (Step.Operand.mk ir) hfragment
  have hoperands : (kind.steps none).operands irs = (kind.target.operands irs).map Operand.steps :=
    hfollows.operands_eq irs nofun
  refine ⟨?_, ?_, ?_, ?_⟩
  · rw [hfragment]
    exact frames_ofEmit _
  · rw [Step.Target.emit, hoperand, Operand.steps_code]
    exact frames_ofEmit _
  · rw [Step.Target.emitWithParens, hoperand, hfollows.precedence, Operand.steps_wrapped]
    exact frames_ofEmit _
  · rw [Step.Target.emitList, hoperands, codeList_steps]
    exact frames_ofEmit _

/-! ## Reads in range -/

/-- A lowered form whose calls have as many types of arguments as arguments is written, in every
session and into every output form, without a read out of range: whatever error such a read would stop
with, the outcome is the one without it.

**Proof sketch.** A form that a call finds stands for calls of as many arguments as it reads, for the
signature that covers the call and the least number of a form for any number of arguments alike
(`Registry.least_le_of_lookup`). All its reads are then in range (`CallForm.steps_eq`), and so are those
in its arguments, by induction (`Follows.fragment_eq`). -/
theorem inRange_compile (kind : TargetKind) {ir : Ir} (h : ir.Aligned) (stop : CompileError) :
    (∀ s : Session, ((kind.steps (some stop)).fragment ir).run.run s =
      s.run (kind.target.fragment ir)) ∧
      ∀ form : OutputForm,
        (kind.steps (some stop)).compile form ir = kind.target.compile form ir := by
  have hfollows := kind.follows_steps (some stop)
  refine ⟨fun s => ?_, hfollows.compile_eq fun _ => h⟩
  rw [hfollows.fragment_eq ir fun _ => h]
  rfl

/-- A call of a function without arguments: what stands behind the function is empty. -/
theorem inRange_invoke :
    (TargetKind.ruby.steps (some (.dispatch ⟨"invoke", []⟩))).compile .fragment
        (.call "invoke" [.var "f" .any] [.any] .any) =
      .ok ⟨"f.call()", []⟩ :=
  ((inRange_compile .ruby (.call rfl (by simp [Ir.Aligned.var])) _).2 .fragment).trans (by cbv)

-- With more types than arguments the read of the second argument does stop the writing.
example (stop : CompileError) :
    (TargetKind.ruby.steps (some stop)).compile .fragment
      (.call "add" [.var "x" .any] [.any, .any] .any) = .error stop := by
  cbv

end TargetKind

end Retarget
