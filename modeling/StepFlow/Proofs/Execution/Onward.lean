import StepFlow.Proofs.Execution.Attempt
import StepFlow.Proofs.Execution.Tree

/-!
# How executions go on

`x.Onward y`: the execution `y` is what `x` may have become after some steps. Its workflow is the
same, its context an extension, and its tree is behind the context at most. Every part of an
execution leads onward, whatever runners answer, and so does what is seen of it while it sleeps. All
that it asks on the way is asked by tasks of its workflow.
-/

namespace StepFlow
namespace Execution
open Process

structure Onward (x y : Execution) : Prop where
  workflow : y.workflow = x.workflow
  nested : y.nested = x.nested
  context : x.context.Extends y.context
  tree : x.TreeBehind → y.TreeBehind

variable {x y z : Execution}

namespace Onward

theorem refl (x : Execution) : x.Onward x := ⟨rfl, rfl, .refl _, id⟩

theorem trans (h : x.Onward y) (h' : y.Onward z) : x.Onward z :=
  ⟨h'.workflow.trans h.workflow, h'.nested.trans h.nested, h.context.trans h'.context,
    h'.tree ∘ h.tree⟩

theorem sync (x : Execution) : x.Onward x.sync := by
  refine ⟨?_, ?_, ?_, TreeBehind.sync⟩
  · unfold Execution.sync; split <;> rfl
  · unfold Execution.sync; split <;> rfl
  · rw [sync_context]; exact .refl _

theorem withContext {c : Context} (h : x.context.Extends c) : x.Onward { x with context := c } :=
  ⟨rfl, rfl, h, fun ht => ht.extends' h⟩

theorem withRecord (x : Execution) (record : StateRecord) : x.Onward (x.withRecord record) :=
  withContext (.withState _ _)

theorem withStatus (x : Execution) (status : Status) : x.Onward { x with status } :=
  ⟨rfl, rfl, .refl _, id⟩

theorem advance (state : State) (outcome : Outcome) (x : Execution) :
    x.Onward (x.advance state outcome).1 := by
  unfold Execution.advance
  split
  · split
    · exact ⟨rfl, rfl, .withState _ _, fun ht => ht.extends' (.withState _ _)⟩
    · exact withStatus x _
  · exact ⟨rfl, rfl, .refl _, id⟩

end Onward

/-! ### The parts of an execution -/

/-- All that is seen of an execution, and the execution it ends with, is onward from `x`; all that it
asks, a task of its workflow makes. -/
def onward {α : Type} (setting : Setting) (x : Execution) : Contract Execution (Execution × α) where
  asks _ r := x.workflow.Makes setting r
  shows := x.Onward
  ends r := x.Onward r.1

variable {setting : Setting}

theorem onward_of_onward {α : Type} {p : Process Execution (Execution × α)}
    (hp : p.Keeps (y.onward setting)) (h : x.Onward y) : p.Keeps (x.onward setting) := by
  refine hp.mono (fun _ _ h => h) (fun _ r hr => ?_) (fun _ => h.trans) (fun _ => h.trans)
  rw [onward, ← h.workflow]
  exact hr

/-- What the attempts of an execution keep: all that is seen of it is onward from `x`. -/
def attempting (setting : Setting) (x : Execution) : Contract Execution (Except TaskFailure Document) where
  asks _ r := x.workflow.Makes setting r
  shows := x.Onward

theorem recoverable_onward {run : Nat → Execution → Process Execution (Except TaskFailure Document)}
    {x : Execution}
    (hrun : ∀ attempt y, x.Onward y → (run attempt y).Keeps (x.attempting setting))
    {transition : Transition} {recovery : Recovery} {name : String} {input : Document}
    {budget attempt : Nat} {last : Option Nat} :
    (recoverable sync run transition recovery name input budget attempt last x.sync).Keeps
      (x.onward setting) :=
  recoverable_keeps (c := x.onward setting) (I := x.Onward) (fun _ _ => trivial)
    (fun y h => h.trans (.sync y)) (fun y _ _ h => h.trans (.withRecord y _)) hrun (fun _ h => h)
    (fun _ _ h _ => h) _ _ _ (.sync x)

theorem begin_onward (x : Execution) :
    (begin x).Keeps ⟨fun _ _ => True, fun _ _ => False, fun _ => False, x.Onward⟩ := by
  unfold begin
  split
  · split
    · exact .tell trivial (Onward.withStatus x _)
    · exact Onward.withStatus x _
  · exact Onward.refl x

section
variable {drive : Execution → Process Execution (Execution × Except RuntimeError Document)}
  (hdrive : ∀ y, (drive y).Keeps { asks := fun _ r => y.workflow.Makes setting r })
include hdrive

theorem runState_onward (budget : Nat) (name : String) {state : State} (input : Document)
    (x : Execution) (hstate : x.workflow.Contains state.action) :
    (runState drive setting budget name state input x).Keeps (x.onward setting) := by
  have hx := Onward.sync x
  have hends (result : Except TaskFailure Document) : (x.attempting setting).ends result := trivial
  unfold runState runStateVia
  split
  · exact hx
  · exact hx
  · exact hx
  · exact hx
  · dsimp only
    split
    · exact hx
    · exact .sleep hx hx
  · rename_i s haction
    rw [haction] at hstate
    exact recoverable_onward fun _ y hy =>
      attemptTask_keeps hy hends fun r hresource hsecrets => ⟨s, hstate, hresource, hsecrets⟩
  · rename_i s iterator haction
    rw [haction] at hstate
    refine recoverable_onward fun _ y hy => attemptMap_keeps hy hends fun effective i item => ?_
    refine (hdrive _).mono (fun _ _ _ => trivial) ?_ (fun _ _ => trivial) (fun _ _ => trivial)
    rintro site r ⟨t, ht, hr⟩
    exact ⟨t, .iterator hstate ht, hr⟩
  · rename_i s branches haction
    rw [haction] at hstate
    refine recoverable_onward fun _ y hy => attemptParallel_keeps hy hends fun effective i w hi => ?_
    refine (hdrive _).mono (fun _ _ _ => trivial) ?_ (fun _ _ => trivial) (fun _ _ => trivial)
    rintro site r ⟨t, ht, hr⟩
    exact ⟨t, .branch hstate (List.mem_of_getElem? hi) ht, hr⟩

theorem stepWith_onward (budget : Nat) (x : Execution) :
    (stepWith drive setting budget x).Keeps (x.onward setting) := by
  unfold stepWith stepWithVia
  split
  · exact Onward.refl x
  split
  · exact Onward.withStatus x _
  rename_i state hstate
  refine Keeps.bind ((begin_onward x).mono (fun _ _ h => h) (fun _ _ => False.elim)
    (fun _ => False.elim) fun _ h => h) fun y hy => .tell trivial ?_
  have hy' := hy.trans (.withContext (.enter setting.stamps y.current y.context.state.input _))
  refine Keeps.bind (onward_of_onward (runState_onward hdrive budget _ _ _ ?_) hy') fun r hr => ?_
  · rw [hy'.workflow]
    exact .of_state? hstate
  obtain ⟨z, result⟩ := r
  cases result with
  | error e => exact Onward.trans hr (.withStatus z _)
  | ok outcome =>
    have hfinish := Onward.trans hr (.withContext (.finish setting.stamps outcome.output _))
    exact .tell trivial (hfinish.trans (.advance _ _ _))

end

/-- Whatever runners answer, an execution only goes onward. -/
theorem drive_onward (setting : Setting) (budget : Nat) (x : Execution) :
    (drive setting budget x).Keeps (x.onward setting) := by
  induction budget generalizing x with
  | zero => trivial
  | succ budget ih =>
    have hdrive (y : Execution) : (drive setting budget y).Keeps
        { asks := fun _ r => y.workflow.Makes setting r } :=
      (ih y).mono (fun _ _ h => h) (fun _ _ h => h) (fun _ _ => trivial) (fun _ _ => trivial)
    unfold drive driveVia
    split
    · exact Onward.refl x
    refine Keeps.bind (stepWith_onward hdrive budget x) fun r hr => ?_
    obtain ⟨y, result⟩ := r
    cases result with
    | error e => exact hr
    | ok status => exact onward_of_onward (ih y) hr

theorem step_onward (setting : Setting) (budget : Nat) (x : Execution) :
    (step setting budget x).Keeps (x.onward setting) :=
  stepWith_onward (fun y => (drive_onward setting budget y).mono (fun _ _ h => h) (fun _ _ h => h)
    (fun _ _ => trivial) fun _ _ => trivial) budget x

end Execution
end StepFlow
