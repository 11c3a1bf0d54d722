import StepFlow.Proofs.Execution.Onward
import StepFlow.Proofs.Execution.Parts

/-!
# Checking the tree

`checked bad` is `sync` with a check after it: where the tree is not the document of the context, it
goes on with whatever `bad` makes of the execution. As long as a tree starts out behind its context
the check never fails, so that runs with `checked bad` are runs with `sync` (`driveVia_checked`).
-/

namespace StepFlow
namespace Execution
open Process

open Classical in
/-- `sync`, then a check that the tree is the document of the context; where it is not, `bad` decides
what to go on with. -/
noncomputable def checked (bad : Execution → Execution) (x : Execution) : Execution :=
  if x.sync.tree = x.context.toDocument then x.sync else bad x

variable {bad : Execution → Execution} {x : Execution}

theorem checked_eq (h : x.TreeBehind) : checked bad x = x.sync := by
  rw [checked, if_pos h.sync_tree]

theorem recoverable_checked
    (run : Nat → Execution → Process Execution (Except TaskFailure Document))
    (transition : Transition) (recovery : Recovery) (name : String) (input : Document)
    (budget attempt : Nat) (last : Option Nat) (h : x.TreeBehind) :
    recoverable (checked bad) run transition recovery name input budget attempt last x =
      recoverable sync run transition recovery name input budget attempt last x := by
  induction budget generalizing attempt last x with
  | zero => rfl
  | succ budget ih =>
    have hretry (attempt : Nat) (last : Option Nat) (record : StateRecord) :=
      ih attempt last ((Onward.withRecord x.sync record).tree h.sync)
    simp only [recoverable, checked_eq h, hretry]

section
variable {drive drive' : Execution → Process Execution (Execution × Except RuntimeError Document)}
  (hdrive : ∀ y : Execution, y.TreeBehind → drive' y = drive y)
include hdrive

theorem attemptMap_congr (s : MapState) (iterator : Workflow) (input : Document) :
    attemptMapVia gather drive' s iterator input = attemptMap drive s iterator input := by
  funext attempt x
  have hslot (effective : Document) (i : Nat) (item : Document) :
      nestedSlot drive' (iteration s iterator x effective i item) =
        nestedSlot drive (iteration s iterator x effective i item) := by
    rw [nestedSlot, nestedSlot, hdrive _ (.inl rfl)]
  simp only [attemptMap, attemptMapVia, hslot]

theorem attemptParallel_congr (s : ParallelState) (branches : List Workflow) (input : Document) :
    attemptParallelVia gather drive' s branches input = attemptParallel drive s branches input := by
  funext attempt x
  have hslot (effective : Document) (w : Workflow) :
      nestedSlot drive' (branch x effective w) = nestedSlot drive (branch x effective w) := by
    rw [nestedSlot, nestedSlot, hdrive _ (.inl rfl)]
  simp only [attemptParallel, attemptParallelVia, hslot]

theorem stepWithVia_checked (setting : Setting) (budget : Nat) (h : x.TreeBehind) :
    stepWithVia (checked bad) gather drive' setting budget x = stepWith drive setting budget x := by
  have hrun (y : Execution) (hy : y.TreeBehind) (name : String) (state : State) (input : Document) :
      runStateVia (checked bad) gather drive' setting budget name state input y =
        runState drive setting budget name state input y := by
    simp only [runStateVia, checked_eq hy, recoverable_checked _ _ _ _ _ _ _ _ hy.sync,
      attemptMap_congr hdrive, attemptParallel_congr hdrive]
    rfl
  unfold stepWith stepWithVia
  split
  · rfl
  cases x.workflow.state? x.current with
  | none => rfl
  | some state =>
    refine bind_congr (begin_onward x) fun y (hy : x.Onward y) => ?_
    refine congrArg (Process.tell _ >>= ·) (funext fun _ => ?_)
    exact congrArg (· >>= _) (hrun _ ((Onward.withContext (.enter _ _ _ _)).tree (hy.tree h)) _ _ _)

end

/-- No check fails in an execution whose tree starts out behind its context. -/
theorem driveVia_checked (setting : Setting) (budget : Nat) (h : x.TreeBehind) :
    driveVia (checked bad) gather setting budget x = drive setting budget x := by
  induction budget generalizing x with
  | zero => rfl
  | succ budget ih =>
    unfold drive driveVia
    split
    · rfl
    · rw [stepWithVia_checked (fun y hy => ih hy) setting budget h]
      refine bind_congr (step_onward setting budget x) fun r (hr : x.Onward r.1) => ?_
      obtain ⟨y, result⟩ := r
      cases result with
      | error e => rfl
      | ok status => exact ih (hr.tree h)

theorem stepVia_checked (setting : Setting) (budget : Nat) (h : x.TreeBehind) :
    stepVia (checked bad) gather setting budget x = step setting budget x :=
  stepWithVia_checked (fun _ hy => driveVia_checked setting budget hy) setting budget h

end Execution
end StepFlow
