import StepFlow.Proofs.Execution.Parts
import StepFlow.Proofs.Process.Lasts

/-!
# Executions are prompt

Executions sleep for no time at all nowhere, so that all they do at one instant they do at a stretch
(`drive_prompt`).
-/

namespace StepFlow.Execution
open Process

theorem catchFailure_prompt (recovery : Recovery) (name : String) (input : Document) (f : TaskFailure)
    (x : Execution) : (catchFailure recovery name input f x).Prompt := by
  unfold catchFailure
  split
  · trivial
  · split <;> trivial

theorem recoverable_prompt {run : Nat → Execution → Process Execution (Except TaskFailure Document)}
    (hrun : ∀ attempt y, (run attempt y).Prompt) (transition : Transition) (recovery : Recovery)
    (name : String) (input : Document) (budget attempt : Nat) (last : Option Nat) (x : Execution) :
    (recoverable sync run transition recovery name input budget attempt last x).Prompt := by
  induction budget generalizing attempt last x with
  | zero => trivial
  | succ budget ih =>
    refine (hrun attempt x.sync).bind fun result => ?_
    cases result with
    | ok output => trivial
    | error f =>
      dsimp only
      split
      · exact catchFailure_prompt _ _ _ _ _
      · exact (Prompt.sleep _ _).bind fun _ => ih _ _ _

theorem attemptTask_prompt (setting : Setting) (s : TaskState) (input : Document) (x : Execution) :
    (attemptTask setting s input x).Prompt := by
  unfold attemptTask
  dsimp only
  split
  · trivial
  · refine (Prompt.ask _ _).bind fun result => ?_
    split
    · trivial
    · split <;> trivial

section
variable {drive : Execution → Process Execution (Execution × Except RuntimeError Document)}
  (hdrive : ∀ y, (drive y).Prompt)
include hdrive

theorem nestedSlots_prompt {ι : Type} (start : ι → Execution) (is : List ι) :
    EverySlot (fun _ => Slot.Prompt) (is.map fun i => nestedSlot drive (start i)) := by
  intro j s hs
  obtain ⟨i, -, rfl⟩ := List.mem_map.1 (List.mem_of_getElem? hs)
  exact (hdrive (start i)).bind fun _ => trivial

theorem attemptMap_prompt (s : MapState) (iterator : Workflow) (input : Document) (attempt : Nat)
    (x : Execution) : (attemptMap drive s iterator input attempt x).Prompt := by
  rw [attemptMap_eq]
  cases items? s input x with
  | none => trivial
  | some items => exact (Prompt.gather (nestedSlots_prompt hdrive _ _)).bind fun _ => trivial

theorem attemptParallel_prompt (s : ParallelState) (branches : List Workflow) (input : Document)
    (attempt : Nat) (x : Execution) : (attemptParallel drive s branches input attempt x).Prompt := by
  rw [attemptParallel_eq]
  exact (Prompt.gather (nestedSlots_prompt hdrive _ _)).bind fun _ => trivial

theorem runState_prompt (setting : Setting) (budget : Nat) (name : String) (state : State)
    (input : Document) (x : Execution) : (runState drive setting budget name state input x).Prompt := by
  unfold runState runStateVia
  dsimp only
  split
  · trivial
  · trivial
  · trivial
  · trivial
  · split
    · trivial
    · exact (Prompt.sleep _ _).bind fun _ => trivial
  · exact recoverable_prompt (fun _ => attemptTask_prompt setting _ input) _ _ _ _ _ _ _ _
  · exact recoverable_prompt (attemptMap_prompt hdrive _ _ input) _ _ _ _ _ _ _ _
  · exact recoverable_prompt (attemptParallel_prompt hdrive _ _ input) _ _ _ _ _ _ _ _

theorem stepWith_prompt (setting : Setting) (budget : Nat) (x : Execution) :
    (stepWith drive setting budget x).Prompt := by
  unfold stepWith stepWithVia
  split
  · trivial
  split
  · trivial
  have hbegin : (begin x).Prompt := by
    unfold begin
    split
    · split <;> trivial
    · trivial
  refine hbegin.bind fun y => ?_
  refine Prompt.bind (p := runState drive setting _ _ _ _ _) (runState_prompt hdrive _ _ _ _ _ _) fun r => ?_
  obtain ⟨z, result⟩ := r
  cases result <;> trivial

end

/-- Wherever an execution sleeps, it takes time. -/
theorem drive_prompt (setting : Setting) (budget : Nat) (x : Execution) :
    (drive setting budget x).Prompt := by
  induction budget generalizing x with
  | zero => trivial
  | succ budget ih =>
    unfold drive driveVia
    split
    · trivial
    refine (stepWith_prompt ih setting budget x).bind fun r => ?_
    obtain ⟨y, result⟩ := r
    cases result with
    | error e => trivial
    | ok status => exact ih y

end StepFlow.Execution
