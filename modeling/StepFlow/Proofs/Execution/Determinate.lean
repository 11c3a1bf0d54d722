import StepFlow.Proofs.Execution.Onward
import StepFlow.Proofs.Process.InTurn

/-!
# Executions without races

Where the first failure in time counts, the time that answers take decides between failures. This is
so in a Parallel state with several branches, though not too many, and nowhere else: a graph without
such states, at any depth, ends the same however long the answers take (`drive_determinate`).
-/

namespace StepFlow

/-- No Parallel state in which the first failure in time counts has several branches, at any depth. -/
def Workflow.RaceFree (w : Workflow) : Prop :=
  ∀ s branches, w.Contains (.parallel s branches) → branches.length ≤ 1 ∨ maxEagerBranches < branches.length

namespace Workflow.RaceFree

variable {w v : Workflow}

theorem iterator {s : MapState} (h : w.RaceFree) (hv : w.Contains (.map s v)) : v.RaceFree :=
  fun s branches hs => h s branches (.iterator hv hs)

theorem branch {s : ParallelState} {branches : List Workflow} (h : w.RaceFree)
    (hs : w.Contains (.parallel s branches)) (hv : v ∈ branches) : v.RaceFree :=
  fun s branches hs' => h s branches (.branch hs hv hs')

end Workflow.RaceFree

namespace Execution
open Process

variable {A : Request → Answer → Prop}

theorem catchFailure_determinate (recovery : Recovery) (name : String) (input : Document)
    (f : TaskFailure) (x : Execution) : (catchFailure recovery name input f x).Determinate A := by
  unfold catchFailure
  split
  · exact .done _
  · split
    · exact .done _
    · exact .tell (.done _)

theorem recoverable_determinate
    {run : Nat → Execution → Process Execution (Except TaskFailure Document)}
    (hrun : ∀ attempt y, (run attempt y).Determinate A) (transition : Transition)
    (recovery : Recovery) (name : String) (input : Document) (budget attempt : Nat)
    (last : Option Nat) (x : Execution) :
    (recoverable sync run transition recovery name input budget attempt last x).Determinate A := by
  induction budget generalizing attempt last x with
  | zero => exact .stuck
  | succ budget ih =>
    refine (hrun attempt x.sync).bind fun result => ?_
    cases result with
    | ok output => exact .done _
    | error f =>
      dsimp only
      split
      · exact catchFailure_determinate _ _ _ _ _
      · exact .tell (.sleep (ih _ _ _))

/-- A task may be answered sooner or later, but the same. -/
theorem attemptTask_determinate
    (hA : ∀ r answer answer', A r answer → A r answer' → answer.result = answer'.result)
    (setting : Setting) (s : TaskState) (input : Document) (x : Execution) :
    (attemptTask setting s input x).Determinate A := by
  unfold attemptTask
  dsimp only
  split
  · exact .done _
  · refine .ask (hA _) fun result => ?_
    split
    · exact .done _
    · split <;> exact .done _

section
variable {drive : Execution → Process Execution (Execution × Except RuntimeError Document)}

theorem nestedSlot_determinate {x : Execution} (h : (drive x).Determinate A) :
    (nestedSlot drive x).rest.Determinate A :=
  h.bind fun _ => .done _

section
variable {s : MapState} {iterator : Workflow} {input : Document} {x : Execution}
  (h : ∀ effective i item, (drive (iteration s iterator x effective i item)).Determinate A)
include h

theorem iterations_determinate (items : List Document) :
    ∀ slot ∈ iterations drive s iterator input x items, slot.rest.Determinate A :=
  List.forall_mem_map.2 fun _ _ => nestedSlot_determinate (h _ _ _)

theorem attemptMap_determinate {attempt : Nat} :
    (attemptMap drive s iterator input attempt x).Determinate A := by
  rw [attemptMap_eq]
  cases items? s input x with
  | none => exact .done _
  | some items => exact Determinate.bind (.gather nofun (iterations_determinate h items)) fun _ => .done _

end

theorem attemptParallel_determinate {s : ParallelState} {branches : List Workflow} {input : Document}
    {attempt : Nat} {x : Execution}
    (hbranches : branches.length ≤ 1 ∨ maxEagerBranches < branches.length)
    (h : ∀ effective, ∀ w ∈ branches, (drive (branch x effective w)).Determinate A) :
    (attemptParallel drive s branches input attempt x).Determinate A := by
  rw [attemptParallel_eq]
  refine Determinate.bind (.gather (fun hd => ?_) ?_) fun result => .done _
  · rw [List.length_map]
    split at hd
    · omega
    · cases hd
  · exact List.forall_mem_map.2 fun w hw => nestedSlot_determinate (h _ w hw)

variable (hA : ∀ r answer answer', A r answer → A r answer' → answer.result = answer'.result)
  (hdrive : ∀ y : Execution, y.workflow.RaceFree → (drive y).Determinate A)
include hA hdrive

theorem runState_determinate (setting : Setting) (budget : Nat) (name : String) {state : State}
    (input : Document) {x : Execution} (hx : x.workflow.RaceFree)
    (hstate : x.workflow.Contains state.action) :
    (runState drive setting budget name state input x).Determinate A := by
  unfold runState runStateVia
  dsimp only
  split
  · exact .done _
  · exact .done _
  · exact .done _
  · exact .done _
  · split
    · exact .done _
    · exact .sleep (.done _)
  · exact recoverable_determinate (fun _ => attemptTask_determinate hA setting _ input) _ _ _ _ _ _ _ _
  · rename_i s iterator haction
    rw [haction] at hstate
    refine recoverable_determinate (fun attempt y => attemptMap_determinate fun effective i item => ?_)
      _ _ _ _ _ _ _ _
    exact hdrive _ (hx.iterator hstate)
  · rename_i s branches haction
    rw [haction] at hstate
    refine recoverable_determinate (fun attempt y => attemptParallel_determinate (hx s branches hstate)
      fun effective w hw => ?_) _ _ _ _ _ _ _ _
    exact hdrive _ (hx.branch hstate hw)

theorem stepWith_determinate (setting : Setting) (budget : Nat) {x : Execution}
    (hx : x.workflow.RaceFree) : (stepWith drive setting budget x).Determinate A := by
  unfold stepWith stepWithVia
  split
  · exact .done _
  split
  · exact .done _
  rename_i state hstate
  have hbegin : (begin x).Determinate A := by
    unfold begin
    split
    · split
      · exact .tell (.done _)
      · exact .done _
    · exact .done _
  refine hbegin.bind_of_keeps (begin_onward x) fun y hy => .tell ?_
  rw [← hy.workflow] at hx
  refine Determinate.bind (runState_determinate hA hdrive _ _ _ _ hx ?_) fun r => ?_
  · rw [hy.workflow]
    exact .of_state? hstate
  · obtain ⟨z, result⟩ := r
    cases result with
    | error e => exact .done _
    | ok outcome => exact .tell (.done _)

end

/-- How long answers take does not matter to an execution without races. -/
theorem drive_determinate
    (hA : ∀ r answer answer', A r answer → A r answer' → answer.result = answer'.result)
    (setting : Setting) (budget : Nat) {x : Execution} (hx : x.workflow.RaceFree) :
    (drive setting budget x).Determinate A := by
  induction budget generalizing x with
  | zero => exact .stuck
  | succ budget ih =>
    unfold drive driveVia
    split
    · exact .done _
    refine Determinate.bind_of_keeps (stepWith_determinate hA (fun _ => ih) setting budget hx)
      (step_onward setting budget x) fun r hr => ?_
    obtain ⟨y, result⟩ := r
    cases result with
    | error e => exact .done _
    | ok status => exact ih (hr.workflow ▸ hx)

end Execution
end StepFlow
