import StepFlow.Proofs.Execution.Parts
import StepFlow.Proofs.Process.Along

/-!
# Executions without limits on their time

`Workflow.untimed` takes the limits on time from a graph and all graphs nested in it. No step, and no
drive, of an execution looks at them: an execution of the untimed graph does the same in the same time
(`drive_untimed`), so that a limit can matter only to what is made of a drive.
-/

namespace StepFlow

mutual

def Action.untimed : Action → Action
  | .map s iterator => .map s iterator.untimed
  | .parallel s branches => .parallel s (untimedBranches branches)
  | a => a

def State.untimed : State → State
  | .mk comment action => .mk comment action.untimed

/-- The graph without limits on time, its own and those of nested graphs. -/
def Workflow.untimed : Workflow → Workflow
  | .mk startAt states comment _ => .mk startAt (untimedStates states) comment none

def untimedBranches : List Workflow → List Workflow
  | [] => []
  | w :: rest => w.untimed :: untimedBranches rest

def untimedStates : List (String × State) → List (String × State)
  | [] => []
  | (name, s) :: rest => (name, s.untimed) :: untimedStates rest

end

theorem untimedBranches_eq (ws : List Workflow) : untimedBranches ws = ws.map Workflow.untimed := by
  induction ws with
  | nil => rfl
  | cons w rest ih => rw [untimedBranches, ih, List.map_cons]

theorem get?_untimedStates (name : String) (states : Table State) :
    Table.get? name (untimedStates states) = (Table.get? name states).map State.untimed := by
  induction states with
  | nil => rfl
  | cons entry rest ih =>
    obtain ⟨k, s⟩ := entry
    simp only [untimedStates, Table.get?, ih]
    split <;> rfl

namespace Workflow

@[simp] theorem startAt_untimed (w : Workflow) : w.untimed.startAt = w.startAt := by
  cases w
  rfl

@[simp] theorem state?_untimed (w : Workflow) (name : String) :
    w.untimed.state? name = (w.state? name).map State.untimed := by
  cases w
  exact get?_untimedStates name _

end Workflow

@[simp] theorem State.type_untimed (s : State) : s.untimed.type = s.type := by
  obtain ⟨comment, action⟩ := s
  cases action <;> rfl

namespace Execution
open Process

def untimed (x : Execution) : Execution := { x with workflow := x.workflow.untimed }

/-- What an execution has come to, untimed. -/
def untimedResult {α : Type} (r : Execution × α) : Execution × α := (r.1.untimed, r.2)

theorem sync_untimed (x : Execution) : x.untimed.sync = x.sync.untimed := by
  unfold sync untimed
  dsimp only
  split <;> rfl

theorem withRecord_untimed (x : Execution) (record : StateRecord) :
    x.untimed.withRecord record = (x.withRecord record).untimed := rfl

theorem iteration_untimed (s : MapState) (iterator : Workflow) (x : Execution) (effective : Document)
    (index : Nat) (item : Document) :
    iteration s iterator.untimed x.untimed effective index item =
      (iteration s iterator x effective index item).untimed := by
  unfold iteration
  dsimp only
  rw [Workflow.startAt_untimed]
  unfold ofContext
  rw [Workflow.startAt_untimed]
  rfl

theorem branch_untimed (x : Execution) (effective : Document) (w : Workflow) :
    branch x.untimed effective w.untimed = (branch x effective w).untimed := by
  unfold branch ofContext
  rw [Workflow.startAt_untimed]
  rfl

/-! ### Attempts -/

section
variable {setting : Setting} {s : TaskState} {input : Document}

theorem attemptTask_untimed (x : Execution) :
    attemptTask setting s input x.untimed = (attemptTask setting s input x).along untimed id := by
  unfold attemptTask
  dsimp only [untimed]
  split
  · rfl
  · refine Eq.trans (congrArg (Process.bind _) (along_ask untimed x _)) (along_bind (fun result => ?_) _)
    cases result with
    | error e => rfl
    | ok report =>
      dsimp only [id]
      split <;> rfl

end

section
variable {drive : Execution → Process Execution (Execution × Except RuntimeError Document)}
  (hdrive : ∀ y, drive y.untimed = (drive y).along untimed untimedResult)
include hdrive

theorem nestedSlot_untimed (y : Execution) :
    nestedSlot drive y.untimed = (nestedSlot drive y).along untimed := by
  refine congrArg Slot.ready ?_
  rw [hdrive]
  refine along_bind ?_ _
  exact fun _ => rfl

theorem attemptMap_untimed (s : MapState) (iterator : Workflow) (input : Document) (attempt : Nat)
    (x : Execution) :
    attemptMap drive s iterator.untimed input attempt x.untimed =
      (attemptMap drive s iterator input attempt x).along untimed id := by
  rw [attemptMap_eq, attemptMap_eq]
  have hitems : items? s input x.untimed = items? s input x := rfl
  rw [hitems]
  cases items? s input x with
  | none => rfl
  | some items =>
    have hslots : iterations drive s iterator.untimed input x.untimed items =
        (iterations drive s iterator input x items).map (Slot.along untimed) := by
      simp only [iterations, List.map_map]
      refine List.map_congr_left fun item _ => ?_
      exact (congrArg _ (iteration_untimed ..)).trans (nestedSlot_untimed hdrive _)
    dsimp only
    rw [hslots, gather_along]
    refine along_bind ?_ _
    exact fun _ => rfl

theorem attemptParallel_untimed (s : ParallelState) (branches : List Workflow) (input : Document)
    (attempt : Nat) (x : Execution) :
    attemptParallel drive s (untimedBranches branches) input attempt x.untimed =
      (attemptParallel drive s branches input attempt x).along untimed id := by
  rw [attemptParallel_eq, attemptParallel_eq, untimedBranches_eq, List.length_map]
  have hslots (effective : Document) : (branches.map Workflow.untimed).map
        (fun w => nestedSlot drive (branch x.untimed effective w)) =
      (branches.map fun w => nestedSlot drive (branch x effective w)).map (Slot.along untimed) := by
    simp only [List.map_map]
    refine List.map_congr_left fun w _ => ?_
    exact (congrArg _ (branch_untimed ..)).trans (nestedSlot_untimed hdrive _)
  rw [hslots, gather_along]
  refine along_bind ?_ _
  exact fun _ => rfl

end

/-! ### Steps -/

theorem catchFailure_untimed (recovery : Recovery) (name : String) (input : Document) (f : TaskFailure)
    (x : Execution) :
    catchFailure recovery name input f x.untimed =
      (catchFailure recovery name input f x).along untimed untimedResult := by
  unfold catchFailure
  split
  · rfl
  · split
    · rfl
    · exact bind_tell_along rfl

theorem recoverable_untimed
    {run run' : Nat → Execution → Process Execution (Except TaskFailure Document)}
    (hrun : ∀ attempt y, run' attempt y.untimed = (run attempt y).along untimed id)
    (transition : Transition) (recovery : Recovery) (name : String) (input : Document)
    (budget attempt : Nat) (last : Option Nat) (x : Execution) :
    recoverable sync run' transition recovery name input budget attempt last x.untimed =
      (recoverable sync run transition recovery name input budget attempt last x).along untimed
        untimedResult := by
  induction budget generalizing attempt last x with
  | zero => rfl
  | succ budget ih =>
    unfold recoverable
    dsimp only
    rw [sync_untimed, hrun]
    refine along_bind (fun result => ?_) _
    cases result with
    | ok output => rfl
    | error f =>
      dsimp only [id]
      have hrecord : x.sync.untimed.context = x.sync.context := rfl
      rw [hrecord]
      split
      · rw [withRecord_untimed]
        exact catchFailure_untimed recovery name input f _
      · rw [withRecord_untimed]
        refine bind_tell_along ?_
        refine bind_sleep_along ?_
        exact ih _ _ _

theorem begin_untimed (x : Execution) : begin x.untimed = (begin x).along untimed untimed := by
  unfold begin
  have hstatus : x.untimed.status = x.status := rfl
  have hnested : x.untimed.nested = x.nested := rfl
  rw [hstatus, hnested]
  split
  · split <;> rfl
  · rfl

theorem advance_untimed (state : State) (outcome : Outcome) (x : Execution) :
    x.untimed.advance state.untimed outcome = untimedResult (x.advance state outcome) := by
  unfold advance
  cases outcome.next with
  | some next =>
    have hstate : (x.untimed.workflow.state? next).isSome = (x.workflow.state? next).isSome := by
      rw [untimed, Workflow.state?_untimed, Option.isSome_map]
    dsimp only
    rw [hstate]
    split <;> rfl
  | none =>
    obtain ⟨comment, action⟩ := state
    cases action <;> rfl

section
variable {drive : Execution → Process Execution (Execution × Except RuntimeError Document)}
  (hdrive : ∀ y, drive y.untimed = (drive y).along untimed untimedResult)
include hdrive

theorem runState_untimed (setting : Setting) (budget : Nat) (name : String) (state : State)
    (input : Document) (x : Execution) :
    runState drive setting budget name state.untimed input x.untimed =
      (runState drive setting budget name state input x).along untimed untimedResult := by
  obtain ⟨comment, action⟩ := state
  unfold runState runStateVia
  dsimp only [State.action, State.untimed]
  rw [sync_untimed]
  cases action with
  | pass | choice | succeed | fail => rfl
  | wait s =>
    have htree : x.sync.untimed.tree = x.sync.tree := rfl
    dsimp only [Action.untimed]
    rw [htree]
    split
    · rfl
    · refine bind_sleep_along ?_
      rfl
  | task s => exact recoverable_untimed (fun _ => attemptTask_untimed) _ _ _ _ _ _ _ _
  | map s iterator => exact recoverable_untimed (attemptMap_untimed hdrive s iterator input) _ _ _ _ _ _ _ _
  | parallel s branches =>
    exact recoverable_untimed (attemptParallel_untimed hdrive s branches input) _ _ _ _ _ _ _ _

theorem stepWith_untimed (setting : Setting) (budget : Nat) (x : Execution) :
    stepWith drive setting budget x.untimed =
      (stepWith drive setting budget x).along untimed untimedResult := by
  unfold stepWith stepWithVia
  have hend : x.untimed.isEnd = x.isEnd := rfl
  have hstate : x.untimed.workflow.state? x.untimed.current =
      (x.workflow.state? x.current).map State.untimed := Workflow.state?_untimed _ _
  rw [hend, hstate]
  split
  · rfl
  cases x.workflow.state? x.current with
  | none => rfl
  | some state =>
    dsimp only [Option.map_some]
    rw [begin_untimed]
    refine along_bind (fun y => ?_) _
    rw [State.type_untimed]
    refine bind_tell_along ?_
    have hrun := runState_untimed hdrive setting budget y.current state y.context.state.input
      { y with context := y.context.enter setting.stamps y.current y.context.state.input }
    refine Eq.trans (congrArg (Process.bind _) hrun) (along_bind (fun r => ?_) _)
    obtain ⟨z, result⟩ := r
    cases result with
    | error e => rfl
    | ok outcome =>
      refine bind_tell_along (congrArg done ?_)
      exact advance_untimed state outcome
        { z with context := z.context.finish setting.stamps outcome.output }

end

theorem drive_untimed (setting : Setting) (budget : Nat) (x : Execution) :
    drive setting budget x.untimed = (drive setting budget x).along untimed untimedResult := by
  induction budget generalizing x with
  | zero => rfl
  | succ budget ih =>
    unfold drive driveVia
    have hend : x.untimed.isEnd = x.isEnd := rfl
    rw [hend]
    split
    · rfl
    · have hstep := stepWith_untimed ih setting budget x
      refine Eq.trans (congrArg (Process.bind _) hstep) (along_bind (fun r => ?_) _)
      obtain ⟨y, result⟩ := r
      cases result with
      | error e => rfl
      | ok status => exact ih y

theorem step_untimed (setting : Setting) (budget : Nat) (x : Execution) :
    step setting budget x.untimed = (step setting budget x).along untimed untimedResult :=
  stepWith_untimed (drive_untimed setting budget) setting budget x

end Execution
end StepFlow
