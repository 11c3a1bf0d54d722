import StepFlow.Proofs.Execution.Parts
import StepFlow.Proofs.Process.Sim

/-!
# Similar executions

Executions are similar when their nested executions are joined similarly and their tasks ask similar
things, whatever their credentials. In particular a run of `driveVia sync (gatherWithin n)`, which can
be computed, is one of `drive` (`driveWithin_sim`).
-/

namespace StepFlow

variable {S : Prop} {Q : Request → Request → Prop}

/-- Ways to join that keep the similarity of what they join. -/
def Join.Sim (S : Prop) (Q : Request → Request → Prop) (join join' : Join) : Prop :=
  ∀ x attempt d slots slots', Slots.Sim S Q slots slots' →
    (join x attempt d slots).Sim S Q (join' x attempt d slots')

theorem Join.Sim.gather : Join.Sim S Q gather gather := fun _ _ _ _ _ h => .gather h

theorem Join.Sim.gatherWithin (hS : S) (n : Nat) : Join.Sim S Q (gatherWithin n) StepFlow.gather :=
  fun x attempt d slots _ h => (gatherWithin_sim hS n x attempt d slots).of_eq_trans (.gather h)

namespace Execution
open Process

variable (hQ : ∀ r, Q r r) (refresh : Execution → Execution)
include hQ

theorem recoverable_sim
    {run run' : Nat → Execution → Process Execution (Except TaskFailure Document)}
    (hrun : ∀ attempt y, (run attempt y).Sim S Q (run' attempt y)) (transition : Transition)
    (recovery : Recovery) (name : String) (input : Document) (budget attempt : Nat)
    (last : Option Nat) (x : Execution) :
    (recoverable refresh run transition recovery name input budget attempt last x).Sim S Q
      (recoverable refresh run' transition recovery name input budget attempt last x) := by
  induction budget generalizing attempt last x with
  | zero => exact .stuck
  | succ budget ih =>
    refine (hrun attempt (refresh x)).bind fun result => ?_
    cases result with
    | ok output => exact .done _
    | error f =>
      dsimp only
      split
      · exact .refl hQ _
      · exact .tell (.sleep (ih _ _ _))

section
variable {drive drive' : Execution → Process Execution (Execution × Except RuntimeError Document)}
  (hdrive : ∀ y, (drive y).Sim S Q (drive' y)) {join join' : Join}
  (hjoin : Join.Sim S Q join join')

omit hQ in
include hdrive in
theorem nestedSlots_sim {ι : Type} (start : ι → Execution) (is : List ι) :
    Slots.Sim S Q (is.map fun i => nestedSlot drive (start i))
      (is.map fun i => nestedSlot drive' (start i)) := by
  refine List.forall₂_map_left_iff.2 (List.forall₂_map_right_iff.2 (List.forall₂_same.2 fun i _ => ?_))
  exact .ready ((hdrive _).bind fun _ => .done _)

include hdrive hjoin

omit hQ in
theorem attemptMapVia_sim (s : MapState) (iterator : Workflow) (input : Document) (attempt : Nat)
    (x : Execution) :
    (attemptMapVia join drive s iterator input attempt x).Sim S Q
      (attemptMapVia join' drive' s iterator input attempt x) := by
  rw [attemptMapVia_eq, attemptMapVia_eq]
  cases items? s input x with
  | none => exact .done _
  | some items => exact (hjoin _ _ _ _ _ (nestedSlots_sim hdrive _ _)).bind fun result => .done _

omit hQ in
theorem attemptParallelVia_sim (s : ParallelState) (branches : List Workflow) (input : Document)
    (attempt : Nat) (x : Execution) :
    (attemptParallelVia join drive s branches input attempt x).Sim S Q
      (attemptParallelVia join' drive' s branches input attempt x) := by
  rw [attemptParallelVia_eq, attemptParallelVia_eq]
  exact (hjoin _ _ _ _ _ (nestedSlots_sim hdrive _ _)).bind fun result => .done _

variable {setting : Setting} {credentials : Document}
  (htask : ∀ s input x, (attemptTask setting s input x).Sim S Q
    (attemptTask { setting with credentials } s input x))
include htask

theorem runStateVia_sim (budget : Nat) (name : String) (state : State) (input : Document)
    (x : Execution) :
    (runStateVia refresh join drive setting budget name state input x).Sim S Q
      (runStateVia refresh join' drive' { setting with credentials } budget name state input x) := by
  unfold runStateVia
  dsimp only
  split
  · exact .done _
  · exact .done _
  · exact .done _
  · exact .done _
  · exact .refl hQ _
  · exact recoverable_sim hQ refresh (fun _ => htask _ _) _ _ _ _ _ _ _ _
  · exact recoverable_sim hQ refresh (attemptMapVia_sim hdrive hjoin _ _ _) _ _ _ _ _ _ _ _
  · exact recoverable_sim hQ refresh (attemptParallelVia_sim hdrive hjoin _ _ _) _ _ _ _ _ _ _ _

theorem stepWithVia_sim (budget : Nat) (x : Execution) :
    (stepWithVia refresh join drive setting budget x).Sim S Q
      (stepWithVia refresh join' drive' { setting with credentials } budget x) := by
  unfold stepWithVia
  split
  · exact .done _
  split
  · exact .done _
  refine (Sim.refl hQ (begin x)).bind fun y => .tell ?_
  refine (runStateVia_sim hQ refresh hdrive hjoin htask _ _ _ _ _).bind fun r => ?_
  obtain ⟨z, result⟩ := r
  cases result with
  | error e => exact .done _
  | ok outcome => exact .tell (.done _)

end

section
variable {join join' : Join} (hjoin : Join.Sim S Q join join')
  {setting : Setting} {credentials : Document}
  (htask : ∀ s input x, (attemptTask setting s input x).Sim S Q
    (attemptTask { setting with credentials } s input x))
include hjoin htask

theorem driveVia_sim (budget : Nat) (x : Execution) :
    (driveVia refresh join setting budget x).Sim S Q
      (driveVia refresh join' { setting with credentials } budget x) := by
  induction budget generalizing x with
  | zero => exact .stuck
  | succ budget ih =>
    unfold driveVia
    split
    · exact .done _
    refine (stepWithVia_sim hQ refresh ih hjoin htask budget x).bind fun r => ?_
    obtain ⟨y, result⟩ := r
    cases result with
    | error e => exact .done _
    | ok status => exact ih y

theorem stepVia_sim (budget : Nat) (x : Execution) :
    (stepVia refresh join setting budget x).Sim S Q
      (stepVia refresh join' { setting with credentials } budget x) :=
  stepWithVia_sim hQ refresh (driveVia_sim hQ refresh hjoin htask budget) hjoin htask budget x

end

/-! ### Computing runs -/

omit hQ

/-- `drive` with up to `n` turns in each gathering. -/
abbrev driveWithin (n : Nat) : Setting → Nat → Execution →
    Process Execution (Execution × Except RuntimeError Document) :=
  driveVia sync (gatherWithin n)

theorem driveWithin_sim (n : Nat) (setting : Setting) (budget : Nat) (x : Execution) :
    (driveWithin n setting budget x).Sim True Eq (drive setting budget x) :=
  driveVia_sim (fun _ => rfl) sync (.gatherWithin trivial n) (fun _ _ _ => .refl (fun _ => rfl) _) budget x

section
variable (n : Nat) (setting : Setting) (budget : Nat)

theorem attemptMapWithin_sim (s : MapState) (iterator : Workflow) (input : Document) (attempt : Nat)
    (x : Execution) :
    (attemptMapVia (gatherWithin n) (driveWithin n setting budget) s iterator input attempt x).Sim True Eq
      (attemptMap (drive setting budget) s iterator input attempt x) :=
  attemptMapVia_sim (driveWithin_sim n setting budget) (.gatherWithin trivial n) ..

theorem attemptParallelWithin_sim (s : ParallelState) (branches : List Workflow) (input : Document)
    (attempt : Nat) (x : Execution) :
    (attemptParallelVia (gatherWithin n) (driveWithin n setting budget) s branches input attempt x).Sim True Eq
      (attemptParallel (drive setting budget) s branches input attempt x) :=
  attemptParallelVia_sim (driveWithin_sim n setting budget) (.gatherWithin trivial n) ..

end

/-- `runState` with up to `n` turns in each gathering. -/
abbrev runStateWithin (n : Nat) (setting : Setting) (depth : Nat) : Nat → String → State → Document → Execution →
    Process Execution (Execution × Except RuntimeError Outcome) :=
  runStateVia sync (gatherWithin n) (driveWithin n setting depth) setting

theorem runStateWithin_sim (n : Nat) (setting : Setting) (depth budget : Nat) (name : String) (state : State)
    (input : Document) (x : Execution) :
    (runStateWithin n setting depth budget name state input x).Sim True Eq
      (runState (drive setting depth) setting budget name state input x) := by
  have htask (s : TaskState) (input : Document) (x : Execution) :
      (attemptTask setting s input x).Sim True Eq (attemptTask { setting with } s input x) :=
    .refl (fun _ => rfl) _
  exact runStateVia_sim (fun _ => rfl) sync (driveWithin_sim n setting depth) (.gatherWithin trivial n) htask ..

end Execution
end StepFlow
