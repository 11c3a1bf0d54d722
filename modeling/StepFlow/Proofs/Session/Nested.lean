import StepFlow.Proofs.Execution.MapInTurn
import StepFlow.Proofs.Execution.Nested
import StepFlow.Proofs.Execution.ParallelInTime
import StepFlow.Proofs.Session.Calls

/-!
# Nested executions in a session

At every moment of a session the contexts of nested executions, at any depth, are forks that only their own
states write to (`calls_nested`): all of them share the execution with the outermost one, no history, item
or count of retries comes from a parent, a sibling or an earlier attempt, and nothing goes back to the
context of the parent.
-/

namespace StepFlow
namespace Session
open Execution Process

/-- After any calls, whatever a step or a run does, it unfolds, and all executions that make it up are part
of the one that was started. No attempt changes the context of the execution that makes it, whatever the
nested executions do; between attempts the record of the state says anew what it says of retries. -/
theorem calls_nested {ω : Type} (setting : Setting) (runners : Runners ω) (world : ω) (workflow : Workflow)
    (id startTime : String) (input : Document) (budget : Nat) (cs : List Call) (s : Session ω)
    (replies : List Reply)
    (h : (start (.start workflow id startTime input) world).calls setting runners budget cs =
      some (s, replies)) (more : Nat) :
    (∀ acts e y, (Execution.drive setting more s.execution).Does acts e → e.Shows y →
      Unfolds setting (PartOf (.start id startTime workflow.startAt input)) s.execution acts y) ∧
    (∀ acts e y, (Execution.step setting more s.execution).Does acts e → e.Shows y →
      Unfolds setting (PartOf (.start id startTime workflow.startAt input)) s.execution acts y) ∧
    ∀ drive state input x,
      (∀ run, state.attempt? drive setting input = some run → ∀ k,
        (run k x).Keeps { shows := fun y => y = x }) ∧
      ∀ name budget, (runState drive setting budget name state input x).Keeps
        { shows := x.Attempting, ends := fun r => x.Attempting r.1 } := by
  have honward := (calls_onward h).execution
  have hpart : s.execution.PartOf (.start id startTime workflow.startAt input) :=
    PartOf.extends (x := .start workflow id startTime input) ⟨rfl, rfl⟩ honward.context
  have htree : s.execution.TreeBehind := honward.tree (.inl rfl)
  have hpervades := pervades_partOf setting (.start id startTime workflow.startAt input)
  exact ⟨fun acts e y => drive_unfolds hpervades more hpart htree,
    fun acts e y => step_unfolds hpervades more hpart htree,
    fun drive state input x => ⟨fun run hrun k => attempt_parent hrun k x, fun name budget => runState_parent name x⟩⟩

/-- Calls in the iterations of a Map state in the branch of a Parallel state. -/
def callsInMap : Workflow := single (.parallel together [single (.map overItems callA)])

/-- Two levels down both calls are made, and the answer to the first is awaited when the run is cut off. -/
theorem calls_nested_callsInMap : ∃ (s : Session Nat) (replies : List Reply) (acts : List Act) (y : Execution),
    (start (.start callsInMap "" "" (secondsItems [2, 1])) 0).calls testSetting (slowFirst (.ok ⟨0, "done"⟩)) 4
        [] = some (s, replies) ∧
      (Execution.drive testSetting 4 s.execution).Does acts (.cut y) ∧
      (acts.filterMap Act.call?).map (·.1) = [[⟨0, 0⟩, ⟨0, 0⟩], [⟨0, 0⟩, ⟨0, 1⟩]] ∧
      Unfolds testSetting (PartOf (.start "" "" "only" (secondsItems [2, 1]))) s.execution acts y := by
  obtain ⟨y, t, hrun, hsites⟩ : ∃ y t,
      (Execution.drive testSetting 4 (.start callsInMap "" "" (secondsItems [2, 1]))).run
        (slowFirst (.ok ⟨0, "done"⟩)) (some 5) (.start 0) = (.cut y, t) ∧
      t.calls.map (·.site) = [[⟨0, 0⟩, ⟨0, 0⟩], [⟨0, 0⟩, ⟨0, 1⟩]] := by
    rw [(driveWithin_sim 30 testSetting 4 _).run_eq (by nofun)]
    exact ⟨_, _, rfl, rfl⟩
  obtain ⟨acts, hdoes, hrecords⟩ := Does.of_run hrun nofun
  obtain ⟨calls, hcalls, hacts⟩ := hrecords.calls
  have hstart : (start (.start callsInMap "" "" (secondsItems [2, 1])) 0).calls testSetting
      (slowFirst (.ok ⟨0, "done"⟩)) 4 [] = some (start (.start callsInMap "" "" (secondsItems [2, 1])) 0, []) := rfl
  refine ⟨_, _, acts, y, hstart, hdoes, ?_, (calls_nested _ _ _ _ _ _ _ _ _ _ _ hstart 4).1 acts _ y hdoes rfl⟩
  rw [← hacts, List.map_map, ← hsites, hcalls]
  rfl

end Session
end StepFlow
