import StepFlow.Execution
import StepFlow.Proofs.Document.Table

/-!
# States at any depth

`w.Contains a`: some state of the graph `w`, or of a graph nested in it however deep, does `a`.
-/

namespace StepFlow

namespace Workflow

inductive Contains : Workflow → Action → Prop where
  | own {w : Workflow} {name : String} {state : State} (h : (name, state) ∈ w.states) :
      Contains w state.action
  | iterator {w iterator : Workflow} {s : MapState} {a : Action}
      (h : Contains w (.map s iterator)) (ha : Contains iterator a) : Contains w a
  | branch {w b : Workflow} {s : ParallelState} {branches : List Workflow} {a : Action}
      (h : Contains w (.parallel s branches)) (hb : b ∈ branches) (ha : Contains b a) : Contains w a

theorem Contains.of_state? {w : Workflow} {name : String} {state : State}
    (h : w.state? name = some state) : w.Contains state.action := .own (Table.mem_of_get? h)

end Workflow

end StepFlow
