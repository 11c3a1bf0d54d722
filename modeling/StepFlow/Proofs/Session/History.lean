import StepFlow.Proofs.Execution.History
import StepFlow.Proofs.Session.Closed

/-!
# Histories between calls

Between any two calls of a session its history is a chain from the first state of the graph on, and the
state that is next would continue it. A call adds to the end of the history; of a call that fails, only
the steps before the one that is made in vain do.
-/

namespace StepFlow
namespace Session

variable {ω : Type} {setting : Setting} {runners : Runners ω} {budget : Nat} {s s' : Session ω}
  {w : Workflow}

/-- What is recorded of a call that fails: what its steps have recorded before the last one. -/
theorem run_error_states (hw : w.Closed) (hs : s.execution.Within w) {e : RuntimeError}
    (h : s.run setting runners budget = some (s', .error e)) :
    ∃ s₁, Steps setting runners s s₁ ∧ s₁.execution.Stepped setting s'.execution (.error e) ∧
      s'.execution.context.states = s₁.execution.context.states := by
  obtain ⟨s₁, hsteps, hstepped⟩ := run_error h
  have hclosed : s₁.execution.workflow.Closed := by
    rw [(hsteps.within hw hs).1]
    exact hw
  exact ⟨s₁, hsteps, hstepped, (hstepped.recorded hclosed).2 e rfl⟩

/-- After any calls in a session of a graph that has been checked, the history is a chain that begins with
the first state on the input of the execution, and goes on with the state that is next. Further calls
add to its end. A step that fails adds nothing, nor does that in which a run fails or is cut off. The
nested executions that are launched on the way have such histories, too. -/
theorem calls_chained {g : Definition.Graph} (hg : Workflow.ofDefinition g = .ok w) (world : ω)
    (id startTime : String) (input : Document) (cs : List Call) (replies : List Reply)
    (h : (start (.start w id startTime input) world).calls setting runners budget cs =
      some (s, replies)) (more : Nat) :
    s.execution.Chained w ⟨id, startTime, input⟩ input ∧
      (∀ cs' s' replies', s.calls setting runners more cs' = some (s', replies') →
        s.execution.context.states <+: s'.execution.context.states) ∧
      (∀ s' e, s.step setting runners more = some (s', .error e) →
        s'.execution.context.states = s.execution.context.states) ∧
      (∀ s' e, s.run setting runners more = some (s', .error e) →
        ∃ s₁, Steps setting runners s s₁ ∧ s₁.execution.Stepped setting s'.execution (.error e) ∧
          s'.execution.context.states = s₁.execution.context.states) ∧
      ∀ v, w.Nests v → ∀ x y : Execution, x.Launches v y →
        ∃ d, y.Begins v x.context.execution d ∧
          (Execution.drive setting more y).Keeps (Execution.chaining v x.context.execution d) ∧
          ∀ z, z.Chained v x.context.execution d → (Execution.step setting more z).Keeps z.recording := by
  have hw : w.Valid := Workflow.valid_of_ofDefinition hg
  have hchained : s.execution.Chained w ⟨id, startTime, input⟩ input :=
    calls_invariant (fun _ _ _ hx hz => hx.stepped hz) h (Execution.begins_start w id startTime input).chained
  have hwithin : s.execution.Within w := (calls_within hw.closed (.ofContext hw.closed _ false) h).1
  refine ⟨hchained, fun cs' s' replies' h' => ?_, fun s' e h' => ?_, fun s' e => ?_,
    fun v hv x y hy => ?_⟩
  · obtain ⟨states, hstates⟩ := (calls_onward h').execution.context.states
    exact ⟨states, hstates.symm⟩
  · refine ((step_stepped h').recorded ?_).2 e rfl
    rw [hwithin.1]
    exact hw.closed
  · exact run_error_states hw.closed hwithin
  · obtain ⟨d, hbegins⟩ := hy.begins
    refine ⟨d, hbegins, (Execution.carries_chaining setting v _ d).drive more hbegins.chained, fun z hz => ?_⟩
    refine Execution.step_recording ?_ setting more
    rw [hz.workflow]
    exact hw v hv

/-- A state that passes its input on, and one that waits for longer than a run may last. -/
def passThenWait : Definition.Graph :=
  .mk ⟨"first", none, none, some 1⟩
    [("first", .pass ⟨⟨none, .null, .null⟩, ⟨some "second", false⟩, .null, none, none⟩),
    ("second", .wait ⟨⟨none, .null, .null⟩, ⟨none, true⟩, some 2, none, none, none⟩)]

/-- A step that is recorded, and a run that is cut off in the step after it. -/
theorem calls_chained_passThenWait :
    ∃ (w : Workflow) (s : Session Unit) (replies : List Reply),
      Workflow.ofDefinition passThenWait = .ok w ∧
        (start (.start w "" "" .null) ()).calls default (fun _ _ => ((), ⟨0, .ok ⟨0, ""⟩⟩)) 2
          [.step, .run] = some (s, replies) ∧
        replies.map Reply.error? = [none, some (.timeout 1)] ∧
        s.execution.context.states.map (·.name) = ["first"] ∧
        s.execution.Chained w ⟨"", "", .null⟩ .null := by
  have hgraph : ∃ w, Workflow.ofDefinition passThenWait = .ok w ∧
      ((start (.start w "" "" .null) ()).calls default (fun _ _ => ((), ⟨0, .ok ⟨0, ""⟩⟩)) 2
        [.step, .run]).map (fun r => (r.2.map Reply.error?, r.1.execution.context.states.map (·.name))) =
      some ([none, some (.timeout 1)], ["first"]) := ⟨_, rfl, rfl⟩
  obtain ⟨w, hw, hrun⟩ := hgraph
  obtain ⟨⟨s, replies⟩, h, hstates⟩ := Option.map_eq_some_iff.1 hrun
  obtain ⟨herrors, hnames⟩ := Prod.ext_iff.1 hstates
  exact ⟨w, s, replies, hw, h, herrors, hnames, (calls_chained hw () "" "" .null _ _ h 0).1⟩

end Session
end StepFlow
