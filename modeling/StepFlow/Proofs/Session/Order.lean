import StepFlow.Proofs.Execution.Orderly
import StepFlow.Proofs.Execution.Sim
import StepFlow.Proofs.Session.Recount

/-!
# No work outlives its attempt

All that a session does at any depth is done in order: an attempt does all that it and its nested
executions do before the next attempt begins or the state is left. Once a call has given an error, be it
that the run has timed out, nothing of the tree of executions goes on (`calls_orderly`).
-/

namespace StepFlow
namespace Session
open Execution Process

variable {ω : Type} {setting : Setting} {runners : Runners ω} {budget : Nat} {s : Session ω}
  {w : Workflow}

/-- Whatever calls are made, what they do is the work of an execution that is orderly, and so is what a run
would do after them up to any time: at every depth an attempt, failed or not, does all that it and its
nested executions do before the next attempt, the state of a catcher or anything else. And after a call
that gave an error, be it a timeout, no call does anything but tell that the run is over. -/
theorem calls_orderly {g : Definition.Graph} (hg : Workflow.ofDefinition g = .ok w) (world : ω)
    (id startTime : String) (input : Document) (cs : List Call) (replies : List Reply)
    (h : (start (.start w id startTime input) world).calls setting runners budget cs =
      some (s, replies)) :
    (∃ acts, (Timeline.start world).Records acts s.timeline ∧
      Orderly setting (.start w id startTime input) (deeds acts) ∧
      ∀ (more : Nat) (acts' : List Act) e, (drive setting more s.execution).Does acts' e →
        Orderly setting (.start w id startTime input) (deeds acts ++ acts')) ∧
    ((∃ reply ∈ replies, reply.error? ≠ none) →
      ∀ more cs' s' replies', s.calls setting runners more cs' = some (s', replies') →
        s'.execution = s.execution ∧ s'.timeline.calls = s.timeline.calls ∧
          ∃ closings, s'.timeline.events = s.timeline.events ++ closings ∧
            ∀ l ∈ closings, l.site = [] ∧ l.what = .workflowCompleted .errored .null) := by
  have hw : w.Valid := Workflow.valid_of_ofDefinition hg
  have hfresh : (Execution.start w id startTime input).Fresh := fresh_ofContext hw.closed rfl false
  obtain ⟨visits, hvisits⟩ := calls_recounts hfresh hw.closed world h
  refine ⟨?_, fun ⟨reply, hreply, herror⟩ more cs' s' replies' h' => ?_⟩
  · obtain ⟨acts, hrecords, hacts⟩ := hvisits.timeline
    refine ⟨acts, hrecords, ?_, fun more acts' e hdoes => ?_⟩
    · rw [hacts]
      exact Visiting.orderly hw hvisits.execution.visits
    · obtain ⟨visits', rfl, hvisited, hcomes⟩ := hvisits.execution.drive hw.closed hdoes
      rw [hacts, hvisits.execution.performed_append hfresh hvisited]
      exact Visiting.orderly hw hcomes.visiting_all
  · have hstart : (start (.start w id startTime input) world).execution.Standing := .inl ⟨rfl, rfl⟩
    rcases calls_standing hstart h with ⟨hnone, -⟩ | ⟨-, haborted⟩
    · exact (herror (hnone reply hreply)).elim
    · have hquiet := calls_quiet haborted.isEnd h'
      rw [haborted.status, haborted.output] at hquiet
      exact hquiet

/-- A run as far as gatherings of up to `n` turns take it. -/
def runWithin (n : Nat) (setting : Setting) (runners : Runners ω) (budget : Nat) (s : Session ω) :
    Option (Session ω × Except RuntimeError Document) :=
  match (driveWithin n setting budget s.execution).run runners s.deadline s.timeline with
  | (.finished (x, result), t) => some (close result ⟨x, t⟩)
  | (.cut x, t) =>
    some (close (.error (.timeout (s.execution.workflow.timeoutSeconds.getD 0))) ⟨x, t⟩)
  | (.stuck, _) => none

theorem run_of_within {n : Nat} {r : Session ω × Except RuntimeError Document}
    (h : s.runWithin n setting runners budget = some r) : s.run setting runners budget = some r := by
  have hends : ((driveWithin n setting budget s.execution).run runners s.deadline s.timeline).1 ≠
      .stuck := by
    intro hstuck
    unfold runWithin at h
    split at h
    · rename_i hrun
      rw [hrun] at hstuck
      cases hstuck
    · rename_i hrun
      rw [hrun] at hstuck
      cases hstuck
    · cases h
  unfold Session.run
  rw [(driveWithin_sim n setting budget s.execution).run_eq hends]
  exact h

/-- A branch that waits for ten seconds beside one that fails at once; the state is tried twice. -/
def failBesideWait : Definition.Graph :=
  .mk ⟨"both", none, none, none⟩
    [("both", .parallel ⟨⟨none, .null, .null⟩, ⟨none, true⟩, .null, none,
      ⟨[⟨[allErrors], none, some 1, none⟩], []⟩⟩
      [.mk ⟨"wait", none, none, none⟩
        [("wait", .wait ⟨⟨none, .null, .null⟩, ⟨none, true⟩, some 10, none, none, none⟩)],
      .mk ⟨"fail", none, none, none⟩ [("fail", .fail ⟨none, some "Broken", none⟩)]])]

/-- Both attempts end when the second branch fails. The first one has begun to wait by then, and nothing
more comes of it. -/
theorem calls_orderly_failBesideWait :
    ∃ (w : Workflow) (s : Session Unit) (e : RuntimeError) (acts : List Act),
      Workflow.ofDefinition failBesideWait = .ok w ∧
        (start (.start w "" "" .null) ()).calls default (fun _ _ => ((), ⟨0, .ok ⟨0, ""⟩⟩)) 3 [.run] =
          some (s, [.run (.error e)]) ∧
        s.timeline.clock < Duration.ofSeconds 10 ∧ s.timeline.events.length = 10 ∧
        (Timeline.start ()).Records acts s.timeline ∧
        Orderly default (.start w "" "" .null) (deeds acts) ∧
        ∀ more cs' s' replies',
          s.calls default (fun _ _ => ((), ⟨0, .ok ⟨0, ""⟩⟩)) more cs' = some (s', replies') →
            s'.execution = s.execution := by
  have hgraph : ((Workflow.ofDefinition failBesideWait).toOption.bind fun w =>
      (runWithin 20 default (fun _ _ => ((), ⟨0, .ok ⟨0, ""⟩⟩)) 3 (start (.start w "" "" .null) ())).map
        fun r => (r.2.toOption.isNone, decide (r.1.timeline.clock < Duration.ofSeconds 10),
          r.1.timeline.events.length)) = some (true, true, 10) := by decide +kernel
  obtain ⟨w, hw, hrun⟩ := Option.bind_eq_some_iff.1 hgraph
  obtain ⟨⟨s, result⟩, hrun, hresult⟩ := Option.map_eq_some_iff.1 hrun
  obtain ⟨hfails, hrest⟩ := Prod.ext_iff.1 hresult
  obtain ⟨hclock, hlength⟩ := Prod.ext_iff.1 hrest
  cases result with
  | ok v => cases hfails
  | error e =>
    have hw := Except.eq_ok_of_toOption hw
    have hcalls : (start (.start w "" "" .null) ()).calls default
        (fun _ _ => ((), ⟨0, .ok ⟨0, ""⟩⟩)) 3 [.run] = some (s, [.run (.error e)]) := by
      simp [calls, call, run_of_within hrun]
    obtain ⟨⟨acts, hrecords, horderly, -⟩, hquiet⟩ := calls_orderly hw () "" "" .null _ _ hcalls
    have hquiet := hquiet ⟨_, List.mem_singleton_self _, fun h => by cases h⟩
    exact ⟨w, s, e, acts, hw, hcalls, of_decide_eq_true hclock, hlength, hrecords, horderly,
      fun more cs' s' replies' h => (hquiet more cs' s' replies' h).1⟩

end Session
end StepFlow
