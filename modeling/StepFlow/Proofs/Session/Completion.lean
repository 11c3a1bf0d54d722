import StepFlow.Proofs.Session.Steps

/-!
# How runs end

As long as no call has given an error, an execution is under way without an output, or it has ended with
one (`Standing`), and a run gives the output that it has ended with. A call that gives an error leaves it
aborted, over without an output, and so it stays (`Aborted`). A later run is then answered with null, as
if the execution had ended with it, and told of as completed.
-/

namespace StepFlow

namespace Execution

/-! ### Ends of executions -/

/-- A state that may end the execution has ended it with that output. -/
structure Finished (x : Execution) (v : Document) : Prop where
  output : x.output = some v
  state : ∃ state, x.workflow.state? x.current = some state ∧ state.isEnd = true ∧
    ((∃ f, state.action = .fail f) ∧ x.status = .errored ∨
      (∀ f, state.action ≠ .fail f) ∧ x.status = .success)
  record : ∃ r, x.context.states.getLast? = some r ∧ r.name = x.current ∧ r.output = some v

/-- No error has come up: the execution is not over and has no output, or it has finished. -/
def Standing (x : Execution) : Prop :=
  x.isEnd = false ∧ x.output = none ∨ ∃ v, x.Finished v

/-- An error has ended the execution, which has no output. -/
structure Aborted (x : Execution) : Prop where
  status : x.status = .errored
  output : x.output = none

/-- The execution has ended as the result of its run says: with the output, or aborted. -/
def EndedAs (x : Execution) : Except RuntimeError Document → Prop
  | .ok v => x.Finished v
  | .error _ => x.Aborted

variable {setting : Setting} {x y z : Execution} {v : Document}

theorem Finished.isEnd (h : x.Finished v) : x.isEnd = true := by
  obtain ⟨state, -, -, ⟨-, hstatus⟩ | ⟨-, hstatus⟩⟩ := h.state <;>
  · unfold Execution.isEnd
    rw [hstatus]
    rfl

theorem Aborted.isEnd (h : x.Aborted) : x.isEnd = true := by
  unfold Execution.isEnd
  rw [h.status]
  rfl

theorem Standing.output (h : x.Standing) (hend : x.isEnd = false) : x.output = none := by
  rcases h with ⟨-, hout⟩ | ⟨v, hv⟩
  · exact hout
  · simp [hv.isEnd] at hend

theorem Standing.finished (h : x.Standing) (hend : x.isEnd = true) :
    x.Finished (x.output.getD .null) := by
  rcases h with ⟨hopen, -⟩ | ⟨v, hv⟩
  · simp [hopen] at hend
  · rw [hv.output]
    exact hv

/-- A state that may end the execution finishes it. -/
theorem Visits.finished (hy : x.Visits setting y) {state : State}
    (hstate : x.workflow.state? x.current = some state) (hend : state.isEnd = true) {status : Status}
    (hstatus : (∃ f, state.action = .fail f) ∧ status = .errored ∨
      (∀ f, state.action ≠ .fail f) ∧ status = .success) (failure : Option ExecutionFailure) :
    Finished { y.completed setting v with status, failure, output := some v } v := by
  obtain ⟨r, hstates, hname, -, hr⟩ := hy.states_completed v
  refine ⟨rfl, ⟨state, ?_, hend, hstatus⟩, r, ?_, hname.trans hy.current.symm, hr⟩
  · rw [← hy.workflow, ← hy.current] at hstate
    exact hstate
  · show (y.completed setting v).context.states.getLast? = some r
    rw [hstates, List.getLast?_concat]

/-- A step that succeeds goes on, or finishes the execution. -/
theorem Standing.ok (hx : x.Standing) {status : Status} (h : x.Stepped setting z (.ok status)) :
    z.Standing := by
  cases h with
  | ended => exact hx
  | moved hy =>
    refine .inl ⟨?_, hy.output.trans (hx.output hy.notEnd)⟩
    have hstatus := hy.status
    simp [Execution.isEnd, completed, hstatus, Status.isTerminal]
  | succeeded hy hstate hend hfail =>
    exact .inr ⟨_, hy.finished hstate hend (.inr ⟨hfail, rfl⟩) _⟩
  | failed hy hstate hfail =>
    exact .inr ⟨_, hy.finished hstate (State.isEnd_of_fail hfail) (.inl ⟨⟨_, hfail⟩, rfl⟩) _⟩

/-- A step that fails ends the execution before it has an output. -/
theorem Standing.error (hx : x.Standing) {e : RuntimeError} (h : x.Stepped setting z (.error e)) :
    z.Aborted := by
  refine ⟨h.status_of_error, ?_⟩
  cases h with
  | lost hend => exact hx.output hend
  | aborted hy | dangling hy => exact hy.output.trans (hx.output hy.notEnd)

end Execution

namespace Session

variable {ω : Type} {setting : Setting} {runners : Runners ω} {budget : Nat} {s s' : Session ω}

/-! ### Calls of executions that are over -/

theorem step_of_end (hend : s.execution.isEnd = true) :
    s.step setting runners budget = some (s, .ok s.execution.status) := by
  simp [Session.step, Execution.step, Execution.stepVia, Execution.stepWithVia, hend, Process.run]

theorem run_of_end (hend : s.execution.isEnd = true) {result : Except RuntimeError Document}
    (h : s.run setting runners budget = some (s', result)) :
    result = .ok (s.execution.output.getD .null) ∧
      s' = s.tell (.workflowCompleted s.execution.status (s.execution.output.getD .null)) := by
  cases budget with
  | zero => cases h
  | succ budget =>
    simp only [Session.run, Execution.drive, Execution.driveVia, hend, if_true, Process.run, Option.some.injEq] at h
    obtain ⟨rfl, rfl⟩ := Prod.ext_iff.1 h
    exact ⟨rfl, rfl⟩

/-- Calls of an execution that is over leave it as it is and give no error. -/
theorem call_of_end (hend : s.execution.isEnd = true) {c : Call} {reply : Reply}
    (h : s.call setting runners budget c = some (s', reply)) :
    s'.execution = s.execution ∧ reply.error? = none := by
  obtain ⟨result, rfl, hstep⟩ | ⟨result, rfl, hrun⟩ := call_cases h
  · rw [step_of_end hend] at hstep
    cases hstep
    exact ⟨rfl, rfl⟩
  · obtain ⟨rfl, rfl⟩ := run_of_end hend hrun
    exact ⟨rfl, rfl⟩

/-! ### Any calls -/

theorem Steps.standing (h : Steps setting runners s s') (hs : s.execution.Standing) :
    s'.execution.Standing :=
  h.invariant (fun _ _ _ hx hz => hx.ok hz) hs

theorem call_standing (hs : s.execution.Standing) {c : Call} {reply : Reply}
    (h : s.call setting runners budget c = some (s', reply)) :
    match reply.error? with
    | none => s'.execution.Standing
    | some _ => s'.execution.Aborted := by
  obtain ⟨s₁, hsteps, h⟩ := call_stepped h
  have hs₁ := hsteps.standing hs
  cases hreply : reply.error? with
  | none =>
    rw [hreply] at h
    have hs' : s'.execution = s₁.execution := h
    rw [hs']
    exact hs₁
  | some e =>
    rw [hreply] at h
    exact hs₁.error h

theorem calls_of_end (hend : s.execution.isEnd = true) {cs : List Call} {replies : List Reply}
    (h : s.calls setting runners budget cs = some (s', replies)) : s'.execution = s.execution := by
  refine calls_induction (R := fun s s' => s.execution.isEnd = true → s'.execution = s.execution)
    (fun _ _ => rfl) (fun s₁ s₂ s₃ h₁ h₂ hend => ?_) (fun s c s' reply h hend => (call_of_end hend h).1)
    h hend
  rw [h₂ ((h₁ hend).symm ▸ hend), h₁ hend]

/-- The calls have given no error, or the first error has aborted the execution for good. -/
theorem calls_standing (hs : s.execution.Standing) {cs : List Call} {replies : List Reply}
    (h : s.calls setting runners budget cs = some (s', replies)) :
    (∀ reply ∈ replies, reply.error? = none) ∧ s'.execution.Standing ∨
      (∃ reply ∈ replies, reply.error? ≠ none) ∧ s'.execution.Aborted := by
  induction cs generalizing s replies with
  | nil =>
    cases h
    exact .inl ⟨nofun, hs⟩
  | cons c cs ih =>
    obtain ⟨s₁, reply, rest, h₁, h₂, rfl⟩ := calls_cons h
    have hs₁ := call_standing hs h₁
    cases hreply : reply.error? with
    | none =>
      rw [hreply] at hs₁
      rcases ih hs₁ h₂ with ⟨hnone, hstanding⟩ | ⟨⟨r, hr, herror⟩, haborted⟩
      · exact .inl ⟨List.forall_mem_cons.2 ⟨hreply, hnone⟩, hstanding⟩
      · exact .inr ⟨⟨r, List.mem_cons_of_mem _ hr, herror⟩, haborted⟩
    | some e =>
      rw [hreply] at hs₁
      refine .inr ⟨⟨reply, List.mem_cons_self .., by simp [hreply]⟩, ?_⟩
      rw [calls_of_end hs₁.isEnd h₂]
      exact hs₁

theorem run_standing (hs : s.execution.Standing) {result : Except RuntimeError Document}
    (h : s.run setting runners budget = some (s', result)) : s'.execution.EndedAs result := by
  cases result with
  | ok v =>
    obtain ⟨s₁, hsteps, hend, rfl, rfl⟩ := run_ok h
    exact (hsteps.standing hs).finished hend
  | error e =>
    obtain ⟨s₁, hsteps, hstepped⟩ := run_error h
    exact (hsteps.standing hs).error hstepped

/-! ### Completions that are told of -/

/-- The output that an event says a run has given. -/
def completion? : Event → Option Document
  | .workflowCompleted _ v => some v
  | _ => none

/-- The output that a run has given. -/
def Reply.completion? : Reply → Option Document
  | .run (.ok v) => some v
  | _ => none

theorem completion?_of_tellsAt {w : Workflow} {site : Site} {event : Event} (h : w.TellsAt site event) :
    completion? event = none := by
  obtain ⟨v, -, h⟩ := h
  cases event <;> first | rfl | exact h.elim

/-- The outputs of completed runs that have been told of. -/
def completions (s : Session ω) : List Document :=
  s.timeline.events.filterMap fun l => completion? l.what

theorem call_completions {c : Call} {reply : Reply}
    (h : s.call setting runners budget c = some (s', reply)) :
    s'.completions = s.completions ++ reply.completion?.toList := by
  have hnone {more : List (Logged Event)} (h : ∀ l ∈ more, s.execution.workflow.TellsAt l.site l.what) :
      more.filterMap (fun l => completion? l.what) = [] :=
    List.filterMap_eq_nil_iff.2 fun l hl => completion?_of_tellsAt (h l hl)
  unfold completions
  obtain ⟨result, rfl, hstep⟩ | ⟨result, rfl, hrun⟩ := call_cases h
  · obtain ⟨more, hmore, htells⟩ := step_events hstep
    rw [hmore, List.filterMap_append, hnone htells]
    rfl
  · obtain ⟨more, time, hmore, htells⟩ := run_events hrun
    rw [hmore, List.filterMap_append, List.filterMap_append, hnone htells, List.nil_append]
    congr 1
    cases result <;> rfl

theorem calls_completions {cs : List Call} {replies : List Reply}
    (h : s.calls setting runners budget cs = some (s', replies)) :
    s'.completions = s.completions ++ replies.filterMap Reply.completion? := by
  induction cs generalizing s replies with
  | nil =>
    cases h
    simp
  | cons c cs ih =>
    obtain ⟨s₁, reply, rest, h₁, h₂, rfl⟩ := calls_cons h
    rw [ih h₂, call_completions h₁, List.append_assoc, List.filterMap_cons]
    cases reply.completion? <;> rfl

/-- What a run gives after any calls. If none of them has given an error, an output that it gives is
the one that a state has ended the execution with. Once a call has given an error, every run gives null
and leaves the execution as it is, aborted and without an output. What is told of completed runs is what
runs have given as outputs, in their order. -/
theorem calls_run_completes (w : Workflow) (world : ω) (id startTime : String) (input : Document)
    (cs : List Call) (replies : List Reply)
    (h : (start (.start w id startTime input) world).calls setting runners budget cs =
      some (s, replies)) (more : Nat) (result : Except RuntimeError Document)
    (hrun : s.run setting runners more = some (s', result)) :
    ((∀ reply ∈ replies, reply.error? = none) → s'.execution.EndedAs result) ∧
      ((∃ reply ∈ replies, reply.error? ≠ none) →
        s.execution.Aborted ∧ result = .ok .null ∧ s' = s.tell (.workflowCompleted .errored .null)) ∧
      s'.completions = (replies ++ [Reply.run result]).filterMap Reply.completion? := by
  have hstart : (start (.start w id startTime input) world).execution.Standing := .inl ⟨rfl, rfl⟩
  have hcall : s.call setting runners more Call.run = some (s', Reply.run result) :=
    Option.map_eq_some_iff.2 ⟨_, hrun, rfl⟩
  refine ⟨fun hnone => ?_, fun ⟨reply, hreply, herror⟩ => ?_, ?_⟩
  · rcases calls_standing hstart h with ⟨-, hs⟩ | ⟨⟨reply, hreply, herror⟩, -⟩
    · exact run_standing hs hrun
    · exact (herror (hnone reply hreply)).elim
  · rcases calls_standing hstart h with ⟨hnone, -⟩ | ⟨-, hs⟩
    · exact (herror (hnone reply hreply)).elim
    · obtain ⟨hresult, hs'⟩ := run_of_end hs.isEnd hrun
      rw [hs.output, hs.status] at hs'
      rw [hs.output] at hresult
      exact ⟨hs, hresult, hs'⟩
  · rw [call_completions hcall, calls_completions h, List.filterMap_append]
    cases result <;> rfl

/-- A task whose failures nothing catches. -/
def uncaught : Workflow :=
  .mk "work" [("work", .mk none (.task ⟨"test://work", ⟨none, none⟩, .final, ⟨none, none⟩, none,
    ⟨[], []⟩, none, none, none⟩))] none none

def uncaughtSetting : Setting := ⟨[("test", ())], .null, default, default⟩

/-- Runners that fail. -/
def broken : Runners Unit := fun _ _ => ((), ⟨0, .error (.io "broken")⟩)

/-- A step that is aborted, and a run after it that gives null and is told of as completed. -/
theorem calls_run_completes_uncaught :
    ∃ (s s' : Session Unit) (replies : List Reply),
      (start (.start uncaught "" "" .null) ()).calls uncaughtSetting broken 2 [.step] = some (s, replies) ∧
        s.run uncaughtSetting broken 2 = some (s', .ok .null) ∧ s.execution.Aborted ∧
        s' = s.tell (.workflowCompleted .errored .null) := by
  have herror : ((start (.start uncaught "" "" .null) ()).calls uncaughtSetting broken 2 [.step]).map
      (fun r => (r.2.any fun reply => reply.error?.isSome,
        (r.1.run uncaughtSetting broken 2).isSome)) = some (true, true) := rfl
  obtain ⟨⟨s, replies⟩, h, hsome⟩ := Option.map_eq_some_iff.1 herror
  obtain ⟨hany, hrun⟩ := Prod.ext_iff.1 hsome
  obtain ⟨⟨s', result⟩, hrun⟩ := Option.isSome_iff_exists.1 hrun
  obtain ⟨reply, hreply, herror⟩ := List.any_eq_true.1 hany
  obtain ⟨haborted, rfl, hs'⟩ := (calls_run_completes uncaught () "" "" .null _ _ h 2 _ hrun).2.1
    ⟨reply, hreply, Option.isSome_iff_ne_none.1 herror⟩
  exact ⟨s, s', replies, h, hrun, haborted, hs'⟩

/-- A run that gives an output, and is told of as completed, where a step has given an error and the
execution has no output. -/
theorem run_ok_of_uncaught :
    ∃ (s : Session Unit) (e : RuntimeError),
      (start (.start uncaught "" "" .null) ()).calls uncaughtSetting broken 2 [.step, .run] =
          some (s, [.step (.error e), .run (.ok .null)]) ∧
        s.execution.output = none ∧ s.completions = [.null] := ⟨_, _, rfl, rfl, rfl⟩

end Session
end StepFlow
