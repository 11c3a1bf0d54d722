import StepFlow.Proofs.Execution.Visit
import StepFlow.Proofs.Process.Run
import StepFlow.Proofs.Session.Calls

/-!
# Calls as steps

A run makes the same steps as a caller who steps by hand: some that succeed, and then the end of the
execution, a step that fails, or one that the deadline cuts off (`drive_ran`). So every call comes to
steps that succeed, with one that fails after them if it gives an error (`call_stepped`), and what
every step carries on, every sequence of calls does (`calls_invariant`).
-/

namespace StepFlow
namespace Session

variable {ω : Type} {setting : Setting} {runners : Runners ω} {budget : Nat} {s s' : Session ω}

/-- Steps that succeed, one after the other. -/
inductive Steps (setting : Setting) (runners : Runners ω) : Session ω → Session ω → Prop where
  | refl (s : Session ω) : Steps setting runners s s
  | step {s s₁ s₂ : Session ω} {budget : Nat} {status : Status}
      (h : s.step setting runners budget = some (s₁, .ok status))
      (rest : Steps setting runners s₁ s₂) : Steps setting runners s s₂

/-! ### Steps -/

theorem step_eq_some {result : Except RuntimeError Status} :
    s.step setting runners budget = some (s', result) ↔
      (Execution.step setting budget s.execution).run runners none s.timeline =
        (.finished (s'.execution, result), s'.timeline) := by
  obtain ⟨y, t⟩ := s'
  unfold Session.step
  split
  · rename_i heq
    simp [heq, and_right_comm]
  · rename_i heq
    simp [heq]
  · rename_i heq
    simp [heq]

theorem step_stepped {result : Except RuntimeError Status}
    (h : s.step setting runners budget = some (s', result)) :
    s.execution.Stepped setting s'.execution result := by
  have hmeets := ((Execution.step_stepping setting budget s.execution).run runners none s.timeline).1
  rw [step_eq_some.1 h] at hmeets
  exact hmeets

/-- What is seen of an execution whose step is cut off. -/
theorem step_visits {deadline : Option Duration} {y : Execution} {t : Timeline ω}
    (h : (Execution.step setting budget s.execution).run runners deadline s.timeline = (.cut y, t)) :
    s.execution.Visits setting y := by
  have hmeets :=
    ((Execution.step_stepping setting budget s.execution).run runners deadline s.timeline).1
  rw [h] at hmeets
  exact hmeets

namespace Steps

theorem single {status : Status} (h : s.step setting runners budget = some (s', .ok status)) :
    Steps setting runners s s' := .step h (.refl s')

/-- What every step carries on. -/
theorem invariant {P : Execution → Prop} (h : Steps setting runners s s')
    (hstep : ∀ x z status, P x → x.Stepped setting z (.ok status) → P z) (hs : P s.execution) :
    P s'.execution := by
  induction h with
  | refl => exact hs
  | step h _ ih => exact ih (hstep _ _ _ hs (step_stepped h))

end Steps

/-! ### Runs -/

/-- How a run goes and ends: after some steps that succeed the execution is over, or the next step fails
or is cut off. -/
inductive Ran (setting : Setting) (runners : Runners ω) (deadline : Option Duration) (s : Session ω) :
    Ending Execution (Execution × Except RuntimeError Document) × Timeline ω → Prop where
  | ended {s₁ : Session ω} (hsteps : Steps setting runners s s₁) (hend : s₁.execution.isEnd = true) :
      Ran setting runners deadline s
        (.finished (s₁.execution, .ok (s₁.execution.output.getD .null)), s₁.timeline)
  | failed {s₁ s₂ : Session ω} {budget : Nat} {e : RuntimeError} (hsteps : Steps setting runners s s₁)
      (hstep : s₁.step setting runners budget = some (s₂, .error e)) :
      Ran setting runners deadline s (.finished (s₂.execution, .error e), s₂.timeline)
  | cut {s₁ : Session ω} {y : Execution} {t : Timeline ω} {budget : Nat}
      (hsteps : Steps setting runners s s₁)
      (hclock : Process.beyond deadline s₁.timeline.clock = false)
      (hcut : (Execution.step setting budget s₁.execution).run runners deadline s₁.timeline =
        (.cut y, t)) : Ran setting runners deadline s (.cut y, t)
  | stuck (t : Timeline ω) : Ran setting runners deadline s (.stuck, t)

theorem Ran.of_step {deadline : Option Duration} {s₁ : Session ω} {status : Status}
    {r : Ending Execution (Execution × Except RuntimeError Document) × Timeline ω}
    (hstep : s.step setting runners budget = some (s₁, .ok status))
    (h : Ran setting runners deadline s₁ r) : Ran setting runners deadline s r := by
  cases h with
  | ended hsteps hend => exact .ended (.step hstep hsteps) hend
  | failed hsteps hfailed => exact .failed (.step hstep hsteps) hfailed
  | cut hsteps hclock hcut => exact .cut (.step hstep hsteps) hclock hcut
  | stuck t => exact .stuck t

theorem drive_ran (setting : Setting) (runners : Runners ω) {deadline : Option Duration} (budget : Nat)
    (hs : Process.beyond deadline s.timeline.clock = false) :
    Ran setting runners deadline s
      ((Execution.drive setting budget s.execution).run runners deadline s.timeline) := by
  induction budget generalizing s with
  | zero => exact .stuck _
  | succ budget ih =>
    unfold Execution.drive Execution.driveVia
    split
    · rename_i hend
      exact .ended (.refl s) hend
    show Ran _ _ _ _ ((Process.bind _ (Execution.step setting budget s.execution)).run _ _ _)
    rw [Process.run_bind]
    split
    · rename_i r t hrun
      obtain ⟨y, result⟩ := r
      have hstep : s.step setting runners budget = some (⟨y, t⟩, result) :=
        step_eq_some.2 (Process.run_none_of_finished hrun)
      have ht : Process.beyond deadline t.clock = false := Process.run_finished_clock hs hrun
      cases result with
      | error e => exact .failed (.refl s) hstep
      | ok status => exact Ran.of_step hstep (@ih ⟨y, t⟩ ht)
    · rename_i hrun
      exact .cut (.refl s) hs hrun
    · exact .stuck _

/-- A run starts before it is to be cut off. -/
theorem deadline_ahead (s : Session ω) : Process.beyond s.deadline s.timeline.clock = false := by
  unfold deadline
  split
  · rfl
  · cases s.execution.workflow.timeoutSeconds with
    | none => rfl
    | some n => simp [Process.beyond]

/-- A run that gives an output: the execution is over, and its output is given, or null if it has
none. -/
theorem run_ok {v : Document} (h : s.run setting runners budget = some (s', .ok v)) :
    ∃ s₁, Steps setting runners s s₁ ∧ s₁.execution.isEnd = true ∧
      v = s₁.execution.output.getD .null ∧ s' = s₁.tell (.workflowCompleted s₁.execution.status v) := by
  have hran := drive_ran setting runners budget s.deadline_ahead
  unfold Session.run at h
  split at h
  · rename_i y result t heq
    rw [heq] at hran
    cases result with
    | error e => cases h
    | ok v' =>
      cases h
      generalize hr : (Ending.finished (y, Except.ok v), t) = r at hran
      cases hran with
      | ended hsteps hend =>
        cases hr
        exact ⟨_, hsteps, hend, rfl, rfl⟩
      | failed | cut | stuck => cases hr
  · cases h
  · cases h

/-- A run that gives an error: after some steps that succeed, the next one is made in vain. -/
theorem run_error {e : RuntimeError} (h : s.run setting runners budget = some (s', .error e)) :
    ∃ s₁, Steps setting runners s s₁ ∧ s₁.execution.Stepped setting s'.execution (.error e) := by
  have hran := drive_ran setting runners budget s.deadline_ahead
  unfold Session.run at h
  split at h
  · rename_i y result t heq
    rw [heq] at hran
    cases result with
    | ok v => cases h
    | error e' =>
      cases h
      generalize hr : (Ending.finished (y, Except.error e), t) = r at hran
      cases hran with
      | failed hsteps hstep =>
        cases hr
        exact ⟨_, hsteps, (step_stepped hstep).errored⟩
      | ended | cut | stuck => cases hr
  · rename_i y t heq
    rw [heq] at hran
    cases h
    generalize hr : (Ending.cut y, t) = r at hran
    cases hran with
    | cut hsteps _ hcut =>
      cases hr
      exact ⟨_, hsteps, .aborted (step_visits hcut) nofun⟩
    | ended | failed | stuck => cases hr
  · cases h

/-! ### Events -/

/-- The event that a run is closed with. -/
def closing (status : Status) : Except RuntimeError Document → Event
  | .ok v => .workflowCompleted status v
  | .error e => .workflowFailed e.message

theorem close_events (result : Except RuntimeError Document) (s : Session ω) :
    (close result s).1.timeline.events =
      s.timeline.events ++
        [⟨s.timeline.clock, [], closing (close result s).1.execution.status result⟩] := by
  cases result <;> rfl

theorem step_events {result : Except RuntimeError Status}
    (h : s.step setting runners budget = some (s', result)) :
    ∃ more, s'.timeline.events = s.timeline.events ++ more ∧
      ∀ l ∈ more, s.execution.workflow.TellsAt l.site l.what := by
  have hlogs := ((Execution.step_stepping setting budget s.execution).run runners none s.timeline).2
  rw [step_eq_some.1 h] at hlogs
  exact hlogs.events

/-- A run tells what its steps tell, and closes with one event of its own. -/
theorem run_events {result : Except RuntimeError Document}
    (h : s.run setting runners budget = some (s', result)) :
    ∃ more time, s'.timeline.events =
        s.timeline.events ++ (more ++ [⟨time, [], closing s'.execution.status result⟩]) ∧
      ∀ l ∈ more, s.execution.workflow.TellsAt l.site l.what := by
  have hlogs :=
    ((Execution.drive_tells setting budget s.execution).run runners s.deadline s.timeline).2.events
  have hclose {s₁ : Session ω} {result : Except RuntimeError Document} (hlogs : ∃ more,
      s₁.timeline.events = s.timeline.events ++ more ∧
        ∀ l ∈ more, s.execution.workflow.TellsAt l.site l.what) :
      ∃ more time, (close result s₁).1.timeline.events = s.timeline.events ++
          (more ++ [⟨time, [], closing (close result s₁).1.execution.status result⟩]) ∧
        ∀ l ∈ more, s.execution.workflow.TellsAt l.site l.what := by
    obtain ⟨more, hmore, htells⟩ := hlogs
    refine ⟨more, s₁.timeline.clock, ?_, htells⟩
    rw [close_events, hmore, List.append_assoc]
  have hresult (r : Except RuntimeError Document) (s₁ : Session ω) : (close r s₁).2 = r := by
    cases r <;> rfl
  unfold Session.run at h
  split at h
  · rename_i y r t heq
    rw [heq] at hlogs
    obtain ⟨rfl, rfl⟩ := Prod.ext_iff.1 (Option.some.inj h)
    rw [hresult]
    exact hclose hlogs
  · rename_i y t heq
    rw [heq] at hlogs
    obtain ⟨rfl, rfl⟩ := Prod.ext_iff.1 (Option.some.inj h)
    rw [hresult]
    exact hclose hlogs
  · cases h

/-! ### Calls -/

/-- The error that a call gives. -/
def Reply.error? : Reply → Option RuntimeError
  | .step (.error e) => some e
  | .run (.error e) => some e
  | _ => none

/-- A call makes steps that succeed, and one more in vain if it gives an error. -/
theorem call_stepped {c : Call} {reply : Reply}
    (h : s.call setting runners budget c = some (s', reply)) :
    ∃ s₁, Steps setting runners s s₁ ∧
      match reply.error? with
      | none => s'.execution = s₁.execution
      | some e => s₁.execution.Stepped setting s'.execution (.error e) := by
  obtain ⟨result, rfl, hstep⟩ | ⟨result, rfl, hrun⟩ := call_cases h
  · cases result with
    | ok status => exact ⟨s', .single hstep, rfl⟩
    | error e => exact ⟨s, .refl s, step_stepped hstep⟩
  · cases result with
    | ok v =>
      obtain ⟨s₁, hsteps, -, -, rfl⟩ := run_ok hrun
      exact ⟨s₁, hsteps, rfl⟩
    | error e => exact run_error hrun

/-- What a call tells: what the steps of the workflow tell, or how a run ends. -/
theorem call_events {c : Call} {reply : Reply}
    (h : s.call setting runners budget c = some (s', reply)) :
    ∃ more, s'.timeline.events = s.timeline.events ++ more ∧
      ∀ l ∈ more, s.execution.workflow.TellsAt l.site l.what ∨
        ∃ status result, l.what = closing status result := by
  obtain ⟨result, -, hstep⟩ | ⟨result, -, hrun⟩ := call_cases h
  · obtain ⟨more, hmore, htells⟩ := step_events hstep
    exact ⟨more, hmore, fun l hl => .inl (htells l hl)⟩
  · obtain ⟨more, time, hmore, htells⟩ := run_events hrun
    refine ⟨_, hmore, fun l hl => ?_⟩
    rcases List.mem_append.1 hl with hl | hl
    · exact .inl (htells l hl)
    · cases List.mem_singleton.1 hl
      exact .inr ⟨_, _, rfl⟩

/-- A property of all that steps tell and of the ends of runs is one of all that calls tell. -/
theorem calls_events {P : Logged Event → Prop} {cs : List Call} {replies : List Reply}
    (htells : ∀ l : Logged Event, s.execution.workflow.TellsAt l.site l.what → P l)
    (hclosing : ∀ (l : Logged Event) status result, l.what = closing status result → P l)
    (h : s.calls setting runners budget cs = some (s', replies)) (hs : ∀ l ∈ s.timeline.events, P l) :
    ∀ l ∈ s'.timeline.events, P l := by
  let R (s₁ s₂ : Session ω) : Prop :=
    (∀ l : Logged Event, s₁.execution.workflow.TellsAt l.site l.what → P l) →
      (∀ l ∈ s₁.timeline.events, P l) →
      (∀ l : Logged Event, s₂.execution.workflow.TellsAt l.site l.what → P l) ∧
        ∀ l ∈ s₂.timeline.events, P l
  refine (calls_induction (R := R) (fun _ => And.intro)
    (fun _ _ _ h₁ h₂ htells hs => h₂ (h₁ htells hs).1 (h₁ htells hs).2) ?_ h htells hs).2
  intro s₁ c s₂ reply hcall htells hs
  refine ⟨?_, ?_⟩
  · rw [(call_onward hcall).execution.workflow]
    exact htells
  · obtain ⟨more, hmore, hnew⟩ := call_events hcall
    rw [hmore]
    intro l hl
    rcases List.mem_append.1 hl with hl | hl
    · exact hs l hl
    · rcases hnew l hl with hl | ⟨status, result, hl⟩
      · exact htells l hl
      · exact hclosing l status result hl

theorem call_invariant {P : Execution → Prop}
    (hstep : ∀ x z result, P x → x.Stepped setting z result → P z) {c : Call} {reply : Reply}
    (h : s.call setting runners budget c = some (s', reply)) (hs : P s.execution) : P s'.execution := by
  obtain ⟨s₁, hsteps, h⟩ := call_stepped h
  have hs₁ : P s₁.execution := hsteps.invariant (fun x z status => hstep x z (.ok status)) hs
  split at h
  · rw [h]
    exact hs₁
  · exact hstep _ _ _ hs₁ h

/-- What every step carries on, any calls do. -/
theorem calls_invariant {P : Execution → Prop}
    (hstep : ∀ x z result, P x → x.Stepped setting z result → P z) {cs : List Call}
    {replies : List Reply} (h : s.calls setting runners budget cs = some (s', replies))
    (hs : P s.execution) : P s'.execution :=
  calls_induction (R := fun s s' => P s.execution → P s'.execution) (fun _ => id)
    (fun _ _ _ h h' => h' ∘ h) (fun _ _ _ _ h => call_invariant hstep h) h hs

end Session
end StepFlow
