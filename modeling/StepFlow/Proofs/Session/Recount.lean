import StepFlow.Proofs.Execution.Orderly
import StepFlow.Proofs.Session.Completion

/-!
# Sessions recounted

Whatever calls are made, all that a session does is an opening, one account for each visit of a state,
and the events by which runs are closed (`calls_recounts`). A call goes on with the accounts where the
last one has left them.
-/

namespace StepFlow

/-- Events by which runs are closed. -/
def Event.closes : Event → Bool
  | .workflowCompleted .. | .workflowFailed _ => true
  | _ => false

def Act.closes (act : Act) : Bool := act.own?.any Event.closes

/-- What executions do, without the events by which runs are closed. -/
def deeds (acts : List Act) : List Act := acts.filter fun act => !act.closes

theorem deeds_append (acts acts' : List Act) : deeds (acts ++ acts') = deeds acts ++ deeds acts' :=
  List.filter_append ..

theorem deeds_eq_self {acts : List Act} (h : ∀ event ∈ ownEvents acts, event.closes = false) :
    deeds acts = acts := by
  refine List.filter_eq_self.2 fun act hact => ?_
  cases hown : act.own? with
  | none => simp [Act.closes, hown]
  | some event => simp [Act.closes, hown, h event (List.mem_filterMap.2 ⟨act, hact, hown⟩)]

theorem ownEvents_deeds (acts : List Act) :
    ownEvents (deeds acts) = (ownEvents acts).filter fun event => !event.closes := by
  unfold ownEvents deeds
  rw [List.filterMap_filter, List.filter_filterMap]
  refine congrArg (List.filterMap · acts) (funext fun act => ?_)
  cases hown : act.own? with
  | none => simp [Act.closes, hown]
  | some event => cases hcloses : event.closes <;> simp [Act.closes, hown, hcloses, Option.filter]

theorem Event.OfState.closes {event : Event} (h : event.OfState) : event.closes = false := by
  cases event with
  | stateStarted | stateCompleted | taskRetrying | taskCaught => rfl
  | workflowStarted | workflowCompleted | workflowFailed => exact h.elim

theorem Account.Of.deeds
    {drive : Execution → Process Execution (Execution × Except RuntimeError Document)}
    {setting : Setting} {state : State} {x : Execution} {a : Account} (h : a.Of drive setting x state) :
    deeds a.acts = a.acts :=
  deeds_eq_self (h.own.symm ▸ fun event hevent => (a.ofState_told event hevent).closes)

namespace Session
open Execution Process

variable {ω : Type} {setting : Setting} {runners : Runners ω} {budget : Nat} {s s' : Session ω}
  {x₀ : Execution} {as : List Account}

/-- The event by which a call that is a run is closed. -/
def Reply.closing (status : Status) : Reply → List Act
  | .step _ => []
  | .run result => [.event [] (Session.closing status result)]

/-- What has been told of the execution itself, without the nested ones. -/
def own (s : Session ω) : List Event := s.timeline.events.filterMap fun l => (Act.event l.site l.what).own?

/-! ### Calls -/

/-- The accounts that a call adds; none of it is left undone if it gives no error. -/
structure Adds (setting : Setting) (x₀ : Execution) (as : List Account) (s s' : Session ω)
    (error : Option RuntimeError) (closing : List Act) (more : List Account) : Prop where
  recounted : Recounted setting x₀ s'.execution (as ++ more)
  records : s.timeline.Records (s.execution.opening ++ more.flatMap Account.acts ++ closing) s'.timeline
  visited : more = [] → s.execution.isEnd = true
  done : error = none → ∀ a ∈ more, a.way.outcome?.isSome
  undone : error ≠ none → ∃ a, more.getLast? = some a ∧ a.way.outcome? = none

theorem undone_of_last {more : List Account} {way : Way} (h : more.getLast?.map Account.way = some way)
    (hway : way.outcome? = none) : ∃ a, more.getLast? = some a ∧ a.way.outcome? = none := by
  obtain ⟨a, ha, rfl⟩ := Option.map_eq_some_iff.1 h
  exact ⟨a, ha, hway⟩

theorem step_adds (hs : Recounted setting x₀ s.execution as) (hw : x₀.workflow.Closed)
    {result : Except RuntimeError Status} (h : s.step setting runners budget = some (s', result)) :
    ∃ more, Adds setting x₀ as s s' (Reply.step result).error? [] more := by
  cases hend : s.execution.isEnd with
  | true =>
    rw [step_of_end hend] at h
    cases h
    refine ⟨[], by rwa [List.append_nil], ?_, fun _ => hend, fun _ => List.forall_mem_nil _, nofun⟩
    rw [opening_of_end hend]
    exact .of_eq rfl rfl
  | false =>
    obtain ⟨acts, hdoes, hrecords⟩ := Does.of_run (step_eq_some.1 h) nofun
    obtain ⟨a, rfl, ha⟩ := hs.step hw hend hdoes
    refine ⟨[a], ?_⟩
    have hrecords : s.timeline.Records (s.execution.opening ++ [a].flatMap Account.acts ++ []) s'.timeline := by
      simpa using hrecords
    cases ha with
    | ok status hz hdone => exact ⟨hz, hrecords, nofun, fun _ => hdone, fun h => (h rfl).elim⟩
    | error hz hlast => exact ⟨hz, hrecords, nofun, nofun, fun _ => undone_of_last hlast rfl⟩

theorem close_records {acts : List Act} (result : Except RuntimeError Document) (s₁ : Session ω)
    (h : s.timeline.Records acts s₁.timeline) :
    s.timeline.Records (acts ++ [.event [] (closing (close result s₁).1.execution.status result)])
      (close result s₁).1.timeline := by
  refine h.trans ?_
  cases result with
  | ok v => exact .logEvent ..
  | error e => exact .logEvent ..

theorem run_adds (hs : Recounted setting x₀ s.execution as) (hw : x₀.workflow.Closed)
    {result : Except RuntimeError Document} (h : s.run setting runners budget = some (s', result)) :
    ∃ more, Adds setting x₀ as s s' (Reply.run result).error?
      [.event [] (closing s'.execution.status result)] more := by
  unfold Session.run at h
  split at h
  · rename_i z result' t hrun
    obtain ⟨acts, hdoes, hrecords⟩ := Does.of_run hrun nofun
    obtain ⟨more, rfl, hvisited, hmore⟩ := hs.drive hw hdoes
    have hclosed := close_records result' ⟨z, t⟩ hrecords
    cases hmore with
    | ok v hz hdone =>
      cases h
      exact ⟨more, hz, hclosed, hvisited, fun _ => hdone, fun h => (h rfl).elim⟩
    | error hz hlast =>
      cases h
      have hundone := undone_of_last hlast rfl
      exact ⟨more, hz.errored hundone, hclosed, hvisited, (fun h => nomatch h), fun _ => hundone⟩
  · rename_i y t hrun
    obtain ⟨acts, hdoes, hrecords⟩ := Does.of_run hrun nofun
    obtain ⟨more, rfl, hvisited, hmore⟩ := hs.drive hw hdoes
    have hclosed := close_records (.error (.timeout (s.execution.workflow.timeoutSeconds.getD 0))) ⟨y, t⟩
      hrecords
    cases hmore with
    | cut hz hlast =>
      cases h
      exact ⟨more, hz, hclosed, hvisited, (fun h => nomatch h), fun _ => undone_of_last hlast rfl⟩
  · cases h

theorem call_adds (hs : Recounted setting x₀ s.execution as) (hw : x₀.workflow.Closed) {c : Call}
    {reply : Reply} (h : s.call setting runners budget c = some (s', reply)) :
    ∃ more, Adds setting x₀ as s s' reply.error? (reply.closing s'.execution.status) more := by
  obtain ⟨result, rfl, hstep⟩ | ⟨result, rfl, hrun⟩ := call_cases h
  · exact step_adds hs hw hstep
  · exact run_adds hs hw hrun

/-! ### Any calls -/

/-- All that has been done in a session, which began with `x₀`. -/
structure Recounts (setting : Setting) (x₀ : Execution) (world : ω) (s : Session ω) (as : List Account) :
    Prop where
  execution : Recounted setting x₀ s.execution as
  timeline : ∃ acts, (Timeline.start world).Records acts s.timeline ∧
    deeds acts = x₀.performed as

theorem recounts_start (h : x₀.Fresh) (world : ω) : Recounts setting x₀ world (start x₀ world) [] :=
  ⟨h.recounted, [], .of_eq rfl rfl, rfl⟩

theorem deeds_opening (x : Execution) : deeds x.opening = x.opening := by
  unfold opening
  split <;> rfl

theorem deeds_visits {more : List Account} (h : ∀ a ∈ more, deeds a.acts = a.acts) :
    deeds (more.flatMap Account.acts) = more.flatMap Account.acts := by
  induction more with
  | nil => rfl
  | cons a more ih =>
    obtain ⟨ha, hmore⟩ := List.forall_mem_cons.1 h
    rw [List.flatMap_cons, deeds_append, ha, ih hmore]

theorem deeds_closing (reply : Reply) (status : Status) : deeds (reply.closing status) = [] := by
  cases reply with
  | step => rfl
  | run result => cases result <;> rfl

theorem call_recounts (hx₀ : x₀.Fresh) (hw : x₀.workflow.Closed) {world : ω}
    (hs : Recounts setting x₀ world s as) {c : Call} {reply : Reply}
    (h : s.call setting runners budget c = some (s', reply)) :
    ∃ more, Recounts setting x₀ world s' (as ++ more) := by
  obtain ⟨more, hmore⟩ := call_adds hs.execution hw h
  obtain ⟨acts, hrecords, hacts⟩ := hs.timeline
  refine ⟨more, hmore.recounted, _, hrecords.trans hmore.records, ?_⟩
  have hvisits : deeds (more.flatMap Account.acts) = more.flatMap Account.acts := by
    refine deeds_visits fun a ha => ?_
    obtain ⟨_, y, state, -, -, hof⟩ := hmore.recounted.visits a (List.mem_append_right _ ha)
    exact hof.deeds
  rw [deeds_append, deeds_append, deeds_append, deeds_opening, hvisits, deeds_closing, hacts,
    List.append_nil]
  exact hs.execution.performed_append hx₀ hmore.visited

/-- Whatever calls are made, the accounts of the visits are all that is done. -/
theorem calls_recounts (hx₀ : x₀.Fresh) (hw : x₀.workflow.Closed) (world : ω) {cs : List Call}
    {replies : List Reply}
    (h : (start x₀ world).calls setting runners budget cs = some (s, replies)) :
    ∃ as, Recounts setting x₀ world s as := by
  refine calls_induction (R := fun s s' => (∃ as, Recounts setting x₀ world s as) →
    ∃ as, Recounts setting x₀ world s' as) (fun _ => id) (fun _ _ _ h₁ h₂ => h₂ ∘ h₁) ?_ h
    ⟨[], recounts_start hx₀ world⟩
  rintro s₁ c s₂ reply hcall ⟨as, has⟩
  obtain ⟨more, hmore⟩ := call_recounts hx₀ hw has hcall
  exact ⟨_, hmore⟩

/-- The events that an execution tells of itself and of its states, without those by which runs are
closed. -/
theorem Recounts.own {world : ω} (h : Recounts setting x₀ world s as) :
    (s.own.filter fun event => !event.closes) =
      (if as = [] then [] else ownEvents x₀.opening) ++ as.flatMap Account.told := by
  obtain ⟨acts, hrecords, hacts⟩ := h.timeline
  have hown : s.own = ownEvents acts := hrecords.own
  have hexecution : Recounted setting x₀ s.execution ([] ++ as) := h.execution
  have htold : ownEvents (as.flatMap Account.acts) = as.flatMap Account.told := hexecution.own
  rw [hown, ← ownEvents_deeds, hacts]
  unfold performed
  split
  · rename_i hnil
    rw [hnil]
    rfl
  · rw [ownEvents_append, htold]

/-- Calls of an execution that is over ask nothing, and tell nothing but that runs are completed. -/
theorem calls_quiet (hend : s.execution.isEnd = true) {cs : List Call} {replies : List Reply}
    (h : s.calls setting runners budget cs = some (s', replies)) :
    s'.execution = s.execution ∧ s'.timeline.calls = s.timeline.calls ∧
      ∃ more, s'.timeline.events = s.timeline.events ++ more ∧ ∀ l ∈ more, l.site = [] ∧
        l.what = .workflowCompleted s.execution.status (s.execution.output.getD .null) := by
  induction cs generalizing s replies with
  | nil =>
    cases h
    exact ⟨rfl, rfl, [], by simp, nofun⟩
  | cons c cs ih =>
    obtain ⟨s₁, reply, rest, h₁, h₂, rfl⟩ := calls_cons h
    obtain ⟨result, rfl, hstep⟩ | ⟨result, rfl, hrun⟩ := call_cases h₁
    · rw [step_of_end hend] at hstep
      cases hstep
      exact ih hend h₂
    · obtain ⟨-, rfl⟩ := run_of_end hend hrun
      obtain ⟨hexecution, hcalls, more, hmore, hclosing⟩ := ih (s := s.tell _) hend h₂
      let closed : Logged Event := ⟨s.timeline.clock, [],
        .workflowCompleted s.execution.status (s.execution.output.getD .null)⟩
      refine ⟨hexecution, hcalls, closed :: more, ?_, List.forall_mem_cons.2 ⟨⟨rfl, rfl⟩, hclosing⟩⟩
      rw [hmore]
      exact List.append_assoc ..

end Session
end StepFlow
