import StepFlow.Proofs.Session.Steps

/-!
# No state is ever missing

An execution of a graph that has been checked stays among the states of the graph: the state that is
next is always one of them, whatever runners answer, and so it is in every nested execution with the
states of its own graph. Every next state that a state hands on is one of its targets.
-/

namespace StepFlow

namespace Execution

/-- The execution runs the graph, and its next state is a state of the graph. -/
def Within (w : Workflow) (x : Execution) : Prop := x.workflow = w ∧ (w.state? x.current).isSome

/-- Executions of a graph stay within it: at every depth, a state hands on to one of its targets, which
is a state of the graph that runs there; and no state is looked for in vain. -/
def staying {α : Type} (w : Workflow) : Contract Execution (Execution × Except RuntimeError α) where
  tells site event := ∀ name output next, event = .stateCompleted name output (some next) →
    ∃ v, w.RunsAt site v ∧ v.Joins name next
  shows := Within w
  ends r := Within w r.1 ∧ ∀ name, r.2 ≠ .error (.stateNotFound name)

variable {w : Workflow} {setting : Setting} {x y z : Execution}

theorem Within.ofContext (hw : w.Closed) (context : Context) (nested : Bool) :
    (ofContext w context nested).Within w := ⟨rfl, hw.start⟩

theorem Within.visits (hx : x.Within w) (h : x.Visits setting y) : y.Within w := by
  obtain ⟨tree, count, patterns, rfl⟩ := h.attempting
  exact hx

/-- In a closed graph no step leaves it or fails for want of a state. -/
theorem Within.stepped (hw : w.Closed) (hx : x.Within w) {result : Except RuntimeError Status}
    (h : x.Stepped setting z result) :
    z.Within w ∧ ∀ name, result ≠ .error (.stateNotFound name) := by
  obtain ⟨rfl, hcurrent⟩ := hx
  have hvisits {y : Execution} (hy : x.Visits setting y) : y.Within x.workflow :=
    Within.visits ⟨rfl, hcurrent⟩ hy
  cases h with
  | ended => exact ⟨⟨rfl, hcurrent⟩, nofun⟩
  | lost _ hstate => simp [hstate] at hcurrent
  | aborted hy he => exact ⟨⟨(hvisits hy).1, (hvisits hy).2⟩, fun name h => he name (Except.error.inj h)⟩
  | moved hy _ _ hthere => exact ⟨⟨(hvisits hy).1, hthere⟩, nofun⟩
  | dangling _ hstate hnext hthere =>
    have hsome := hw.targets hstate _ hnext
    simp [hthere] at hsome
  | succeeded hy => exact ⟨⟨(hvisits hy).1, (hvisits hy).2⟩, nofun⟩
  | failed hy => exact ⟨⟨(hvisits hy).1, (hvisits hy).2⟩, nofun⟩

theorem joins_of_tellsAt (hw : w.Valid) {site : Site} {name next : String} {output : Document}
    (h : w.TellsAt site (.stateCompleted name output (some next))) :
    ∃ v, w.RunsAt site v ∧ v.Joins name next := by
  obtain ⟨v, hv, state, hstate, hnext⟩ := h
  exact ⟨v, hv, state, hstate, hnext, (hw v hv.nests).targets hstate next hnext⟩

theorem carries_staying (hw : w.Valid) (setting : Setting) :
    Carries setting (Within w) (staying w) where
  step _ _ _ hx hz := (hx.stepped hw.closed hz).1
  tells _ _ _ hx h name output next heq := by
    rw [hx.1, heq] at h
    exact joins_of_tellsAt hw h
  asks _ _ := trivial
  shows _ _ hx hy := hx.visits hy
  ok _ hx _ := ⟨hx, nofun⟩
  error _ _ _ hx hz :=
    ⟨(hx.stepped hw.closed hz).1, fun name h =>
      (hx.stepped hw.closed hz).2 name (congrArg _ (Except.error.inj h))⟩

theorem step_staying (hw : w.Valid) (setting : Setting) (budget : Nat) (hx : x.Within w) :
    (step setting budget x).Keeps (staying w) := by
  refine (step_stepping setting budget x).mono (fun _ _ => ?_) (fun _ _ h => h) (fun _ => hx.visits)
    fun _ h => hx.stepped hw.closed h
  exact (carries_staying hw setting).tells x _ _ hx

end Execution

namespace Session

variable {ω : Type} {setting : Setting} {runners : Runners ω} {budget : Nat} {s s' : Session ω}
  {w : Workflow}

theorem Steps.within (hw : w.Closed) (h : Steps setting runners s s') (hs : s.execution.Within w) :
    s'.execution.Within w :=
  h.invariant (fun _ _ _ hx hz => (hx.stepped hw hz).1) hs

theorem call_within (hw : w.Closed) (hs : s.execution.Within w) {c : Call} {reply : Reply}
    (h : s.call setting runners budget c = some (s', reply)) :
    s'.execution.Within w ∧ ∀ name, reply.error? ≠ some (.stateNotFound name) := by
  obtain ⟨s₁, hsteps, h⟩ := call_stepped h
  have hs₁ := hsteps.within hw hs
  split at h
  · rename_i hnone
    rw [h, hnone]
    exact ⟨hs₁, nofun⟩
  · rename_i e he
    obtain ⟨hs', hlost⟩ := hs₁.stepped hw h
    rw [he]
    exact ⟨hs', fun name hname => hlost name (congrArg _ (Option.some.inj hname))⟩

theorem calls_within (hw : w.Closed) (hs : s.execution.Within w) {cs : List Call} {replies : List Reply}
    (h : s.calls setting runners budget cs = some (s', replies)) :
    s'.execution.Within w ∧ ∀ reply ∈ replies, ∀ name, reply.error? ≠ some (.stateNotFound name) := by
  induction cs generalizing s replies with
  | nil =>
    cases h
    exact ⟨hs, nofun⟩
  | cons c cs ih =>
    obtain ⟨s₁, reply, rest, h₁, h₂, rfl⟩ := calls_cons h
    obtain ⟨hs₁, hreply⟩ := call_within hw hs h₁
    obtain ⟨hs', hreplies⟩ := ih hs₁ h₂
    exact ⟨hs', List.forall_mem_cons.2 ⟨hreply, hreplies⟩⟩

/-- What calls tell of next states, at any depth. -/
theorem calls_joins (hw : w.Valid) {x : Execution} (hx : x.workflow = w) {world : ω} {cs : List Call}
    {replies : List Reply}
    (h : (start x world).calls setting runners budget cs = some (s, replies)) :
    ∀ l ∈ s.timeline.events, ∀ name output next, l.what = .stateCompleted name output (some next) →
      ∃ v, w.RunsAt l.site v ∧ v.Joins name next := by
  refine calls_events (fun l hl name output next heq => ?_) (fun l status result hl name output next heq => ?_)
    h nofun
  · have hl : x.workflow.TellsAt l.site l.what := hl
    rw [hx, heq] at hl
    exact Execution.joins_of_tellsAt hw hl
  · rw [heq] at hl
    cases result <;> cases hl

/-- Sessions of a graph that has been checked: no call is answered that a state was not found, and
wherever a state hands on, it is to a target of its own that is a state of the graph that runs there. -/
theorem calls_closed {g : Definition.Graph} (hg : Workflow.ofDefinition g = .ok w) (world : ω)
    (id startTime : String) (input : Document) (cs : List Call) (replies : List Reply)
    (h : (start (.start w id startTime input) world).calls setting runners budget cs =
      some (s, replies)) (more : Nat) :
    (∀ reply ∈ replies, ∀ name, reply.error? ≠ some (.stateNotFound name)) ∧
      s.execution.Within w ∧
      (∀ l ∈ s.timeline.events, ∀ name output next, l.what = .stateCompleted name output (some next) →
        ∃ v, w.RunsAt l.site v ∧ v.Joins name next) ∧
      (Execution.step setting more s.execution).Keeps (Execution.staying w) ∧
      (Execution.drive setting more s.execution).Keeps (Execution.staying w) ∧
      ∀ v, w.Nests v → v.Closed ∧ ∀ (context : Context) (nested : Bool),
        (Execution.drive setting more (.ofContext v context nested)).Keeps (Execution.staying v) := by
  have hw : w.Valid := Workflow.valid_of_ofDefinition hg
  have hstart : (start (.start w id startTime input) world).execution.Within w :=
    .ofContext hw.closed _ false
  obtain ⟨hs, hreplies⟩ := calls_within hw.closed hstart h
  refine ⟨hreplies, hs, calls_joins hw rfl h, Execution.step_staying hw setting more hs,
    (Execution.carries_staying hw setting).drive more hs, fun v hv => ⟨hw v hv, fun context nested => ?_⟩⟩
  exact (Execution.carries_staying (hw.nested hv) setting).drive more (.ofContext (hw v hv) context nested)

/-- A task whose failures are caught and lead to the end. -/
def catchThenSucceed : Definition.Graph :=
  .mk ⟨"work", none, none, none⟩
    [("work", .task ⟨"test://work", ⟨none, .null, .null⟩, ⟨none, true⟩, .null, none, none,
      ⟨[], [⟨[allErrors], "caught", .null⟩]⟩, none, none, none⟩),
    ("caught", .succeed ⟨none, .null, .null⟩)]

/-- A step in which the task fails and is caught, and a run to the end. -/
theorem calls_closed_catchThenSucceed :
    ∃ (w : Workflow) (s : Session Unit) (replies : List Reply),
      Workflow.ofDefinition catchThenSucceed = .ok w ∧
        (start (.start w "" "" .null) ()).calls ⟨[("test", ())], .null, default, default⟩
          (fun _ _ => ((), ⟨0, .error (.io "")⟩)) 2 [.step, .run] = some (s, replies) ∧
        s.execution.current = "caught" ∧ s.execution.Within w ∧
        ∀ reply ∈ replies, ∀ name, reply.error? ≠ some (.stateNotFound name) := by
  have hgraph : ∃ w, Workflow.ofDefinition catchThenSucceed = .ok w ∧
      ((start (.start w "" "" .null) ()).calls ⟨[("test", ())], .null, default, default⟩
        (fun _ _ => ((), ⟨0, .error (.io "")⟩)) 2 [.step, .run]).map (·.1.execution.current) =
      some "caught" := ⟨_, rfl, rfl⟩
  obtain ⟨w, hw, hcaught⟩ := hgraph
  obtain ⟨⟨s, replies⟩, h, hcurrent⟩ := Option.map_eq_some_iff.1 hcaught
  have hclosed := calls_closed hw () "" "" .null _ _ h 0
  exact ⟨w, s, replies, hw, h, hcurrent, hclosed.2.1, hclosed.1⟩

end Session
end StepFlow
