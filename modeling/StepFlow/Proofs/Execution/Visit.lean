import StepFlow.Proofs.Execution.Outcome

/-!
# Visits of states

A step enters a state and attempts it; while it does so, nothing but the record of the state changes
(`Visits`). In the end the execution is aborted there, or the record is closed and the execution moves on
to a target of the state or to its end: `Stepped` lists what a step can do, whatever runners answer
(`step_stepping`). What is told on the way, at any depth, the graph that runs there accounts for
(`Workflow.TellsAt`).
-/

namespace StepFlow

/-! ### The graph at a place -/

namespace Workflow

/-- An execution of `w` runs the graph `v` at that place among its nested executions. -/
inductive RunsAt : Workflow → Site → Workflow → Prop where
  | here (w : Workflow) : RunsAt w [] w
  | iterator {w v u : Workflow} {name : String} {state : State} {s : MapState} {b : Branch} {site : Site}
      (hstate : w.state? name = some state) (haction : state.action = .map s v) (h : RunsAt v site u) :
      RunsAt w (b :: site) u
  | branch {w v u : Workflow} {name : String} {state : State} {s : ParallelState}
      {branches : List Workflow} {b : Branch} {site : Site} (hstate : w.state? name = some state)
      (haction : state.action = .parallel s branches) (hb : branches[b.index]? = some v)
      (h : RunsAt v site u) : RunsAt w (b :: site) u

theorem RunsAt.nests {w v : Workflow} {site : Site} (h : w.RunsAt site v) : w.Nests v := by
  induction h with
  | here => exact .self
  | @iterator w _ _ _ _ _ _ _ hstate haction _ ih =>
    have hstate : w.Contains _ := .of_state? hstate
    exact (Nests.iterator (haction ▸ hstate)).trans ih
  | @branch w _ _ _ _ _ _ _ _ hstate haction hb _ ih =>
    have hstate : w.Contains _ := .of_state? hstate
    exact (Nests.branch (haction ▸ hstate) (List.mem_of_getElem? hb)).trans ih

/-- The event is one that an execution of the graph itself may tell of: of a state of the graph, and
of a next state only if the state may lead there. Only a session tells of the end of a run. -/
def Tells (w : Workflow) : Event → Prop
  | .workflowStarted _ => True
  | .stateStarted name type _ => ∃ state, w.state? name = some state ∧ state.type = type
  | .stateCompleted name _ next => ∃ state, w.state? name = some state ∧ state.MayLead next
  | .taskRetrying name .. => ∃ state, w.state? name = some state
  | .taskCaught name _ next => ∃ state, w.state? name = some state ∧ next ∈ state.targets
  | .workflowCompleted .. | .workflowFailed .. => False

/-- The graph that runs at the place accounts for the event. -/
def TellsAt (w : Workflow) (site : Site) (event : Event) : Prop := ∃ v, w.RunsAt site v ∧ v.Tells event

theorem Tells.at {w : Workflow} {event : Event} (h : w.Tells event) : w.TellsAt [] event := ⟨w, .here w, h⟩

theorem tells_of_recovery {w : Workflow} {name : String} {state : State} {r : Recovery} {event : Event}
    (hstate : w.state? name = some state) (hcatchers : ∀ c ∈ r.catchers, c.next ∈ state.targets)
    (h : r.Tells name event) : w.Tells event := by
  cases h with
  | retrying error count delay => exact ⟨state, hstate⟩
  | caught error hc => exact ⟨state, hstate, hcatchers _ hc⟩

end Workflow

namespace Execution
open Process

variable {x y z : Execution}

/-! ### While a state is attempted -/

/-- `y` is `x` in the middle of some attempt at its state: the tree and what is known of retries may
differ. -/
def Attempting (x y : Execution) : Prop :=
  ∃ tree count patterns, y = { x with
    tree, context := { x.context with state :=
      { x.context.state with retryCount := count, retrier := patterns } } }

theorem sync_eq (x : Execution) : x.sync = { x with tree := x.sync.tree } := by
  unfold sync
  split <;> rfl

namespace Attempting

theorem sync (h : x.Attempting y) : x.Attempting y.sync := by
  obtain ⟨tree, count, patterns, rfl⟩ := h
  rw [sync_eq]
  exact ⟨_, count, patterns, rfl⟩

theorem withRecord (count : Nat) (patterns : Option (List String)) (h : x.Attempting y) :
    x.Attempting (y.withRecord { y.context.state with retryCount := count, retrier := patterns }) := by
  obtain ⟨tree, _, _, rfl⟩ := h
  exact ⟨tree, count, patterns, rfl⟩

theorem workflow (h : x.Attempting y) : y.workflow = x.workflow := by
  obtain ⟨tree, count, patterns, rfl⟩ := h
  rfl

end Attempting

theorem attempting_sync (x : Execution) : x.Attempting x.sync :=
  Attempting.sync ⟨x.tree, x.context.state.retryCount, x.context.state.retrier, rfl⟩

section
variable {drive : Execution → Process Execution (Execution × Except RuntimeError Document)}
  (hdrive : ∀ y, (drive y).Keeps { tells := y.workflow.TellsAt })

/-- What is told, seen and given while a state is run. -/
def running (x : Execution) (state : State) (input : Document) :
    Contract Execution (Execution × Except RuntimeError Outcome) where
  tells := x.workflow.TellsAt
  shows := x.Attempting
  ends r := x.Attempting r.1 ∧ state.Gives input r.2

theorem recoverable_running {run : Nat → Execution → Process Execution (Except TaskFailure Document)}
    {state : State} {transition : Transition} {recovery : Recovery} {name : String} {input : Document}
    (hstate : x.workflow.state? name = some state) (htransition : state.transition? = some transition)
    (hcatchers : ∀ c ∈ recovery.catchers, c.next ∈ state.targets)
    (hfail : ∀ f, state.action ≠ .fail f)
    (hrun : ∀ attempt y, x.Attempting y →
      (run attempt y).Keeps { tells := x.workflow.TellsAt, shows := x.Attempting }) (budget : Nat) :
    (recoverable sync run transition recovery name input budget 0 none x.sync).Keeps
      (x.running state input) := by
  refine recoverable_keeps (c := x.running state input) (I := x.Attempting)
    (fun event h => (Workflow.tells_of_recovery hstate hcatchers h).at) (fun _ => .sync)
    (fun _ count patterns => .withRecord count patterns) hrun (fun _ h => h) (fun y result hy hresult => ?_)
    _ _ _ (attempting_sync x)
  exact ⟨hy, State.gives_of_leaves hresult htransition hcatchers hfail⟩

include hdrive

theorem runState_running {setting : Setting} (budget : Nat) {name : String} {state : State}
    (input : Document) (hstate : x.workflow.state? name = some state) :
    (runState drive setting budget name state input x).Keeps (x.running state input) := by
  have hx := attempting_sync x
  obtain ⟨comment, action⟩ := state
  unfold runState runStateVia
  dsimp only [State.action]
  cases action with
  | pass s => exact ⟨hx, PassState.run_gives⟩
  | choice s => exact ⟨hx, ChoiceState.run_gives⟩
  | succeed filters => exact ⟨hx, rfl, nofun⟩
  | fail s => exact ⟨hx, rfl, fun _ _ => rfl⟩
  | wait s =>
    dsimp only
    split
    · rename_i e he
      exact ⟨hx, WaitState.ne_stateNotFound he⟩
    · exact .sleep hx ⟨hx, State.gives_of_transition? rfl nofun⟩
  | task s =>
    refine recoverable_running hstate rfl ?_ nofun (fun _ y hy => ?_) budget
    · intro c hc
      exact List.mem_append_right _ (List.mem_map_of_mem hc)
    · exact attemptTask_keeps hy (fun _ => trivial) fun _ _ _ => trivial
  | map s iterator =>
    refine recoverable_running hstate rfl ?_ nofun (fun attempt y hy => ?_) budget
    · intro c hc
      exact List.mem_append_right _ (List.mem_map_of_mem hc)
    · refine attemptMap_keeps hy (fun _ => trivial) fun effective i item => ?_
      refine (hdrive _).mono ?_ (fun _ _ _ => trivial) (fun _ _ => trivial) (fun _ _ => trivial)
      rintro site event ⟨v, hv, hevent⟩
      exact ⟨v, .iterator hstate rfl hv, hevent⟩
  | parallel s branches =>
    refine recoverable_running hstate rfl ?_ nofun (fun attempt y hy => ?_) budget
    · intro c hc
      exact List.mem_append_right _ (List.mem_map_of_mem hc)
    · refine attemptParallel_keeps hy (fun _ => trivial) fun effective i w hw => ?_
      refine (hdrive _).mono ?_ (fun _ _ _ => trivial) (fun _ _ => trivial) (fun _ _ => trivial)
      rintro site event ⟨v, hv, hevent⟩
      exact ⟨v, .branch hstate rfl hw hv, hevent⟩

end

/-! ### Steps -/

/-- The execution as it enters its next state. -/
def visit (setting : Setting) (x : Execution) : Execution :=
  { x with
    status := .running
    context := x.context.enter setting.stamps x.current x.context.state.input }

/-- `y` is `x`, which is not over, in the middle of a visit of its next state. -/
structure Visits (setting : Setting) (x y : Execution) : Prop where
  notEnd : x.isEnd = false
  state : (x.workflow.state? x.current).isSome
  attempting : (x.visit setting).Attempting y

/-- The execution with the record of its state closed. -/
def completed (setting : Setting) (output : Document) (y : Execution) : Execution :=
  { y with context := y.context.finish setting.stamps output }

namespace Visits

variable {setting : Setting}

theorem workflow (h : x.Visits setting y) : y.workflow = x.workflow := h.attempting.workflow

theorem current (h : x.Visits setting y) : y.current = x.current := by
  obtain ⟨tree, count, patterns, rfl⟩ := h.attempting
  rfl

theorem status (h : x.Visits setting y) : y.status = .running := by
  obtain ⟨tree, count, patterns, rfl⟩ := h.attempting
  rfl

theorem output (h : x.Visits setting y) : y.output = x.output := by
  obtain ⟨tree, count, patterns, rfl⟩ := h.attempting
  rfl

theorem failure (h : x.Visits setting y) : y.failure = x.failure := by
  obtain ⟨tree, count, patterns, rfl⟩ := h.attempting
  rfl

/-- No visit changes the workflow, what is known of the execution as a whole, or whether it is nested. -/
theorem fixed (h : x.Visits setting y) :
    y.workflow = x.workflow ∧ y.context.execution = x.context.execution ∧ y.nested = x.nested := by
  obtain ⟨tree, count, patterns, rfl⟩ := h.attempting
  exact ⟨rfl, rfl, rfl⟩

theorem states (h : x.Visits setting y) : y.context.states = x.context.states := by
  obtain ⟨tree, count, patterns, rfl⟩ := h.attempting
  rfl

/-- The record that a visit leaves. -/
theorem states_completed (h : x.Visits setting y) (output : Document) :
    ∃ r : StateRecord, (y.completed setting output).context.states = x.context.states ++ [r] ∧
      r.name = x.current ∧ r.input = x.context.state.input ∧ r.output = some output := by
  obtain ⟨tree, count, patterns, rfl⟩ := h.attempting
  exact ⟨_, rfl, rfl, rfl, rfl⟩

end Visits

section
variable {state : State} {output : Document}

theorem advance_some {next : String} (h : (x.workflow.state? next).isSome) :
    advance state ⟨some next, output⟩ x =
      ({ x with current := next, context := { x.context with state := .pending next output } },
        .ok x.status) := by
  simp only [advance]
  rw [if_pos h]

theorem advance_fail {f : FailState} (h : state.action = .fail f) :
    advance state ⟨none, output⟩ x =
      ({ x with status := .errored, failure := some ⟨f.error, f.cause⟩, output := some output },
        .ok .errored) := by
  simp only [advance, h]

theorem advance_success (h : ∀ f, state.action ≠ .fail f) :
    advance state ⟨none, output⟩ x =
      ({ x with status := .success, output := some output }, .ok .success) := by
  obtain ⟨comment, action⟩ := state
  cases action with
  | fail f => exact (h f rfl).elim
  | _ => rfl

end

/-- What a step can do. -/
inductive Stepped (setting : Setting) (x : Execution) : Execution → Except RuntimeError Status → Prop where
  | ended (h : x.isEnd = true) : Stepped setting x x (.ok x.status)
  /-- The next state is no state of the graph. -/
  | lost (h : x.isEnd = false) (hstate : x.workflow.state? x.current = none) :
      Stepped setting x { x with status := .errored } (.error (.stateNotFound x.current))
  | aborted {y : Execution} {e : RuntimeError} (hy : x.Visits setting y)
      (he : ∀ name, e ≠ .stateNotFound name) :
      Stepped setting x { y with status := .errored } (.error e)
  | moved {y : Execution} {state : State} {output : Document} {next : String} (hy : x.Visits setting y)
      (hstate : x.workflow.state? x.current = some state) (hnext : next ∈ state.targets)
      (hthere : (x.workflow.state? next).isSome) :
      Stepped setting x { y.completed setting output with
        current := next
        context := { (y.completed setting output).context with state := .pending next output } }
        (.ok .running)
  /-- The outcome leads to what is no state of the graph. -/
  | dangling {y : Execution} {state : State} {output : Document} {next : String}
      (hy : x.Visits setting y) (hstate : x.workflow.state? x.current = some state)
      (hnext : next ∈ state.targets) (hthere : x.workflow.state? next = none) :
      Stepped setting x { y.completed setting output with status := .errored }
        (.error (.stateNotFound next))
  | succeeded {y : Execution} {state : State} {output : Document} (hy : x.Visits setting y)
      (hstate : x.workflow.state? x.current = some state) (hend : state.isEnd = true)
      (hfail : ∀ f, state.action ≠ .fail f) :
      Stepped setting x { y.completed setting output with status := .success, output := some output }
        (.ok .success)
  | failed {y : Execution} {state : State} {f : FailState} (hy : x.Visits setting y)
      (hstate : x.workflow.state? x.current = some state) (hfail : state.action = .fail f) :
      Stepped setting x { y.completed setting x.context.state.input with
        status := .errored
        failure := some ⟨f.error, f.cause⟩
        output := some x.context.state.input }
        (.ok .errored)

theorem Visits.advance_stepped {setting : Setting} {state : State} {outcome : Outcome}
    (hy : x.Visits setting y) (hstate : x.workflow.state? x.current = some state)
    (houtcome : state.Admits x.context.state.input outcome) :
    x.Stepped setting ((y.completed setting outcome.output).advance state outcome).1
      ((y.completed setting outcome.output).advance state outcome).2 := by
  have hmay := houtcome.next
  have hfail := houtcome.fail
  obtain ⟨tree, count, patterns, rfl⟩ := hy.attempting
  obtain ⟨next, output⟩ := outcome
  cases next with
  | some next =>
    simp only [advance]
    split
    · rename_i hthere
      exact .moved hy hstate hmay hthere
    · rename_i hthere
      exact .dangling hy hstate hmay (Option.not_isSome_iff_eq_none.1 hthere)
  | none =>
    obtain ⟨comment, action⟩ := state
    cases action with
    | fail f =>
      cases hfail f rfl
      exact .failed hy hstate rfl
    | _ => exact .succeeded hy hstate hmay nofun

/-- What is told, seen and given while a step is made. -/
def stepping (setting : Setting) (x : Execution) :
    Contract Execution (Execution × Except RuntimeError Status) where
  tells := x.workflow.TellsAt
  shows := x.Visits setting
  ends r := x.Stepped setting r.1 r.2

theorem begin_running (h : x.isEnd = false) :
    (begin x).Keeps ⟨x.workflow.TellsAt, fun _ _ => True, fun _ => False,
      fun y => y = { x with status := .running }⟩ := by
  have hstatus : x.status ≠ .pending → x.status = .running := by
    revert h
    unfold isEnd
    cases x.status <;> simp [Status.isTerminal]
  unfold begin
  split
  · split
    · exact .tell (Workflow.Tells.at trivial) rfl
    · exact rfl
  · rename_i hpending
    show x = _
    rw [← hstatus hpending]

section
variable {drive : Execution → Process Execution (Execution × Except RuntimeError Document)}
  (hdrive : ∀ y, (drive y).Keeps { tells := y.workflow.TellsAt })
include hdrive

theorem stepWith_stepping (setting : Setting) (budget : Nat) (x : Execution) :
    (stepWith drive setting budget x).Keeps (x.stepping setting) := by
  unfold stepWith stepWithVia
  split
  · rename_i hend
    exact .ended hend
  rename_i hnotEnd
  have hend : x.isEnd = false := by simpa using hnotEnd
  split
  · rename_i hstate
    exact .lost hend hstate
  rename_i state hstate
  refine Keeps.bind ((begin_running hend).mono (fun _ _ h => h) (fun _ _ _ => trivial)
    (fun _ => False.elim) fun _ h => h) ?_
  rintro _ rfl
  -- From here on the execution is a visit of its state, until it is aborted or its record closed.
  have hstarted : x.workflow.Tells (.stateStarted x.current state.type x.context.state.input) :=
    ⟨state, hstate, rfl⟩
  have hvisits {y : Execution} (hy : (x.visit setting).Attempting y) : x.Visits setting y :=
    ⟨hend, Option.isSome_iff_exists.2 ⟨state, hstate⟩, hy⟩
  have hrun : (runState drive setting budget x.current state x.context.state.input
      (x.visit setting)).Keeps ((x.visit setting).running state x.context.state.input) :=
    runState_running hdrive budget _ hstate
  refine .tell hstarted.at (Keeps.bind (hrun.mono (fun _ _ h => h) (fun _ _ h => h)
    (fun _ => hvisits) fun _ h => h) ?_)
  rintro ⟨y, result⟩ ⟨hy, hresult⟩
  cases result with
  | error e => exact .aborted (hvisits hy) hresult
  | ok outcome =>
    have hcompleted : x.workflow.Tells (.stateCompleted x.current outcome.output outcome.next) :=
      ⟨state, hstate, hresult.next⟩
    exact .tell hcompleted.at ((hvisits hy).advance_stepped hstate hresult)

end

variable {setting : Setting}

namespace Stepped

variable {result : Except RuntimeError Status}

/-- No step changes the workflow, what is known of the execution as a whole, or whether it is nested. -/
theorem fixed (h : x.Stepped setting z result) :
    z.workflow = x.workflow ∧ z.context.execution = x.context.execution ∧ z.nested = x.nested := by
  cases h with
  | ended | lost => exact ⟨rfl, rfl, rfl⟩
  | aborted hy | moved hy | dangling hy | succeeded hy | failed hy => exact hy.fixed

theorem workflow (h : x.Stepped setting z result) : z.workflow = x.workflow := h.fixed.1

theorem status_of_error {e : RuntimeError} (h : x.Stepped setting z (.error e)) :
    z.status = .errored := by
  cases h <;> rfl

theorem errored {e : RuntimeError} (h : x.Stepped setting z (.error e)) :
    x.Stepped setting { z with status := .errored } (.error e) := by
  rw [← h.status_of_error]
  exact h

end Stepped

/-- `P` is an invariant of steps from which the contract of a run follows. -/
structure Carries (setting : Setting) (P : Execution → Prop)
    (c : Contract Execution (Execution × Except RuntimeError Document)) : Prop where
  step : ∀ x z status, P x → x.Stepped setting z (.ok status) → P z
  tells : ∀ x site event, P x → x.workflow.TellsAt site event → c.tells site event
  asks : ∀ site r, c.asks site r
  shows : ∀ x y, P x → x.Visits setting y → c.shows y
  ok : ∀ x, P x → x.isEnd = true → c.ends (x, .ok (x.output.getD .null))
  error : ∀ x z e, P x → x.Stepped setting z (.error e) → c.ends (z, .error e)

theorem carries_tells (setting : Setting) (w : Workflow) :
    Carries setting (fun x => x.workflow = w) { tells := w.TellsAt } where
  step _ _ _ hx hz := hz.workflow.trans hx
  tells _ _ _ hx h := hx ▸ h
  asks _ _ := trivial
  shows _ _ _ _ := trivial
  ok _ _ _ := trivial
  error _ _ _ _ _ := trivial

/-- A run keeps what every step carries on. -/
theorem Carries.drive {P : Execution → Prop}
    {c : Contract Execution (Execution × Except RuntimeError Document)} (h : Carries setting P c)
    (budget : Nat) (hx : P x) : (drive setting budget x).Keeps c := by
  induction budget generalizing P c x with
  | zero => trivial
  | succ budget ih =>
    have hdrive (y : Execution) : (Execution.drive setting budget y).Keeps
        { tells := y.workflow.TellsAt } := ih (carries_tells setting y.workflow) rfl
    unfold Execution.drive Execution.driveVia
    split
    · rename_i hend
      exact h.ok x hx hend
    refine Keeps.bind ((stepWith_stepping hdrive setting budget x).mono (fun _ _ => h.tells x _ _ hx)
      (fun _ _ _ => h.asks _ _) (fun _ => h.shows x _ hx) fun _ h => h) ?_
    rintro ⟨z, result⟩ hz
    cases result with
    | error e => exact h.error x z e hx hz
    | ok status => exact ih h (h.step x z status hx hz)

theorem drive_tells (setting : Setting) (budget : Nat) (x : Execution) :
    (drive setting budget x).Keeps { tells := x.workflow.TellsAt } :=
  (carries_tells setting x.workflow).drive budget rfl

/-- What a step tells and shows, and what it comes to, whatever runners answer. -/
theorem step_stepping (setting : Setting) (budget : Nat) (x : Execution) :
    (step setting budget x).Keeps (x.stepping setting) :=
  stepWith_stepping (drive_tells setting budget) setting budget x

end Execution
end StepFlow
