import StepFlow.Proofs.Execution.Course
import StepFlow.Proofs.Process.Alike
import StepFlow.Proofs.Workflow.ContextFree

/-!
# Executions that go alike

Two executions of one graph that have come equally far and differ in their contexts only (`Akin`) go alike
when no state of the graph, at any depth, reads the context: they ask and sleep at the same times, and of
equal answers they come to the same (`drive_alike`). Attempts at one state go alike in any two executions,
whatever their numbers (`attempt_alike`).

The settings may differ in their credentials, which nothing but a request depends on, in their stamps, and
in their clocks where no state reads the clock (`Action.Steady`).
-/

namespace StepFlow

/-- The action waits for an instant, counting from the present one. -/
def Action.ReadsClock : Action → Prop
  | .wait s => s.duration.ReadsClock
  | _ => False

/-- The action goes the same way in both settings and in every context. -/
structure Action.Steady (setting setting' : Setting) (a : Action) : Prop where
  contextFree : ContextFree a.paths
  clock : a.ReadsClock → setting.now = setting'.now

/-- All states of the graph, at any depth, are steady. -/
def Workflow.Steady (setting setting' : Setting) (w : Workflow) : Prop :=
  ∀ a, w.Contains a → a.Steady setting setting'

/-- What holds of the state and of every state, at any depth, of the graphs that it runs. -/
def State.Every (P : Action → Prop) (s : State) : Prop :=
  P s.action ∧ ∀ v, s.Runs v → ∀ a, v.Contains a → P a

/-- What is done in a graph is done by a state of its own or in a graph that one of them runs. -/
theorem Workflow.Contains.exists_state {w : Workflow} {a : Action} (h : w.Contains a) :
    ∃ name state, (name, state) ∈ w.states ∧ (state.action = a ∨ ∃ v, state.Runs v ∧ v.Contains a) := by
  induction h with
  | own h => exact ⟨_, _, h, .inl rfl⟩
  | iterator _ ha ih =>
    obtain ⟨name, state, hstate, haction | ⟨v, hruns, hv⟩⟩ := ih
    · exact ⟨name, state, hstate, .inr ⟨_, .iterator haction, ha⟩⟩
    · exact ⟨name, state, hstate, .inr ⟨v, hruns, .iterator hv ha⟩⟩
  | branch _ hb ha ih =>
    obtain ⟨name, state, hstate, haction | ⟨v, hruns, hv⟩⟩ := ih
    · exact ⟨name, state, hstate, .inr ⟨_, .branch haction hb, ha⟩⟩
    · exact ⟨name, state, hstate, .inr ⟨v, hruns, .branch hv hb ha⟩⟩

theorem Workflow.Contains.of_every {P : Action → Prop} {w : Workflow} {a : Action} (h : w.Contains a)
    (hw : ∀ s ∈ w.states, s.2.Every P) : P a := by
  obtain ⟨name, state, hstate, rfl | ⟨v, hruns, ha⟩⟩ := h.exists_state
  · exact (hw _ hstate).1
  · exact (hw _ hstate).2 v hruns a ha

/-- The action is one of a state that runs graphs. -/
def Action.RunsGraphs : Action → Prop
  | .map _ _ | .parallel _ _ => True
  | _ => False

theorem State.Every.leaf {P : Action → Prop} {s : State} (h : P s.action) (hleaf : ¬ s.action.RunsGraphs) :
    s.Every P := by
  refine ⟨h, fun v hv => (hleaf ?_).elim⟩
  cases hv with
  | iterator haction | branch haction =>
    rw [haction]
    trivial

theorem State.every_parallel {P : Action → Prop} {comment : Option String} {s : ParallelState}
    {branches : List Workflow} (hown : P (.parallel s branches))
    (hbranches : ∀ w ∈ branches, ∀ t ∈ w.states, t.2.Every P) :
    (State.mk comment (.parallel s branches)).Every P := by
  refine ⟨hown, fun v hv a ha => ?_⟩
  cases hv with
  | iterator h => cases h
  | branch h hv =>
    cases h
    exact ha.of_every (hbranches v hv)

theorem Workflow.Steady.every {setting setting' : Setting} {w : Workflow} {name : String} {state : State}
    (h : w.Steady setting setting') (hstate : w.state? name = some state) :
    state.Every (Action.Steady setting setting') := by
  have hcontains : w.Contains state.action := .of_state? hstate
  refine ⟨h _ hcontains, fun v hv a ha => h a ?_⟩
  cases hv with
  | iterator haction => exact .iterator (haction ▸ hcontains) ha
  | branch haction hv => exact .branch (haction ▸ hcontains) hv ha

/-! ### Requests -/

namespace TaskState

/-- What a task asks in a context: nothing but a failure where no runner serves its resource, or where its
parameters make no environment. -/
def request (s : TaskState) (setting : Setting) (c input : Document) : Except RunnerError Request := do
  let _ ← setting.runners.resolve s.resource
  let env ← Environment.ofInput (renderWith s.parameters c (s.filters.input c input))
  return ⟨s.resource, env, s.secrets setting, s.timeoutSeconds.map .ofSeconds, s.heartbeatSeconds.map .ofSeconds⟩

/-- What comes of a runner's answer. -/
def conclude (s : TaskState) (c input : Document) : Except RunnerError Report → Except TaskFailure Document
  | .error e => .error (.ofRunnerError e)
  | .ok report =>
    if report.success then shapeResult s.results s.filters c input report.result else .error (.ofReport report)

variable {s : TaskState} (c c' : Document) (h : ContextFree (Action.task s).paths) (input : Document)
include h

theorem request_congr (setting : Setting) : s.request setting c input = s.request setting c' input := by
  obtain ⟨hinput, -⟩ := contextFree_append.1 h
  obtain ⟨hfilters, hparameters⟩ := contextFree_append.1 hinput
  simp only [request, Filters.input_congr c c' hfilters, renderWith_congr c c' hparameters]

theorem conclude_congr (result : Except RunnerError Report) :
    s.conclude c input result = s.conclude c' input result := by
  obtain ⟨hinput, hselector⟩ := contextFree_append.1 h
  obtain ⟨hfilters, -⟩ := contextFree_append.1 hinput
  cases result with
  | error e => rfl
  | ok report => simp only [conclude, shapeResult_congr c c' hfilters hselector]

end TaskState

namespace Execution
open Process

/-! ### Attempts -/

section
variable {setting setting' : Setting} {x y : Execution} {input : Document}

theorem attemptTask_eq (s : TaskState) :
    attemptTask setting s input x =
      match s.request setting x.tree input with
      | .error e => .done (.error (.ofRunnerError e))
      | .ok request =>
        Process.bind (fun result => .done (s.conclude x.tree input result)) (Process.ask x request) := by
  unfold attemptTask TaskState.request
  dsimp only
  cases setting.runners.resolve s.resource with
  | error e => rfl
  | ok _ =>
    cases Environment.ofInput (renderWith s.parameters x.tree (s.filters.input x.tree input)) with
    | error e => rfl
    | ok env =>
      refine congrArg (Process.bind · _) (funext fun result => ?_)
      cases result with
      | error e => rfl
      | ok report =>
        unfold TaskState.conclude
        dsimp only
        split <;> rfl

theorem attemptTask_alike {s : TaskState} (h : ContextFree (Action.task s).paths)
    (hrunners : setting.runners = setting'.runners) :
    (attemptTask setting s input x).Alike Eq (attemptTask setting' s input y) := by
  have hrequest : ∃ secrets, s.request setting' y.tree input =
      (s.request setting x.tree input).map fun request => { request with secrets } := by
    refine ⟨s.secrets setting', ?_⟩
    rw [s.request_congr y.tree x.tree h]
    unfold TaskState.request
    rw [hrunners]
    cases setting'.runners.resolve s.resource with
    | error e => rfl
    | ok _ =>
      cases Environment.ofInput (renderWith s.parameters x.tree (s.filters.input x.tree input)) <;> rfl
  obtain ⟨secrets, hrequest⟩ := hrequest
  rw [attemptTask_eq, attemptTask_eq, hrequest]
  cases s.request setting x.tree input with
  | error e => exact .done rfl
  | ok request => exact .ask fun result => .done (s.conclude_congr _ _ h input result)

/-- The executions run `w`, have come equally far with it and are given the same input; their contexts may
differ. -/
def Akin (w : Workflow) (x y : Execution) : Prop :=
  x.workflow = w ∧ ∃ context tree, y = { x with context, tree } ∧ context.state.input = x.context.state.input

/-- The executions are akin in the end, and what they come to is the same. -/
def EndsAkin {α : Type} (w : Workflow) (r r' : Execution × α) : Prop := Akin w r.1 r'.1 ∧ r.2 = r'.2

namespace Akin

variable {w : Workflow} (h : Akin w x y)
include h

theorem workflow : y.workflow = x.workflow := by
  obtain ⟨-, _, _, rfl, -⟩ := h
  rfl

theorem current : y.current = x.current := by
  obtain ⟨-, _, _, rfl, -⟩ := h
  rfl

theorem status : y.status = x.status := by
  obtain ⟨-, _, _, rfl, -⟩ := h
  rfl

theorem isEnd : y.isEnd = x.isEnd := congrArg Status.isTerminal h.status

theorem output : y.output = x.output := by
  obtain ⟨-, _, _, rfl, -⟩ := h
  rfl

theorem failure : y.failure = x.failure := by
  obtain ⟨-, _, _, rfl, -⟩ := h
  rfl

theorem nested : y.nested = x.nested := by
  obtain ⟨-, _, _, rfl, -⟩ := h
  rfl

theorem stateInput : y.context.state.input = x.context.state.input := by
  obtain ⟨-, _, _, rfl, hinput⟩ := h
  exact hinput

theorem withStatus (status : Status) : Akin w { x with status } { y with status } := by
  obtain ⟨hw, context, tree, rfl, hinput⟩ := h
  exact ⟨hw, context, tree, rfl, hinput⟩

theorem visit (setting setting' : Setting) : Akin w (x.visit setting) (y.visit setting') := by
  obtain ⟨hw, context, tree, rfl, hinput⟩ := h
  exact ⟨hw, context.enter setting'.stamps x.current context.state.input, tree, rfl, hinput⟩

theorem attempting {x' y' : Execution} (hx : x.Attempting x') (hy : y.Attempting y') : Akin w x' y' := by
  obtain ⟨hw, context, tree, rfl, hinput⟩ := h
  obtain ⟨_, _, _, rfl⟩ := hx
  obtain ⟨_, _, _, rfl⟩ := hy
  exact ⟨hw, _, _, rfl, hinput⟩

theorem completed (output : Document) : Akin w (x.completed setting output) (y.completed setting' output) := by
  obtain ⟨hw, context, tree, rfl, hinput⟩ := h
  exact ⟨hw, context.finish setting'.stamps output, tree, rfl, hinput⟩

theorem advance (state : State) (outcome : Outcome) :
    EndsAkin w (x.advance state outcome) (y.advance state outcome) := by
  obtain ⟨hw, context, tree, rfl, hinput⟩ := h
  unfold Execution.advance
  cases outcome.next with
  | none => exact ⟨⟨hw, context, tree, rfl, hinput⟩, rfl⟩
  | some next =>
    dsimp only
    split
    · exact ⟨⟨hw, { context with state := .pending next outcome.output }, tree, rfl, rfl⟩, rfl⟩
    · exact ⟨⟨hw, context, tree, rfl, hinput⟩, rfl⟩

end Akin

section
variable {drive drive' : Execution → Process Execution (Execution × Except RuntimeError Document)}
  (hdrive : ∀ v, v.Steady setting setting' → ∀ x y, Akin v x y → (drive x).Alike (EndsAkin v) (drive' y))
include hdrive

theorem nestedSlot_alike {v : Workflow} (hv : v.Steady setting setting') (h : Akin v x y) :
    Slot.Alike (nestedSlot drive x) (nestedSlot drive' y) := by
  refine .ready ((hdrive v hv x y h).bind ?_)
  rintro ⟨x', result⟩ ⟨y', _⟩ ⟨hakin, rfl⟩
  refine .done ?_
  dsimp only [nestedResult]
  rw [hakin.failure]

theorem attemptMap_alike {s : MapState} {iterator : Workflow} (h : ContextFree (Action.map s iterator).paths)
    (hv : iterator.Steady setting setting') (k k' : Nat) :
    (attemptMap drive s iterator input k x).Alike Eq (attemptMap drive' s iterator input k' y) := by
  obtain ⟨hrest, hselector⟩ := contextFree_append.1 h
  obtain ⟨hfilters, hitems⟩ := contextFree_append.1 hrest
  obtain ⟨hpath, hitem⟩ := List.forall_mem_cons.1 hitems
  have heffective : s.filters.input x.tree input = s.filters.input y.tree input :=
    Filters.input_congr _ _ hfilters input
  have hvalue : s.itemsPath.value x.tree (s.filters.input x.tree input) =
      s.itemsPath.value y.tree (s.filters.input y.tree input) := by
    rw [heffective, s.itemsPath.value_congr _ _ hpath]
  rw [attemptMap_eq, attemptMap_eq, items?, items?, ← hvalue]
  split
  · rename_i items _
    refine Alike.bind (.gather (List.forall₂_map_left_iff.2 (List.forall₂_map_right_iff.2
      (List.forall₂_same.2 fun entry _ => nestedSlot_alike hdrive hv ?_)))) ?_
    · refine ⟨rfl, _, _, rfl, ?_⟩
      rw [← heffective]
      cases hselected : s.itemSelector with
      | none => simp only [iteration, hselected]; rfl
      | some selector =>
        rw [hselected] at hitem
        simp only [iteration, hselected]
        exact selector.render_congr _ _ hitem _
    · rintro result _ rfl
      refine .done ?_
      cases result with
      | error f => rfl
      | ok outputs => exact shapeResult_congr _ _ hfilters hselector input _
  · exact .done rfl

theorem attemptParallel_alike {s : ParallelState} {branches : List Workflow}
    (h : ContextFree (Action.parallel s branches).paths) (hv : ∀ v ∈ branches, v.Steady setting setting')
    (k k' : Nat) :
    (attemptParallel drive s branches input k x).Alike Eq (attemptParallel drive' s branches input k' y) := by
  obtain ⟨hfilters, hselector⟩ := contextFree_append.1 h
  rw [attemptParallel_eq, attemptParallel_eq,
    Filters.input_congr x.tree y.tree hfilters]
  refine Alike.bind (.gather (List.forall₂_map_left_iff.2 (List.forall₂_map_right_iff.2
    (List.forall₂_same.2 fun v hmem => nestedSlot_alike hdrive (hv v hmem) ?_)))) ?_
  · exact ⟨rfl, _, _, rfl, rfl⟩
  · rintro result _ rfl
    refine .done ?_
    cases result with
    | error f => rfl
    | ok outputs => exact shapeResult_congr _ _ hfilters hselector input _

theorem attempt_alike {state : State} {run run' : Nat → Execution → Attempt}
    (h : state.Every (Action.Steady setting setting')) (hrunners : setting.runners = setting'.runners)
    (hrun : state.attempt? drive setting input = some run)
    (hrun' : state.attempt? drive' setting' input = some run') (k k' : Nat) (x y : Execution) :
    (run k x).Alike Eq (run' k' y) := by
  obtain ⟨haction, hruns⟩ := h
  obtain ⟨comment, action⟩ := state
  cases action with
  | task s =>
    cases hrun
    cases hrun'
    exact attemptTask_alike haction.contextFree hrunners
  | map s iterator =>
    cases hrun
    cases hrun'
    exact attemptMap_alike hdrive haction.contextFree (hruns iterator (.iterator rfl)) k k'
  | parallel s branches =>
    cases hrun
    cases hrun'
    exact attemptParallel_alike hdrive haction.contextFree (fun v hv => hruns v (.branch rfl hv)) k k'
  | pass | choice | wait | succeed | fail => cases hrun

end

/-! ### Visits and steps -/

theorem protocol_alike {run run' : Nat → Execution → Attempt}
    (hrun : ∀ k k' x y, (run k x).Alike Eq (run' k' y)) (transition : Transition) (r : Recovery) (name : String)
    (record record' : StateRecord) (budget budget' : Nat) (past : List TaskFailure) (x y : Execution) :
    (protocol run transition r name input record budget past x).Alike (fun a b => a.2 = b.2)
      (protocol run' transition r name input record' budget' past y) := by
  induction budget generalizing budget' past x y with
  | zero => exact .stuckLeft _
  | succ budget ih =>
    cases budget' with
    | zero => exact .stuckRight _
    | succ budget' =>
      refine (hrun _ _ _ _).bind ?_
      rintro result _ rfl
      cases result with
      | ok output => exact .done rfl
      | error f =>
        dsimp only
        cases r.retryDelay? (f :: past) with
        | some delay => exact .tell (.sleep (ih _ _ _ _))
        | none =>
          dsimp only
          cases r.fallback name input f with
          | error e => exact .done rfl
          | ok target => exact .tell (.done rfl)

theorem runState_alike
    {drive drive' : Execution → Process Execution (Execution × Except RuntimeError Document)}
    (hdrive : ∀ v, v.Steady setting setting' → ∀ x y, Akin v x y → (drive x).Alike (EndsAkin v) (drive' y))
    {state : State} (h : state.Every (Action.Steady setting setting'))
    (hrunners : setting.runners = setting'.runners) (budget budget' : Nat) (name : String) (x y : Execution) :
    (runState drive setting budget name state input x).Alike (fun a b => a.2 = b.2)
      (runState drive' setting' budget' name state input y) := by
  have hattempt {run run' : Nat → Execution → Attempt} (hrun : state.attempt? drive setting input = some run)
      (hrun' : state.attempt? drive' setting' input = some run') :
      ∀ k k' x y, (run k x).Alike Eq (run' k' y) := attempt_alike hdrive h hrunners hrun hrun'
  obtain ⟨⟨hpaths, hclock⟩, -⟩ := h
  obtain ⟨comment, action⟩ := state
  unfold runState runStateVia
  dsimp only [State.action]
  cases action with
  | pass s => exact .done (PassState.run_congr _ _ hpaths name input)
  | choice s => exact .done (ChoiceState.run_congr _ _ hpaths name input)
  | succeed filters => exact .done (congrArg Except.ok (Filters.succeed_congr _ _ hpaths input))
  | fail s => exact .done rfl
  | wait s =>
    dsimp only
    rw [WaitState.span_congr x.sync.tree y.sync.tree hpaths hclock]
    split
    · exact .done rfl
    · exact .sleep (.done (congrArg Except.ok (WaitState.outcome_congr _ _ hpaths input)))
  | task s | map s _ | parallel s _ =>
    dsimp only
    rw [recoverable_start, recoverable_start]
    exact protocol_alike (hattempt rfl rfl) ..

theorem begin_alike {w : Workflow} (h : Akin w x y) : (begin x).Alike (fun _ _ => True) (begin y) := by
  rw [begin, begin, h.status, h.nested]
  split
  · split
    · exact .tell (.done trivial)
    · exact .done trivial
  · exact .done trivial

theorem stepWith_alike {w : Workflow} {n n' : Nat}
    (hdrive : ∀ v, v.Steady setting setting' → ∀ x y, Akin v x y →
      (drive setting n x).Alike (EndsAkin v) (drive setting' n' y))
    (hw : w.Steady setting setting') (hrunners : setting.runners = setting'.runners) (budget budget' : Nat)
    (h : Akin w x y) :
    (stepWith (drive setting n) setting budget x).Alike (EndsAkin w)
      (stepWith (drive setting' n') setting' budget' y) := by
  have hstate? : y.workflow.state? y.current = x.workflow.state? x.current := by rw [h.workflow, h.current]
  rw [stepWith, stepWith, stepWithVia, stepWithVia, h.isEnd, h.status, hstate?]
  split
  · exact .done ⟨h, rfl⟩
  rename_i hnotEnd
  have hend : x.isEnd = false := by simpa using hnotEnd
  split
  · exact .done ⟨h.withStatus .errored, by rw [h.current]⟩
  rename_i state hstate
  refine ((begin_alike h).keeps (begin_running hend) (begin_running (h.isEnd.trans hend))).bind ?_
  rintro _ _ ⟨-, rfl, rfl⟩
  refine .tell ?_
  -- Both executions visit the state, and only their records and trees change meanwhile.
  have hsteady : state.Every (Action.Steady setting setting') := hw.every (h.1 ▸ hstate)
  have hrun : (runState (drive setting n) setting budget x.current state x.context.state.input
        (x.visit setting)).Alike (fun a b => a.2 = b.2)
      (runState (drive setting' n') setting' budget' y.current state y.context.state.input
        (y.visit setting')) := by
    rw [h.current, h.stateInput]
    exact runState_alike hdrive hsteady hrunners ..
  have hkeeps : (runState (drive setting n) setting budget x.current state x.context.state.input
      (x.visit setting)).Keeps ((x.visit setting).running state x.context.state.input) :=
    runState_running (drive_tells setting n) budget _ hstate
  have hkeeps' : (runState (drive setting' n') setting' budget' y.current state y.context.state.input
      (y.visit setting')).Keeps ((y.visit setting').running state y.context.state.input) :=
    runState_running (drive_tells setting' n') budget' _ (hstate?.trans hstate)
  refine Alike.bind (hrun.keeps hkeeps hkeeps') ?_
  rintro ⟨x', result⟩ ⟨y', _⟩ ⟨rfl, ⟨hx, -⟩, hy, -⟩
  have hafter := (h.visit setting setting').attempting hx hy
  cases result with
  | error e => exact .done ⟨hafter.withStatus .errored, rfl⟩
  | ok outcome => exact .tell (.done ((hafter.completed outcome.output).advance state outcome))

/-- Akin executions of a steady graph come to the same when they are answered alike. -/
theorem drive_alike (hrunners : setting.runners = setting'.runners) (n n' : Nat) (w : Workflow)
    (hw : w.Steady setting setting') (x y : Execution) (h : Akin w x y) :
    (drive setting n x).Alike (EndsAkin w) (drive setting' n' y) := by
  induction n generalizing n' w x y with
  | zero => exact .stuckLeft _
  | succ n ih =>
    cases n' with
    | zero => exact .stuckRight _
    | succ n' =>
      rw [drive, drive, driveVia, driveVia, h.isEnd, h.output]
      split
      · exact .done ⟨h, rfl⟩
      · refine (stepWith_alike (ih n') hw hrunners n n' h).bind ?_
        rintro ⟨x', result⟩ ⟨y', _⟩ ⟨hakin, rfl⟩
        cases result with
        | error e => exact .done ⟨hakin, rfl⟩
        | ok status => exact ih n' w hw x' y' hakin

end
end Execution
end StepFlow
