import Mathlib.Data.List.Chain
import StepFlow.Proofs.Execution.Visit

/-!
# Histories

The states that are done form a chain: the first record is that of the first state of the graph, on the
input of the execution, and every record hands its output on to the next, which is one of its targets.
While the execution is not over, the state that is next would continue the chain (`Chained`). The moments
at which the parts of this change, entering a state, closing its record, moving on, lie within one step,
and every step keeps all of them together (`Chained.stepped`).
-/

namespace StepFlow

/-! ### Chains of records -/

namespace Workflow

/-- A state that is done hands its output on to a state that it may lead to. -/
structure HandsOn (w : Workflow) (r : StateRecord) (name : String) (input : Document) : Prop where
  output : r.output = some input
  joins : w.Joins r.name name

/-- The records of states that are done, of an execution of `w` that has begun with `input`. -/
structure Chain (w : Workflow) (input : Document) (states : List StateRecord) : Prop where
  first : ∀ r ∈ states.head?, r.name = w.startAt ∧ r.input = input
  links : states.IsChain fun r r' => w.HandsOn r r'.name r'.input

/-- A state may come after those that are done: the first one of all, or one that the last hands on
to. -/
def Continues (w : Workflow) (input : Document) (states : List StateRecord) (name : String)
    (d : Document) : Prop :=
  match states.getLast? with
  | none => name = w.startAt ∧ d = input
  | some r => w.HandsOn r name d

variable {w : Workflow} {input : Document} {states : List StateRecord} {r : StateRecord}

theorem Chain.nil (w : Workflow) (input : Document) : w.Chain input [] := ⟨nofun, .nil⟩

theorem Chain.snoc (h : w.Chain input states) (hr : w.Continues input states r.name r.input) :
    w.Chain input (states ++ [r]) := by
  unfold Continues at hr
  cases hlast : states.getLast? with
  | none =>
    rw [hlast] at hr
    obtain rfl := List.getLast?_eq_none_iff.1 hlast
    exact ⟨by simpa using hr, .singleton r⟩
  | some last =>
    rw [hlast] at hr
    refine ⟨fun r' hr' => h.first r' ?_, h.links.append (.singleton r) ?_⟩
    · cases states with
      | nil => cases hlast
      | cons => exact hr'
    · simpa [hlast] using hr

theorem continues_snoc {name : String} {d : Document} (h : w.HandsOn r name d) :
    w.Continues input (states ++ [r]) name d := by
  simpa [Continues] using h

end Workflow

namespace Execution
open Process

variable {w : Workflow} {info : ExecutionInfo} {input : Document} {setting : Setting}
  {x y z : Execution}

/-! ### Executions with their history -/

/-- The history of an execution of `w` that has begun with `input`, and what it goes on with. -/
structure Chained (w : Workflow) (info : ExecutionInfo) (input : Document) (x : Execution) : Prop where
  workflow : x.workflow = w
  execution : x.context.execution = info
  name : x.context.state.name = x.current
  history : w.Chain input x.context.states
  pending : x.isEnd = false → w.Continues input x.context.states x.current x.context.state.input

/-- An execution of `w` on `input` in which no state has run. -/
structure Begins (w : Workflow) (info : ExecutionInfo) (input : Document) (x : Execution) : Prop where
  workflow : x.workflow = w
  execution : x.context.execution = info
  current : x.current = w.startAt
  state : x.context.state = .pending w.startAt input
  states : x.context.states = []

theorem begins_start (w : Workflow) (id startTime : String) (input : Document) :
    (start w id startTime input).Begins w ⟨id, startTime, input⟩ input := ⟨rfl, rfl, rfl, rfl, rfl⟩

/-- `x` launches `y` as one of the nested executions of its state: of the graph `v`. -/
inductive Launches (x : Execution) : Workflow → Execution → Prop where
  | iteration (s : MapState) (v : Workflow) (effective : Document) (index : Nat) (item : Document) :
      Launches x v (iteration s v x effective index item)
  | branch (v : Workflow) (effective : Document) : Launches x v (branch x effective v)

/-- Nested executions begin, within the same execution as a whole. An iteration begins with its item or
with what a selector makes of it, a branch with the input of its state. -/
theorem Launches.begins {v : Workflow} (h : x.Launches v y) :
    ∃ input, y.Begins v x.context.execution input := by
  cases h with
  | iteration s v effective index item =>
    unfold Execution.iteration
    dsimp only
    cases s.itemSelector <;> exact ⟨_, rfl, rfl, rfl, rfl, rfl⟩
  | branch v effective => exact ⟨effective, rfl, rfl, rfl, rfl, rfl⟩

theorem Begins.chained (h : x.Begins w info input) : x.Chained w info input where
  workflow := h.workflow
  execution := h.execution
  name := by rw [h.state, h.current]; rfl
  history := h.states ▸ .nil w input
  pending _ := by
    rw [h.states, h.state, h.current]
    exact ⟨rfl, rfl⟩

namespace Chained

/-- A state that is under way has not changed the history, and has the input that was to be its. -/
theorem visits (hx : x.Chained w info input) (h : x.Visits setting y) : y.Chained w info input := by
  have hpending := hx.pending h.notEnd
  obtain ⟨tree, count, patterns, rfl⟩ := h.attempting
  exact ⟨hx.workflow, hx.execution, rfl, hx.history, fun _ => hpending⟩

/-- The record of a visit continues the history. -/
theorem completed (hx : x.Chained w info input) (h : x.Visits setting y) (output : Document) :
    w.Chain input (y.completed setting output).context.states := by
  have hpending := hx.pending h.notEnd
  obtain ⟨r, hstates, hname, hinput, -⟩ := h.states_completed output
  rw [hstates]
  rw [← hname, ← hinput] at hpending
  exact hx.history.snoc hpending

theorem stepped (hx : x.Chained w info input) {result : Except RuntimeError Status}
    (h : x.Stepped setting z result) : z.Chained w info input := by
  obtain ⟨hworkflow, hinfo, -⟩ := h.fixed
  refine ⟨hworkflow.trans hx.workflow, hinfo.trans hx.execution, ?_, ?_, ?_⟩
  · cases h with
    | ended | lost => exact hx.name
    | moved => rfl
    | aborted hy | dangling hy | succeeded hy | failed hy => exact (hx.visits hy).name
  · cases h with
    | ended | lost => exact hx.history
    | aborted hy => exact (hx.visits hy).history
    | moved hy | dangling hy | succeeded hy | failed hy => exact hx.completed hy _
  -- Only a move leaves an execution that is not over.
  · cases h with
    | ended => exact hx.pending
    | lost | aborted | dangling | succeeded | failed => nofun
    | moved hy hstate hnext hthere =>
      intro _
      obtain ⟨tree, count, patterns, rfl⟩ := hy.attempting
      refine Workflow.continues_snoc ⟨rfl, ?_⟩
      rw [← hx.workflow]
      exact ⟨_, hstate, hnext, hthere⟩

end Chained

/-- What can be seen of an execution of `w`, and the execution it ends with, have a history that is a
chain. -/
def chaining {α : Type} (w : Workflow) (info : ExecutionInfo) (input : Document) :
    Contract Execution (Execution × α) where
  shows := Chained w info input
  ends r := Chained w info input r.1

theorem carries_chaining (setting : Setting) (w : Workflow) (info : ExecutionInfo) (input : Document) :
    Carries setting (Chained w info input) (chaining w info input) where
  step _ _ _ hx hz := hx.stepped hz
  tells _ _ _ _ _ := trivial
  asks _ _ := trivial
  shows _ _ hx hy := hx.visits hy
  ok _ hx _ := hx
  error _ _ _ hx hz := hx.stepped hz

/-! ### Growth -/

/-- The history while a step is made: it grows at its end, and not before the step has succeeded. -/
def recording (x : Execution) : Contract Execution (Execution × Except RuntimeError Status) where
  shows y := y.context.states = x.context.states
  ends r := x.context.states <+: r.1.context.states ∧
    ∀ e, r.2 = .error e → r.1.context.states = x.context.states

theorem Visits.grown (h : x.Visits setting y) (output : Document) :
    x.context.states <+: (y.completed setting output).context.states := by
  obtain ⟨r, hstates, -⟩ := h.states_completed output
  exact ⟨[r], hstates.symm⟩

/-- Only where an outcome could lead out of the graph would a step fail with its state recorded. -/
theorem Stepped.recorded (hw : x.workflow.Closed) {result : Except RuntimeError Status}
    (h : x.Stepped setting z result) :
    x.context.states <+: z.context.states ∧
      ∀ e, result = .error e → z.context.states = x.context.states := by
  cases h with
  | ended | lost => exact ⟨List.prefix_rfl, fun _ _ => rfl⟩
  | aborted hy => exact ⟨hy.states ▸ List.prefix_rfl, fun _ _ => hy.states⟩
  | moved hy | succeeded hy | failed hy => exact ⟨hy.grown _, nofun⟩
  | dangling _ hstate hnext hthere =>
    have hsome := hw.targets hstate _ hnext
    simp [hthere] at hsome

theorem step_recording (hw : x.workflow.Closed) (setting : Setting) (budget : Nat) :
    (step setting budget x).Keeps x.recording :=
  (step_stepping setting budget x).mono (fun _ _ _ => trivial) (fun _ _ _ => trivial)
    (fun _ => Visits.states) fun _ h => h.recorded hw

end Execution
end StepFlow
