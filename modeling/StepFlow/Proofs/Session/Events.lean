import StepFlow.Proofs.Execution.Orderly
import StepFlow.Proofs.Session.Recount

/-!
# What a run tells

The events that a run of a fresh execution tells of the execution itself: that the workflow has started,
one block for each state that is visited, and how the run is closed (`run_tells`). Of a nested execution
the blocks are told and nothing else.
-/

namespace StepFlow

/-- The visits make up the story of an execution of `w` that begins with the state `name` on `input`. -/
structure Workflow.Story (w : Workflow) (name : String) (input : Document) (visits : List Account) :
    Prop where
  first : ∀ a ∈ visits.head?, a.name = name ∧ a.input = input
  /-- A visit that is followed by another was brought to its end, and has named the state and handed on
  the input of the next. -/
  links : visits.IsChain fun a a' => a.way.outcome? = some ⟨some a'.name, a'.input⟩
  found : ∀ a ∈ visits, ∃ state, w.state? a.name = some state ∧ a.type = state.type ∧
    state.recovery.Counts a.retries

namespace Execution
open Process

variable {setting : Setting} {budget : Nat} {x₀ x y z : Execution} {as more : List Account}

theorem Recounted.story (h : Recounted setting x₀ x as) :
    x₀.workflow.Story x₀.current x₀.context.state.input as where
  first := h.first
  links := h.links
  found a ha := by
    obtain ⟨_, _, state, -, hstate, hof⟩ := h.visits a ha
    exact ⟨state, hstate, hof.type, hof.counts⟩

/-- The ending of an execution with the accounts of its visits shows the history that they have left. -/
def Records {α : Type} (visits : List Account) : Ending Execution (Execution × α) → Prop
  | .finished (z, _) => z.context.states.map StateRecord.gist = visits.filterMap Account.gist?
  | .cut z => z.context.states.map StateRecord.gist = visits.filterMap Account.gist?
  | .stuck => False

/-- What a nested execution tells of itself: blocks and nothing else. -/
theorem Launches.tells {v : Workflow} {acts : List Act}
    {e : Ending Execution (Execution × Except RuntimeError Document)} (hv : v.Closed)
    (h : y.Launches v z) (hdoes : (drive setting budget z).Does acts e) :
    ∃ visits, ownEvents acts = visits.flatMap Account.told ∧
      v.Story v.startAt z.context.state.input visits ∧ Records visits e := by
  have hfresh := h.fresh hv
  have hopening : z.opening = [] := by simp [opening, h.nested]
  have hstart : z.workflow = v ∧ z.current = v.startAt := by cases h <;> exact ⟨rfl, rfl⟩
  obtain ⟨rfl, hcurrent⟩ := hstart
  obtain ⟨visits, rfl, -, hvisits⟩ := hfresh.recounted.drive hv hdoes
  rw [hopening, List.nil_append]
  refine ⟨visits, ?_⟩
  cases hvisits with
  | ok _ hz | error hz | cut hz =>
    have hstory := hz.story
    rw [List.nil_append, hcurrent] at hstory
    exact ⟨hz.own, hstory, hz.history⟩

end Execution

namespace Session
open Execution Process

variable {ω : Type} {setting : Setting} {runners : Runners ω} {budget : Nat} {s : Session ω}
  {w : Workflow}

/-- Where the last visit has led, if a run has ended. -/
theorem last_outcome {x₀ : Execution} {visits : List Account} {last : Account}
    (hs : Recounted setting x₀ s.execution visits) (hlast : visits.getLast? = some last)
    (hend : s.execution.isEnd = true) (hdone : last.way.outcome?.isSome) :
    last.way.outcome? = some ⟨none, s.execution.output.getD .null⟩ := by
  have hstands := hs.stands
  rw [hlast] at hstands
  cases hstands with
  | moved _ status =>
    rw [isEnd, status] at hend
    cases hend
  | succeeded way _ _ _ output | failed way _ _ _ output => rw [way, output, Option.getD_some]
  | aborted way => simp [way] at hdone

/-- The events of a run of a fresh execution. -/
theorem run_tells {g : Definition.Graph} (hg : Workflow.ofDefinition g = .ok w) (world : ω)
    (id startTime : String) (input : Document) {result : Except RuntimeError Document}
    (h : (start (.start w id startTime input) world).run setting runners budget = some (s, result)) :
    (∃ visits last, visits.getLast? = some last ∧
      s.own = .workflowStarted input ::
        (visits.flatMap Account.told ++ [closing s.execution.status result]) ∧
      w.Story w.startAt input visits ∧
      s.execution.context.states.map StateRecord.gist = visits.filterMap Account.gist? ∧
      (∀ v, result = .ok v → last.way.outcome? = some ⟨none, v⟩) ∧
      ∀ e, result = .error e → last.way.outcome? = none) ∧
    (∀ l ∈ s.timeline.events, l.site ≠ [] → l.what.OfState) ∧
    ∀ v, w.Nests v → ∀ (y z : Execution) (more : Nat) acts e, y.Launches v z →
      (drive setting more z).Does acts e →
        ∃ visits, ownEvents acts = visits.flatMap Account.told ∧
          v.Story v.startAt z.context.state.input visits ∧ Records visits e := by
  have hw : w.Valid := Workflow.valid_of_ofDefinition hg
  have hfresh : (Execution.start w id startTime input).Fresh := fresh_ofContext hw.closed rfl false
  obtain ⟨visits, hadds⟩ := run_adds hfresh.recounted hw.closed h
  have hne : visits ≠ [] := fun hnil => by cases hadds.visited hnil
  refine ⟨?_, ?_, fun v hv y z more acts e hz hdoes => hz.tells (hw v hv) hdoes⟩
  · obtain ⟨last, hlast⟩ := Option.ne_none_iff_exists'.1 (List.getLast?_eq_none_iff.not.2 hne)
    refine ⟨visits, last, hlast, ?_, hadds.recounted.story, hadds.recounted.history, ?_, ?_⟩
    · have hown := hadds.records.own
      rw [ownEvents_append, ownEvents_append, Recounted.own hadds.recounted] at hown
      exact hown
    · rintro v rfl
      obtain ⟨s₁, -, hend, rfl, rfl⟩ := run_ok h
      exact last_outcome hadds.recounted hlast hend (hadds.done rfl last (List.mem_of_getLast? hlast))
    · rintro e rfl
      obtain ⟨a, ha, hway⟩ := hadds.undone nofun
      cases hlast.symm.trans ha
      exact hway
  · intro l hl hsite
    have horderly : Orderly setting (Execution.start w id startTime input) _ :=
      Visiting.orderly hw hadds.recounted.visits
    rcases hadds.records.mem_events hl with hnone | hact
    · cases hnone
    · rcases List.mem_append.1 hact with hact | hclosing
      · have hperformed : .event l.site l.what ∈
            (Execution.start w id startTime input).performed visits := by
          rw [performed, if_neg hne]
          exact hact
        exact (horderly.ofState hperformed).resolve_right fun hopening => hsite hopening.1
      · exact (hsite (Act.event.inj (List.mem_singleton.1 hclosing)).1).elim

/-- A task that is tried twice and then caught. -/
def retryThenCatch : Definition.Graph :=
  .mk ⟨"work", none, none, none⟩
    [("work", .task ⟨"test://work", ⟨none, .null, .null⟩, ⟨none, true⟩, .null, none, none,
      ⟨[⟨[allErrors], none, some 1, none⟩], [⟨[allErrors], "caught", .null⟩]⟩, none, none, none⟩),
    ("caught", .succeed ⟨none, .null, .null⟩)]

/-- A run in which both attempts at the task fail: two blocks, of four events and of two. -/
theorem run_tells_retryThenCatch :
    ∃ (w : Workflow) (s : Session Unit) (v : Document) (visits : List Account) (last : Account),
      Workflow.ofDefinition retryThenCatch = .ok w ∧
        (start (.start w "" "" .null) ()).run ⟨[("test", ())], .null, default, default⟩
          (fun _ _ => ((), ⟨0, .error (.io "")⟩)) 3 = some (s, .ok v) ∧
        s.own = .workflowStarted .null ::
          (visits.flatMap Account.told ++ [.workflowCompleted s.execution.status v]) ∧
        s.own.length = 8 ∧ visits.getLast? = some last ∧ last.way.outcome? = some ⟨none, v⟩ := by
  have hgraph : ((Workflow.ofDefinition retryThenCatch).toOption.bind fun w =>
      ((start (.start w "" "" .null) ()).run ⟨[("test", ())], .null, default, default⟩
        (fun _ _ => ((), ⟨0, .error (.io "")⟩)) 3).map fun r => (r.2.toOption.isSome, r.1.own.length)) =
      some (true, 8) := by decide +kernel
  obtain ⟨w, hw, hrun⟩ := Option.bind_eq_some_iff.1 hgraph
  obtain ⟨⟨s, result⟩, hrun, hresult⟩ := Option.map_eq_some_iff.1 hrun
  obtain ⟨hok, hlength⟩ := Prod.ext_iff.1 hresult
  cases result with
  | error e => cases hok
  | ok v =>
    have hw := Except.eq_ok_of_toOption hw
    obtain ⟨⟨visits, last, hlast, hown, -, -, hout, -⟩, -⟩ := run_tells hw () "" "" .null hrun
    exact ⟨w, s, v, visits, last, hw, hrun, hown, hlength, hlast, hout v rfl⟩

end Session
end StepFlow
