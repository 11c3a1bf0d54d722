import Mathlib.Logic.Relation
import StepFlow.Proofs.Session.Events

/-!
# The life of an execution

The status of an execution, its output, its failure and its history are set in different places, and go
together at every moment (`Coherent`): between any calls, after errors and timeouts, and whenever it is
seen while a call is under way. The status moves one way, and an execution that is over stays as it is
(`calls_lifecycle`).
-/

namespace StepFlow

namespace Status

/-- The moves of a status. -/
inductive Moves : Status → Status → Prop where
  | begins : Moves pending running
  | succeeds : Moves running success
  | fails : Moves running errored

theorem moves_of {a b : Status} (hpending : a ≠ pending → b ≠ pending)
    (hterminal : a.isTerminal = true → b = a) : Relation.ReflTransGen Moves a b := by
  have hbegun : Relation.ReflTransGen Moves pending running := .single .begins
  cases a with
  | pending =>
    cases b with
    | pending => exact .refl
    | running => exact hbegun
    | success => exact hbegun.tail .succeeds
    | errored => exact hbegun.tail .fails
  | running =>
    cases b with
    | pending => exact (hpending nofun rfl).elim
    | running => exact .refl
    | success => exact .single .succeeds
    | errored => exact .single .fails
  | success | errored => rw [hterminal rfl]

end Status

theorem State.succeed_or_final (s : State) (hend : s.isEnd = true) (h : ∀ f, s.action ≠ .fail f) :
    (∃ f, s.action = .succeed f) ∨ s.transition? = some .final := by
  obtain ⟨comment, action⟩ := s
  cases action with
  | succeed f => exact .inl ⟨f, rfl⟩
  | fail f => exact (h f rfl).elim
  | choice => cases hend
  | pass | task | wait | map | parallel => exact .inr (of_decide_eq_true hend)

namespace Execution
open Process

/-- The last state that is done has that record and that action. -/
def LastDone (w : Workflow) (x : Execution) (r : StateRecord) (action : Action) : Prop :=
  x.context.states.getLast? = some r ∧ ∃ state, w.state? r.name = some state ∧ state.action = action

/-- Status, output, failure and history of an execution of `w` go together. -/
structure Coherent (w : Workflow) (x : Execution) : Prop where
  success : x.status = .success ↔ x.output.isSome ∧ x.failure = none
  succeeded : x.status = .success → ∃ r state, x.context.states.getLast? = some r ∧
    w.state? r.name = some state ∧ ((∃ f, state.action = .succeed f) ∨ state.transition? = some .final) ∧
    r.output = x.output
  failure : ∀ f, x.failure = some f ↔ ∃ r s, x.LastDone w r (.fail s) ∧ f = ⟨s.error, s.cause⟩
  failed : ∀ r s, x.LastDone w r (.fail s) → x.status = .errored ∧ x.output = some r.input
  /-- Without an output, the last state to be entered was never finished. -/
  aborted : x.status = .errored → x.output = none → x.context.state.enteredTime.isSome ∧
    x.context.state.finishedTime = none ∧ x.context.state.output = none

variable {setting : Setting} {w : Workflow} {x₀ x y : Execution} {as init : List Account} {a : Account}
  {o : Outcome}

theorem last_record {states : List StateRecord}
    (h : states.map StateRecord.gist = (init ++ [a]).filterMap Account.gist?)
    (hway : a.way.outcome? = some o) :
    ∃ r, states.getLast? = some r ∧ r.name = a.name ∧ r.input = a.input ∧ r.output = some o.output := by
  have hgist : a.gist? = some (a.name, a.input, some o.output) := by rw [Account.gist?, hway]; rfl
  have hlast := congrArg List.getLast? h
  rw [List.getLast?_map, List.filterMap_append, List.filterMap_cons_some hgist, List.filterMap_nil,
    List.getLast?_concat] at hlast
  obtain ⟨r, hr, hrecord⟩ := Option.map_eq_some_iff.1 hlast
  simp only [StateRecord.gist, Prod.mk.injEq] at hrecord
  exact ⟨r, hr, hrecord⟩

theorem Recounted.not_fail (h : Recounted setting x₀ x as) (ha : a ∈ as)
    (hway : a.way.outcome? = some o) (hnext : o.next.isSome) {state : State}
    (hstate : x₀.workflow.state? a.name = some state) : ∀ s, state.action ≠ .fail s := by
  intro s hs
  obtain ⟨_, _, state', -, hstate', hof⟩ := h.visits a ha
  cases hstate.symm.trans hstate'
  rw [(hof.admits o hway).fail s hs] at hnext
  cases hnext

/-- While an execution is going on, or where it has been aborted, no Fail state has been done last. -/
theorem Recounted.not_lastDone (h : Recounted setting x₀ x as)
    (hlast : ∀ a ∈ as.getLast?, ∀ o, a.way.outcome? = some o → o.next.isSome) (r : StateRecord)
    (s : FailState) : ¬ LastDone x₀.workflow x r (.fail s) := by
  -- The last state that is done is the last that was visited, or the one before it.
  have done {init : List Account} {b : Account} {o : Outcome} (hb : b ∈ as)
      (hhistory : x.context.states.map StateRecord.gist = (init ++ [b]).filterMap Account.gist?)
      (hway : b.way.outcome? = some o) (hnext : o.next.isSome) :
      ¬ LastDone x₀.workflow x r (.fail s) := by
    rintro ⟨hr, state, hstate, haction⟩
    obtain ⟨r', hr', hname, -, -⟩ := last_record hhistory hway
    cases hr.symm.trans hr'
    exact h.not_fail hb hway hnext (hname ▸ hstate) s haction
  have empty (h : x.context.states.map StateRecord.gist = []) : ¬ LastDone x₀.workflow x r (.fail s) := by
    rw [List.map_eq_nil_iff] at h
    rintro ⟨hr, -⟩
    rw [h] at hr
    cases hr
  have hhistory := h.history
  have hlinks := h.links
  rcases List.eq_nil_or_concat' as with rfl | ⟨init, a, rfl⟩
  · exact empty hhistory
  cases hway : a.way.outcome? with
  | some o => exact done (by simp) hhistory hway (hlast a (by simp) o hway)
  | none =>
    have hgist : a.gist? = none := by rw [Account.gist?, hway]; rfl
    rw [List.filterMap_append, List.filterMap_cons_none hgist, List.filterMap_nil, List.append_nil] at hhistory
    rcases List.eq_nil_or_concat' init with rfl | ⟨init, b, rfl⟩
    · exact empty hhistory
    · obtain ⟨-, -, hlink⟩ := List.isChain_append.1 hlinks
      exact done (by simp) hhistory (hlink b (by simp) a (by simp)) rfl

theorem coherent_of_none (output : x.output = none) (failure : x.failure = none)
    (status : x.status ≠ .success) (hnone : ∀ r s, ¬ LastDone w x r (.fail s))
    (aborted : x.status = .errored → x.context.state.enteredTime.isSome ∧
      x.context.state.finishedTime = none ∧ x.context.state.output = none) : Coherent w x where
  success := by simp [output, status]
  succeeded h := (status h).elim
  failure f := by
    rw [failure]
    constructor
    · nofun
    · rintro ⟨r, s, hlast, -⟩
      exact (hnone r s hlast).elim
  failed r s hlast := (hnone r s hlast).elim
  aborted hstatus _ := aborted hstatus

/-- Execution, visits and history go together at every end of a step. -/
theorem Recounted.coherent (h : Recounted setting x₀ x as) : Coherent x₀.workflow x := by
  have hstands := h.stands
  have hnone := h.not_lastDone
  cases hlast : as.getLast? with
  | none =>
    rw [hlast] at hstands hnone
    cases hstands with
    | fresh status output failure =>
      exact coherent_of_none output failure (by simp [status]) (hnone fun _ h => nomatch h) (by simp [status])
  | some a =>
    rw [hlast] at hstands hnone
    obtain ⟨init, hinit⟩ := List.getLast?_eq_some_iff.1 hlast
    have hhistory := hinit ▸ h.history
    have ha : a ∈ as := List.mem_of_getLast? hlast
    cases hstands with
    | moved way status output failure =>
      refine coherent_of_none output failure (by simp [status]) (hnone ?_) (by simp [status])
      rintro _ ⟨⟩ o ho
      cases way.symm.trans ho
      rfl
    | aborted way status output failure _ _ entered unfinished =>
      refine coherent_of_none output failure (by simp [status]) (hnone ?_) fun _ => ⟨entered, unfinished⟩
      rintro _ ⟨⟩ o ho
      cases way.symm.trans ho
    | @succeeded _ state v way found action status output failure =>
      obtain ⟨r, hr, hname, -, hout⟩ := last_record hhistory way
      rw [← hname] at found
      have hnot (r' : StateRecord) (s : FailState) : ¬ LastDone x₀.workflow x r' (.fail s) := by
        rintro ⟨hr', state', hstate', hs⟩
        cases hr.symm.trans hr'
        cases found.symm.trans hstate'
        exact action s hs
      have hend : state.isEnd = true := by
        obtain ⟨_, _, state', -, hstate', hof⟩ := h.visits a ha
        rw [← hname] at hstate'
        cases found.symm.trans hstate'
        exact (hof.admits _ way).next
      refine ⟨by simp [status, output, failure], fun _ => ?_, fun f => ?_, fun r' s hs => (hnot r' s hs).elim,
        by simp [status]⟩
      · exact ⟨r, state, hr, found, state.succeed_or_final hend action, hout.trans output.symm⟩
      · rw [failure]
        exact ⟨nofun, fun ⟨r', s, hs, _⟩ => (hnot r' s hs).elim⟩
    | @failed _ state f way found action status output failure =>
      obtain ⟨r, hr, hname, hinput, -⟩ := last_record hhistory way
      rw [← hname] at found
      have hlastDone : LastDone x₀.workflow x r (.fail f) := ⟨hr, state, found, action⟩
      have hunique (r' : StateRecord) (s : FailState) (hs : LastDone x₀.workflow x r' (.fail s)) :
          r' = r ∧ s = f := by
        obtain ⟨hr', state', hstate', hs⟩ := hs
        cases hr.symm.trans hr'
        cases found.symm.trans hstate'
        cases hs.symm.trans action
        exact ⟨rfl, rfl⟩
      refine ⟨by simp [status, failure], by simp [status], fun f' => ?_, fun r' s hs => ?_, by simp [output]⟩
      · rw [failure]
        constructor
        · rintro ⟨⟩
          exact ⟨r, f, hlastDone, rfl⟩
        · rintro ⟨r', s, hs, rfl⟩
          rw [(hunique r' s hs).2]
      · rw [(hunique r' s hs).1, hinput]
        exact ⟨status, output⟩

theorem ComesTo.seen {α : Type} {more : List Account}
    (h : ComesTo (α := α) setting x₀ as more (.cut y)) : Coherent x₀.workflow y ∧ y.status = .running := by
  cases h with
  | cut hy hlast hrunning =>
    obtain ⟨a, ha, hway⟩ := Option.map_eq_some_iff.1 hlast
    have hundone : a.way.outcome? = none := by rw [hway]; rfl
    have hstands := hy.stands
    have hnone := hy.not_lastDone
    rw [List.getLast?_append, ha, Option.some_or] at hstands hnone
    refine ⟨?_, hrunning⟩
    cases hstands with
    | moved way | succeeded way | failed way => cases hundone.symm.trans way
    | aborted _ _ output failure =>
      refine coherent_of_none output failure (by simp [hrunning]) (hnone ?_) (by simp [hrunning])
      rintro _ ⟨⟩ o ho
      cases hundone.symm.trans ho

/-- What is seen while a step or a run is under way. -/
theorem Recounted.seen {budget : Nat} {acts : List Act} (h : Recounted setting x₀ x as)
    (hw : x₀.workflow.Closed)
    (hdoes : (Execution.step setting budget x).Does acts (.cut y) ∨
      (Execution.drive setting budget x).Does acts (.cut y)) :
    x.isEnd = false ∧ Coherent x₀.workflow y ∧ y.status = .running := by
  cases hend : x.isEnd with
  | true =>
    rcases hdoes with hdoes | hdoes
    · simp only [Execution.step, stepVia, stepWithVia, hend, if_true] at hdoes
      cases hdoes
    · cases budget with
      | zero => cases hdoes
      | succ budget =>
        simp only [Execution.drive, driveVia, hend, if_true] at hdoes
        cases hdoes
  | false =>
    refine ⟨rfl, ?_⟩
    rcases hdoes with hdoes | hdoes
    · obtain ⟨a, -, ha⟩ := h.step hw hend hdoes
      exact ha.seen
    · obtain ⟨more, -, -, hmore⟩ := h.drive hw hdoes
      exact hmore.seen

theorem Stepped.begun {z : Execution} {result : Except RuntimeError Status}
    (hx : x.status ≠ .pending) (h : x.Stepped setting z result) : z.status ≠ .pending := by
  cases h with
  | ended => exact hx
  | moved hy =>
    intro hpending
    cases hy.status.symm.trans hpending
  | lost | aborted | dangling | succeeded | failed => nofun

end Execution

namespace Session
open Execution Process

variable {ω : Type} {setting : Setting} {runners : Runners ω} {budget : Nat} {s s' : Session ω}
  {w : Workflow}

/-- Status, output, failure and history go together after any calls and during the next; what the events
tell of a success is that the last state has not been left through a catcher. The status moves from
pending to running and from there to an end, at which everything stays as it is. -/
theorem calls_lifecycle {g : Definition.Graph} (hg : Workflow.ofDefinition g = .ok w) (world : ω)
    (id startTime : String) (input : Document) (cs : List Call) (replies : List Reply)
    (h : (start (.start w id startTime input) world).calls setting runners budget cs =
      some (s, replies)) (more : Nat) :
    Coherent w s.execution ∧
    (∃ visits, (s.own.filter fun event => !event.closes) =
        (if visits = [] then [] else [.workflowStarted input]) ++ visits.flatMap Account.told ∧
      (s.execution.status = .success → ∃ last v, visits.getLast? = some last ∧
        last.way = .led ⟨none, v⟩ ∧ s.execution.output = some v)) ∧
    (∀ acts y, (Execution.step setting more s.execution).Does acts (.cut y) ∨
        (drive setting more s.execution).Does acts (.cut y) →
      Coherent w y ∧ Relation.ReflTransGen Status.Moves s.execution.status y.status) ∧
    (∀ cs' s' replies', s.calls setting runners more cs' = some (s', replies') →
      Relation.ReflTransGen Status.Moves s.execution.status s'.execution.status ∧
        (s.execution.isEnd = true → s'.execution = s.execution ∧ s'.timeline.calls = s.timeline.calls)) ∧
    (s.execution.isEnd = true → s.step setting runners more = some (s, .ok s.execution.status)) := by
  have hw : w.Valid := Workflow.valid_of_ofDefinition hg
  have hfresh : (Execution.start w id startTime input).Fresh := fresh_ofContext hw.closed rfl false
  obtain ⟨visits, hvisits⟩ := calls_recounts hfresh hw.closed world h
  refine ⟨hvisits.execution.coherent, ⟨visits, hvisits.own, fun hsuccess => ?_⟩, fun acts y hdoes => ?_,
    fun cs' s' replies' h' => ⟨?_, fun hend => ?_⟩, step_of_end⟩
  · have hstands := hvisits.execution.stands
    cases hlast : visits.getLast? with
    | none =>
      rw [hlast] at hstands
      cases hstands with
      | fresh status => cases status.symm.trans hsuccess
    | some last =>
      rw [hlast] at hstands
      cases hstands with
      | moved _ status | failed _ _ _ status | aborted _ status => cases status.symm.trans hsuccess
      | @succeeded _ _ v way _ _ _ output => exact ⟨last, v, rfl, Way.led_of_outcome? way, output⟩
  · obtain ⟨hend, hcoherent, hrunning⟩ := hvisits.execution.seen hw.closed hdoes
    refine ⟨hcoherent, Status.moves_of (fun _ => by simp [hrunning]) fun hterminal => ?_⟩
    cases hend.symm.trans hterminal
  · refine Status.moves_of (fun hbegun => ?_) fun hend => ?_
    · exact calls_invariant (P := fun x => x.status ≠ .pending) (fun _ _ _ hx hz => hz.begun hx) h' hbegun
    · rw [(calls_quiet hend h').1]
  · obtain ⟨hexecution, hcalls, -⟩ := calls_quiet hend h'
    exact ⟨hexecution, hcalls⟩

/-- A state that passes its input on to a Fail state. -/
def passThenFail : Definition.Graph :=
  .mk ⟨"first", none, none, none⟩
    [("first", .pass ⟨⟨none, .null, .null⟩, ⟨some "second", false⟩, .null, none, none⟩),
    ("second", .fail ⟨none, some "Broken", none⟩)]

/-- A step, a run to the end in the Fail state, and a step after it. -/
theorem calls_lifecycle_passThenFail :
    ∃ (w : Workflow) (s : Session Unit) (replies : List Reply),
      Workflow.ofDefinition passThenFail = .ok w ∧
        (start (.start w "" "" .null) ()).calls default (fun _ _ => ((), ⟨0, .ok ⟨0, ""⟩⟩)) 2
          [.step, .run, .step] = some (s, replies) ∧
        s.execution.failure = some ⟨some "Broken", none⟩ ∧ Coherent w s.execution ∧
        s.step default (fun _ _ => ((), ⟨0, .ok ⟨0, ""⟩⟩)) 2 = some (s, .ok s.execution.status) := by
  have hgraph : ∃ w, Workflow.ofDefinition passThenFail = .ok w ∧
      ((start (.start w "" "" .null) ()).calls default (fun _ _ => ((), ⟨0, .ok ⟨0, ""⟩⟩)) 2
        [.step, .run, .step]).map (fun r => (r.1.execution.failure, r.1.execution.isEnd)) =
      some (some ⟨some "Broken", none⟩, true) := ⟨_, rfl, rfl⟩
  obtain ⟨w, hw, hrun⟩ := hgraph
  obtain ⟨⟨s, replies⟩, h, hended⟩ := Option.map_eq_some_iff.1 hrun
  obtain ⟨hfailure, hend⟩ := Prod.ext_iff.1 hended
  obtain ⟨hcoherent, -, -, -, hstep⟩ := calls_lifecycle hw () "" "" .null _ _ h 2
  exact ⟨w, s, replies, hw, h, hfailure, hcoherent, hstep hend⟩

end Session
end StepFlow
