import StepFlow.Proofs.Execution.Recount

/-!
# Order at every depth

An execution is orderly when all that it does is an opening and one account after the other, each of a
visit in which an attempt does all that it does before the next attempt and before what follows, and when
so is every nested execution that one of the attempts has launched. Every execution is (`drive_orderly`).
-/

namespace StepFlow

theorem length_actsWithin_le (b : Branch) (acts : List Act) : (actsWithin b acts).length ≤ acts.length :=
  List.length_filterMap_le ..

theorem Account.length_attempt_lt {a : Account} {acts : List Act} (h : acts ∈ a.attempts) :
    acts.length < a.acts.length := by
  have hretries (name : String) (retries : List Retry) (h : ∃ t ∈ retries, t.acts = acts) :
      acts.length ≤ (retriesActs name retries).length := by
    obtain ⟨t, ht, rfl⟩ := h
    have hretry : List.Sublist (t.acts ++ [.event [] (t.told name)]) (retriesActs name retries) :=
      List.sublist_flatten_of_mem (List.mem_map.2 ⟨t, ht, rfl⟩)
    exact ((List.sublist_append_left ..).trans hretry).length_le
  unfold Account.attempts at h
  simp only [Account.acts, List.length_cons, List.length_append]
  rcases List.mem_append.1 h with h | h
  · have hle := hretries a.name a.retries (List.mem_map.1 h)
    omega
  · rw [List.mem_singleton.1 h]
    omega

theorem Account.length_acts_le {visits : List Account} {a : Account} (h : a ∈ visits) :
    a.acts.length ≤ (visits.flatMap Account.acts).length :=
  (List.sublist_flatten_of_mem (List.mem_map_of_mem h)).length_le

namespace Execution
open Process

/-- The accounts are those of visits of states of the graph. -/
def Visiting (setting : Setting) (w : Workflow) (visits : List Account) : Prop :=
  ∀ a ∈ visits, ∃ budget y state, y.workflow = w ∧ w.state? a.name = some state ∧
    a.Of (drive setting budget) setting y state

mutual

/-- All that `x` does, attempt by attempt. -/
inductive Orderly (setting : Setting) : Execution → List Act → Prop where
  | intro {x : Execution} (visits : List Account) (visiting : Visiting setting x.workflow visits)
      (places : ∀ a ∈ visits, ∀ (k : Nat) (acts : List Act), a.attempts[k]? = some acts →
        ∀ act ∈ acts, act.InAttempt k)
      (nested : ∀ a ∈ visits, ∀ (k : Nat) (acts : List Act), a.attempts[k]? = some acts → ∀ i : Nat,
        Inner setting x.workflow (actsWithin ⟨k, i⟩ acts)) :
      Orderly setting x (x.performed visits)

/-- All that is done in one place among the nested executions of an attempt: nothing, or what the one that
was launched there does. -/
inductive Inner (setting : Setting) : Workflow → List Act → Prop where
  | idle (w : Workflow) : Inner setting w []
  | launched {w v : Workflow} {y z : Execution} {acts : List Act} (hv : w.Nests v) (hz : y.Launches v z)
      (h : Orderly setting z acts) : Inner setting w acts

end

variable {setting : Setting} {budget : Nat} {x x₀ y z : Execution} {as more : List Account}
  {acts : List Act}

theorem ComesTo.visiting_all {α : Type} {e : Ending Execution (Execution × Except RuntimeError α)}
    (h : ComesTo setting x₀ as more e) : Visiting setting x₀.workflow (as ++ more) := by
  cases h with
  | ok _ hz | error hz | cut hz => exact hz.visits

theorem ComesTo.visiting {α : Type} {e : Ending Execution (Execution × Except RuntimeError α)}
    (h : ComesTo setting x₀ as more e) : Visiting setting x₀.workflow more :=
  fun a ha => h.visiting_all a (List.mem_append_right _ ha)

theorem Launches.nested {v : Workflow} (h : x.Launches v z) : z.nested = true := by
  cases h <;> rfl

theorem Launches.workflow {v : Workflow} (h : x.Launches v z) : z.workflow = v := by
  cases h <;> rfl

theorem Launches.fresh {v : Workflow} (hv : v.Closed) (h : x.Launches v z) : z.Fresh := by
  cases h with
  | iteration s v effective index item =>
    refine fresh_ofContext hv ?_ true
    cases s.itemSelector <;> rfl
  | branch v effective => exact fresh_ofContext hv rfl true

theorem length_visits_le (x : Execution) (visits : List Account) :
    (visits.flatMap Account.acts).length ≤ (x.performed visits).length := by
  unfold performed
  split
  · rename_i hnil
    simp [hnil]
  · simp

/-- What an execution does from its beginning on. -/
theorem drive_performed (hx : x.Fresh) (hw : x.workflow.Closed)
    {e : Ending Execution (Execution × Except RuntimeError Document)}
    (h : (drive setting budget x).Does acts e) :
    ∃ visits, acts = x.performed visits ∧ Visiting setting x.workflow visits := by
  obtain ⟨visits, rfl, hvisited, hvisits⟩ := hx.recounted.drive hw h
  have hne : visits ≠ [] := fun hnil => by cases hx.isEnd.symm.trans (hvisited hnil)
  exact ⟨visits, (if_neg hne).symm, hvisits.visiting⟩

/-- Visits are orderly to any depth: what a nested execution does is but a part of what its attempt does. -/
theorem Visiting.orderly {visits : List Account} (hw : x.workflow.Valid)
    (h : Visiting setting x.workflow visits) :
    Orderly setting x (x.performed visits) := by
  induction hlength : (visits.flatMap Account.acts).length using Nat.strong_induction_on
    generalizing x visits with
  | _ length ih =>
    refine .intro visits h (fun a ha k acts hk => ?_) fun a ha k acts hk i => ?_
    · obtain ⟨budget, y, state, -, -, hof⟩ := h a ha
      exact hof.places hk
    obtain ⟨budget, y, state, -, hstate, hof⟩ := h a ha
    by_cases hne : actsWithin ⟨k, i⟩ acts = []
    · exact hne ▸ .idle _
    have hnonempty : acts ≠ [] := by
      rintro rfl
      exact hne rfl
    obtain ⟨run, y, e, hrun, -, hdoes⟩ := hof.attempt hk hnonempty
    obtain ⟨z, e', hlaunches, hdrive⟩ := (attempt_within hrun hdoes i).resolve_left hne
    obtain ⟨v, hv, hz⟩ := hlaunches.runs
    have hnests := hv.nests hstate
    have hvalid : z.workflow.Valid := hz.workflow ▸ hw.nested hnests
    obtain ⟨more, hacts, hmore⟩ := drive_performed (hz.fresh (hw v hnests)) hvalid.closed hdrive
    -- What the nested execution does is less than what its visit does, which has an event of its own.
    refine .launched hnests hz ?_
    rw [hacts]
    refine ih _ ?_ hvalid hmore rfl
    have hwithin := length_actsWithin_le ⟨k, i⟩ acts
    have hattempt := Account.length_attempt_lt (List.mem_of_getElem? hk)
    have hvisit := Account.length_acts_le ha
    have hperformed := length_visits_le z more
    rw [hacts] at hwithin
    omega

theorem drive_orderly (hx : x.Fresh) (hw : x.workflow.Valid)
    {e : Ending Execution (Execution × Except RuntimeError Document)}
    (h : (drive setting budget x).Does acts e) : Orderly setting x acts := by
  obtain ⟨visits, rfl, hvisits⟩ := drive_performed hx hw.closed h
  exact hvisits.orderly hw

/-- Only the start of an execution that is not nested is told of besides states. -/
theorem Orderly.ofState (h : Orderly setting x acts) {site : Site} {event : Event}
    (hevent : .event site event ∈ acts) :
    event.OfState ∨ site = [] ∧ .event site event ∈ x.opening := by
  induction hlength : acts.length using Nat.strong_induction_on generalizing x acts site with
  | _ length ih =>
    cases h with
    | intro visits visiting places nested =>
      have hvisited := length_visits_le x visits
      unfold performed at hevent
      split at hevent
      · cases hevent
      rcases List.mem_append.1 hevent with hopening | hvisits
      · refine .inr ⟨?_, hopening⟩
        unfold opening at hopening
        split at hopening
        · cases List.mem_singleton.1 hopening
          rfl
        · cases hopening
      obtain ⟨a, ha, hact⟩ := List.mem_flatMap.1 hvisits
      rcases Account.mem_acts hact with ⟨event', htold, heq⟩ | ⟨k, acts, hk, hact⟩
      · cases heq
        exact .inl (a.ofState_told _ htold)
      cases places a ha k acts hk _ hact with
      | event i site' =>
        have hwithin : .event site' event ∈ actsWithin ⟨k, i⟩ acts :=
          List.mem_filterMap.2 ⟨_, hact, by simp [Act.within?]⟩
        have hshort : (actsWithin ⟨k, i⟩ acts).length < length := by
          have hattempt := Account.length_attempt_lt (List.mem_of_getElem? hk)
          have hvisit := Account.length_acts_le ha
          have hlist := length_actsWithin_le ⟨k, i⟩ acts
          omega
        have hinner := nested a ha k acts hk i
        generalize actsWithin ⟨k, i⟩ acts = inner at hinner hwithin hshort
        cases hinner with
        | idle => cases hwithin
        | launched _ hz h =>
          refine .inl ((ih _ hshort h hwithin rfl).resolve_right fun hopening => ?_)
          have hnone := hopening.2
          simp [opening, hz.nested] at hnone

end Execution
end StepFlow
