import StepFlow.Proofs.Except
import StepFlow.Proofs.Workflow.Contains

/-!
# Closed graphs

A graph is closed when its first state and all targets of its states are states of its own. Graphs
that have been read and checked are closed at every depth (`valid_of_ofDefinition`): a nested graph is
closed by itself, whatever states the graphs around it have.
-/

namespace StepFlow
namespace Workflow

structure Closed (w : Workflow) : Prop where
  start : (w.state? w.startAt).isSome
  targets : ∀ {name : String} {state : State}, w.state? name = some state →
    ∀ next ∈ state.targets, (w.state? next).isSome

/-- The state `name` may lead to `next`, and both are states of the graph. -/
def Joins (w : Workflow) (name next : String) : Prop :=
  ∃ state, w.state? name = some state ∧ next ∈ state.targets ∧ (w.state? next).isSome

/-- `v` is the graph `w` itself or one that is nested in it, however deep. -/
inductive Nests (w : Workflow) : Workflow → Prop where
  | self : Nests w w
  | iterator {s : MapState} {v : Workflow} (h : w.Contains (.map s v)) : Nests w v
  | branch {s : ParallelState} {branches : List Workflow} {v : Workflow}
      (h : w.Contains (.parallel s branches)) (hv : v ∈ branches) : Nests w v

/-- Every graph at every depth is closed. -/
def Valid (w : Workflow) : Prop := ∀ v, w.Nests v → v.Closed

variable {u v w : Workflow}

theorem Contains.nested {a : Action} (h : w.Nests v) (ha : v.Contains a) : w.Contains a := by
  cases h with
  | self => exact ha
  | iterator h => exact .iterator h ha
  | branch h hv => exact .branch h hv ha

theorem Nests.trans (h : w.Nests v) (h' : v.Nests u) : w.Nests u := by
  cases h' with
  | self => exact h
  | iterator h' => exact .iterator (h'.nested h)
  | branch h' hu => exact .branch (h'.nested h) hu

namespace Valid

theorem closed (h : w.Valid) : w.Closed := h w .self

theorem nested (h : w.Valid) (hv : w.Nests v) : v.Valid := fun u hu => h u (hv.trans hu)

end Valid

end Workflow

/-- The graphs of a Map or Parallel state are closed at every depth. -/
def Action.Valid : Action → Prop
  | .map _ iterator => iterator.Valid
  | .parallel _ branches => ∀ b ∈ branches, b.Valid
  | _ => True

namespace Workflow

variable {w : Workflow}

theorem Valid.action {a : Action} (h : w.Valid) (ha : w.Contains a) : a.Valid := by
  cases a with
  | map s v => exact h.nested (.iterator ha)
  | parallel s branches => exact fun b hb => h.nested (.branch ha hb)
  | _ => trivial

theorem Contains.valid {a : Action} (h : w.Contains a)
    (hstates : ∀ name state, (name, state) ∈ w.states → state.action.Valid) : a.Valid := by
  induction h with
  | own h => exact hstates _ _ h
  | iterator h ha ih =>
    have hv : Valid _ := ih hstates
    exact hv.action ha
  | branch h hb ha ih => exact Valid.action (ih hstates _ hb) ha

/-- A closed graph is closed at every depth once the graphs of its own states are. -/
theorem Closed.valid (h : w.Closed)
    (hstates : ∀ name state, (name, state) ∈ w.states → state.action.Valid) : w.Valid := by
  intro v hv
  cases hv with
  | self => exact h
  | iterator hv => exact Valid.closed (hv.valid hstates)
  | branch hb hv => exact Valid.closed (hb.valid hstates v hv)

end Workflow

/-! ### Checked graphs -/

namespace Build

theorem targets_of_dangling? {all states : Table State} (h : dangling? all states = none)
    {name : String} {state : State} (hstate : (name, state) ∈ states) :
    ∀ next ∈ state.targets, (Table.get? next all).isSome := by
  fun_induction dangling? all states with
  | case1 => cases hstate
  | case2 => cases h
  | case3 name' state' rest hnone ih =>
    rcases List.mem_cons.1 hstate with heq | hrest
    · cases heq
      intro next hnext
      have hfound := List.find?_eq_none.1 hnone next hnext
      simpa [Option.isSome_iff_ne_none] using hfound
    · exact ih h hrest

theorem graph_closed {header : Definition.Header} {states : Table State} {w : Workflow}
    (h : graph header states = .ok w) : w.Closed ∧ w.states = states := by
  unfold graph at h
  split at h
  · cases h
  · rename_i hstart
    split at h
    · cases h
    · rename_i hdangling
      cases h
      refine ⟨⟨?_, fun hstate => ?_⟩, rfl⟩
      · simpa [Workflow.state?, Workflow.startAt, Workflow.states, Option.isSome_iff_ne_none] using hstart
      · exact targets_of_dangling? hdangling (Table.mem_of_get? hstate)

end Build

mutual

theorem State.valid_of_ofDefinition : ∀ {d : Definition.State} {s : State},
    State.ofDefinition d = .ok s → s.action.Valid
  | .pass d, s, h => by
    obtain ⟨_, -, rfl⟩ := Except.map_eq_ok h
    trivial
  | .task d, s, h => by
    obtain ⟨_, -, rfl⟩ := Except.map_eq_ok h
    trivial
  | .choice d, s, h => by
    obtain ⟨_, -, rfl⟩ := Except.map_eq_ok h
    trivial
  | .wait d, s, h => by
    obtain ⟨_, -, rfl⟩ := Except.map_eq_ok h
    trivial
  | .succeed d, s, h => by
    obtain ⟨_, -, rfl⟩ := Except.map_eq_ok h
    trivial
  | .fail d, s, h => by
    cases h
    trivial
  | .map d iterator, s, h => by
    obtain ⟨transition, -, h⟩ := Except.bind_eq_ok h
    obtain ⟨v, hv, h⟩ := Except.bind_eq_ok h
    obtain ⟨m, -, h⟩ := Except.bind_eq_ok h
    cases h
    exact Workflow.valid_of_ofDefinition hv
  | .parallel d branches, s, h => by
    unfold State.ofDefinition at h
    split at h
    · cases h
    obtain ⟨transition, -, h⟩ := Except.bind_eq_ok h
    obtain ⟨bs, hbs, h⟩ := Except.bind_eq_ok h
    obtain ⟨m, -, h⟩ := Except.bind_eq_ok h
    cases h
    exact branches_valid hbs

/-- Graphs that have been read and checked are closed at every depth. -/
theorem Workflow.valid_of_ofDefinition : ∀ {g : Definition.Graph} {w : Workflow},
    Workflow.ofDefinition g = .ok w → w.Valid
  | .mk header states, w, h => by
    unfold Workflow.ofDefinition at h
    split at h
    · cases h
    obtain ⟨ss, hss, h⟩ := Except.bind_eq_ok h
    obtain ⟨hclosed, hstates⟩ := Build.graph_closed h
    -- The graph is closed by its own check; those nested in it were checked as they were read.
    refine hclosed.valid ?_
    rw [hstates]
    exact states_valid hss

theorem branches_valid : ∀ {gs : List Definition.Graph} {ws : List Workflow},
    branchesOfDefinitions gs = .ok ws → ∀ w ∈ ws, w.Valid
  | [], ws, h => by
    cases h
    nofun
  | g :: rest, ws, h => by
    obtain ⟨w, hw, h⟩ := Except.bind_eq_ok h
    obtain ⟨ws', hws, h⟩ := Except.bind_eq_ok h
    cases h
    exact List.forall_mem_cons.2 ⟨Workflow.valid_of_ofDefinition hw, branches_valid hws⟩

theorem states_valid : ∀ {ds : List (String × Definition.State)} {ss : List (String × State)},
    statesOfDefinitions ds = .ok ss → ∀ name state, (name, state) ∈ ss → state.action.Valid
  | [], ss, h => by
    cases h
    nofun
  | (name, d) :: rest, ss, h => by
    obtain ⟨s, hs, h⟩ := Except.bind_eq_ok h
    obtain ⟨ss', hss, h⟩ := Except.bind_eq_ok h
    cases h
    intro name' state hstate
    rcases List.mem_cons.1 hstate with heq | hrest
    · cases heq
      exact State.valid_of_ofDefinition (Except.mapError_eq_ok hs)
    · exact states_valid hss name' state hrest

end

end StepFlow
