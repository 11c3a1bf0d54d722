import StepFlow.Proofs.Definition.Readable
import StepFlow.Proofs.Path.Canonical
import StepFlow.Proofs.Workflow.Closed

/-!
# Workflows and canonical documents

What a workflow itself puts into documents, by its templates and the results of its Pass states, is canonical
when it is made from a definition that has been read (`Workflow.canonical_of_ofDefinition`): every state at any
depth is made from one of the definition (`Workflow.Contains.definition`).
-/

namespace StepFlow

/-- What the state puts into documents is canonical. -/
def Action.Canonical : Action → Prop
  | .pass s => (∀ t ∈ s.parameters, t.Canonical) ∧ ∀ d ∈ s.result, d.Canonical
  | .task s => (∀ t ∈ s.parameters, t.Canonical) ∧ ∀ t ∈ s.results.selector, t.Canonical
  | .map s _ => (∀ t ∈ s.itemSelector, t.Canonical) ∧ ∀ t ∈ s.results.selector, t.Canonical
  | .parallel s _ => ∀ t ∈ s.results.selector, t.Canonical
  | .choice _ | .wait _ | .succeed _ | .fail _ => True

def Workflow.Canonical (w : Workflow) : Prop := ∀ a, w.Contains a → a.Canonical

namespace Workflow.Canonical

variable {w v : Workflow}

theorem iterator {s : MapState} (h : w.Canonical) (hv : w.Contains (.map s v)) : v.Canonical :=
  fun a ha => h a (.iterator hv ha)

theorem branch {s : ParallelState} {branches : List Workflow} (h : w.Canonical)
    (hbranches : w.Contains (.parallel s branches)) (hv : v ∈ branches) : v.Canonical :=
  fun a ha => h a (.branch hbranches hv ha)

end Workflow.Canonical

/-! ### Definitions -/

theorem Build.canonical_template {field : Option Document} {o : Option Template}
    (h : template field = .ok o) : ∀ t ∈ o, t.Canonical := by
  intro t ht
  cases field with
  | none =>
    cases h
    cases ht
  | some d =>
    obtain ⟨t', ht', rfl⟩ := Except.map_eq_ok h
    cases ht
    exact Template.canonical_of_ofDocument (Except.mapError_eq_ok ht')

theorem Build.canonical_pass {d : Definition.Pass} {p : PassState} (hd : d.Readable) (h : pass d = .ok p) :
    (Action.pass p).Canonical := by
  obtain ⟨transition, -, h⟩ := Except.bind_eq_ok h
  obtain ⟨filters, -, h⟩ := Except.bind_eq_ok h
  obtain ⟨path, -, h⟩ := Except.bind_eq_ok h
  obtain ⟨parameters, hparameters, h⟩ := Except.bind_eq_ok h
  cases h
  exact ⟨canonical_template hparameters, fun d hresult => (hd.result d hresult).canonical⟩

theorem Build.canonical_task {d : Definition.Task} {t : TaskState} (h : task d = .ok t) :
    (Action.task t).Canonical := by
  unfold task at h
  split at h
  · cases h
  obtain ⟨transition, -, h⟩ := Except.bind_eq_ok h
  obtain ⟨filters, -, h⟩ := Except.bind_eq_ok h
  obtain ⟨path, -, h⟩ := Except.bind_eq_ok h
  obtain ⟨parameters, hparameters, h⟩ := Except.bind_eq_ok h
  obtain ⟨selector, hselector, h⟩ := Except.bind_eq_ok h
  obtain ⟨recovery, -, h⟩ := Except.bind_eq_ok h
  obtain ⟨credentials, -, h⟩ := Except.bind_eq_ok h
  cases h
  exact ⟨canonical_template hparameters, canonical_template hselector⟩

theorem Build.canonical_map {d : Definition.Map} {transition : Transition} {m : MapState} (v : Workflow)
    (h : map d transition = .ok m) : (Action.map m v).Canonical := by
  obtain ⟨filters, -, h⟩ := Except.bind_eq_ok h
  obtain ⟨path, -, h⟩ := Except.bind_eq_ok h
  obtain ⟨itemsPath, -, h⟩ := Except.bind_eq_ok h
  obtain ⟨itemSelector, hitemSelector, h⟩ := Except.bind_eq_ok h
  obtain ⟨selector, hselector, h⟩ := Except.bind_eq_ok h
  obtain ⟨recovery, -, h⟩ := Except.bind_eq_ok h
  cases h
  exact ⟨canonical_template hitemSelector, canonical_template hselector⟩

theorem Build.canonical_parallel {d : Definition.Parallel} {transition : Transition} {p : ParallelState}
    (ws : List Workflow) (h : parallel d transition = .ok p) : (Action.parallel p ws).Canonical := by
  obtain ⟨filters, -, h⟩ := Except.bind_eq_ok h
  obtain ⟨path, -, h⟩ := Except.bind_eq_ok h
  obtain ⟨selector, hselector, h⟩ := Except.bind_eq_ok h
  obtain ⟨recovery, -, h⟩ := Except.bind_eq_ok h
  cases h
  exact canonical_template hselector

theorem mem_branchesOfDefinitions {gs : List Definition.Graph} {ws : List Workflow}
    (h : branchesOfDefinitions gs = .ok ws) : ∀ w ∈ ws, ∃ g ∈ gs, Workflow.ofDefinition g = .ok w := by
  induction gs generalizing ws with
  | nil =>
    cases h
    nofun
  | cons g gs ih =>
    obtain ⟨w, hw, h⟩ := Except.bind_eq_ok h
    obtain ⟨ws', hws', h⟩ := Except.bind_eq_ok h
    cases h
    refine List.forall_mem_cons.2 ⟨⟨g, List.mem_cons_self .., hw⟩, fun w' hw' => ?_⟩
    obtain ⟨g', hg', hread⟩ := ih hws' w' hw'
    exact ⟨g', List.mem_cons_of_mem _ hg', hread⟩

theorem mem_statesOfDefinitions {ds : List (String × Definition.State)} {ss : List (String × State)}
    (h : statesOfDefinitions ds = .ok ss) :
    ∀ entry ∈ ss, ∃ entry' ∈ ds, State.ofDefinition entry'.2 = .ok entry.2 := by
  induction ds generalizing ss with
  | nil =>
    cases h
    nofun
  | cons entry ds ih =>
    obtain ⟨s, hs, h⟩ := Except.bind_eq_ok h
    obtain ⟨ss', hss', h⟩ := Except.bind_eq_ok h
    cases h
    refine List.forall_mem_cons.2 ⟨⟨entry, List.mem_cons_self .., Except.mapError_eq_ok hs⟩, fun e he => ?_⟩
    obtain ⟨e', he', hread⟩ := ih hss' e he
    exact ⟨e', List.mem_cons_of_mem _ he', hread⟩

namespace State

variable {s : State}

theorem canonical_of_ofDefinition {d : Definition.State} (hd : d.Readable) (h : ofDefinition d = .ok s) :
    s.action.Canonical := by
  cases d with
  | pass d =>
    obtain ⟨p, hp, rfl⟩ := Except.map_eq_ok h
    exact Build.canonical_pass hd hp
  | task d =>
    obtain ⟨t, ht, rfl⟩ := Except.map_eq_ok h
    exact Build.canonical_task ht
  | choice | wait | succeed =>
    obtain ⟨_, -, rfl⟩ := Except.map_eq_ok h
    trivial
  | fail =>
    cases h
    trivial
  | map d iterator =>
    obtain ⟨transition, -, h⟩ := Except.bind_eq_ok h
    obtain ⟨v, -, h⟩ := Except.bind_eq_ok h
    obtain ⟨m, hm, h⟩ := Except.bind_eq_ok h
    cases h
    exact Build.canonical_map v hm
  | parallel d branches =>
    unfold ofDefinition at h
    split at h
    · cases h
    obtain ⟨transition, -, h⟩ := Except.bind_eq_ok h
    obtain ⟨ws, -, h⟩ := Except.bind_eq_ok h
    obtain ⟨p, hp, h⟩ := Except.bind_eq_ok h
    cases h
    exact Build.canonical_parallel ws hp

theorem iterator_definition {d : Definition.State} {m : MapState} {v : Workflow} (hd : d.Readable)
    (h : ofDefinition d = .ok s) (hs : s.action = .map m v) :
    ∃ g : Definition.Graph, g.Readable ∧ Workflow.ofDefinition g = .ok v := by
  cases d with
  | map d g =>
    obtain ⟨transition, -, h⟩ := Except.bind_eq_ok h
    obtain ⟨v', hv', h⟩ := Except.bind_eq_ok h
    obtain ⟨m', -, h⟩ := Except.bind_eq_ok h
    cases h
    cases hs
    exact ⟨g, hd.2, hv'⟩
  | pass | task | choice | wait | succeed =>
    obtain ⟨_, -, rfl⟩ := Except.map_eq_ok h
    cases hs
  | fail =>
    cases h
    cases hs
  | parallel d branches =>
    unfold ofDefinition at h
    split at h
    · cases h
    obtain ⟨transition, -, h⟩ := Except.bind_eq_ok h
    obtain ⟨ws, -, h⟩ := Except.bind_eq_ok h
    obtain ⟨p, -, h⟩ := Except.bind_eq_ok h
    cases h
    cases hs

theorem branch_definition {d : Definition.State} {p : ParallelState} {ws : List Workflow}
    {w : Workflow} (hd : d.Readable) (h : ofDefinition d = .ok s) (hs : s.action = .parallel p ws) (hw : w ∈ ws) :
    ∃ g : Definition.Graph, g.Readable ∧ Workflow.ofDefinition g = .ok w := by
  cases d with
  | parallel d branches =>
    unfold ofDefinition at h
    split at h
    · cases h
    obtain ⟨transition, -, h⟩ := Except.bind_eq_ok h
    obtain ⟨ws', hws', h⟩ := Except.bind_eq_ok h
    obtain ⟨p', -, h⟩ := Except.bind_eq_ok h
    cases h
    cases hs
    obtain ⟨g, hg, hread⟩ := mem_branchesOfDefinitions hws' w hw
    exact ⟨g, Definition.branchesReadable_iff.1 hd.2 g hg, hread⟩
  | pass | task | choice | wait | succeed =>
    obtain ⟨_, -, rfl⟩ := Except.map_eq_ok h
    cases hs
  | fail =>
    cases h
    cases hs
  | map d g =>
    obtain ⟨transition, -, h⟩ := Except.bind_eq_ok h
    obtain ⟨v', -, h⟩ := Except.bind_eq_ok h
    obtain ⟨m', -, h⟩ := Except.bind_eq_ok h
    cases h
    cases hs

end State

namespace Workflow

/-- A state at any depth is made from one of the definition. -/
theorem Contains.definition {w : Workflow} {a : Action} (ha : w.Contains a) {g : Definition.Graph}
    (hg : g.Readable) (h : ofDefinition g = .ok w) :
    ∃ (d : Definition.State) (s : State), d.Readable ∧ State.ofDefinition d = .ok s ∧ s.action = a := by
  induction ha generalizing g with
  | @own w name state hstate =>
    cases g with
    | mk header states =>
      unfold ofDefinition at h
      split at h
      · cases h
      obtain ⟨ss, hss, h⟩ := Except.bind_eq_ok h
      obtain ⟨-, hstates⟩ := Build.graph_closed h
      rw [hstates] at hstate
      obtain ⟨entry, hentry, hread⟩ := mem_statesOfDefinitions hss _ hstate
      exact ⟨entry.2, state, Definition.statesReadable_iff.1 hg.2.2 entry hentry, hread, rfl⟩
  | iterator _ _ ihmap ih =>
    obtain ⟨d, s, hd, hs, haction⟩ := ihmap hg h
    obtain ⟨g', hg', hread⟩ := State.iterator_definition hd hs haction
    exact ih hg' hread
  | branch _ hb _ ihparallel ih =>
    obtain ⟨d, s, hd, hs, haction⟩ := ihparallel hg h
    obtain ⟨g', hg', hread⟩ := State.branch_definition hd hs haction hb
    exact ih hg' hread

theorem canonical_of_ofDefinition {w : Workflow} {g : Definition.Graph} (hg : g.Readable)
    (h : ofDefinition g = .ok w) : w.Canonical := by
  intro a ha
  obtain ⟨d, s, hd, hs, rfl⟩ := ha.definition hg h
  exact State.canonical_of_ofDefinition hd hs

end Workflow
end StepFlow
