import StepFlow.Proofs.Document.Table
import StepFlow.Proofs.Workflow.Accepted

/-!
# The verdict on a graph

Reading a graph decides whether it is accepted, and with which error it is rejected
(`Workflow.ofDefinition_decides`). Every check passes over a list and stops at the first failure, so that reading
a graph comes down to `forM` on what is written (`Workflow.verdict_ofDefinition`), once the graphs nested in it are
decided.
-/

namespace StepFlow

/-! ### Checks that stop at the first failure -/

namespace Table.Sorted

variable {ε α : Type} {t before after : Table α} {name : String} {a : α}

theorem lt_of_split (h : Table.Sorted (before ++ (name, a) :: after)) :
    (∀ entry ∈ before, entry.1 < name) ∧ ∀ entry ∈ after, name < entry.1 := by
  rw [Table.Sorted, Table.names, List.map_append, List.map_cons] at h
  obtain ⟨-, hafter, hbefore⟩ := List.pairwise_append.1 h
  constructor
  · intro entry hentry
    exact hbefore entry.1 (List.mem_map_of_mem hentry) name (List.mem_cons_self ..)
  · intro entry hentry
    exact (List.pairwise_cons.1 hafter).1 entry.1 (List.mem_map_of_mem hentry)

/-- The first failure in a sorted table is that of the least name. -/
theorem forM_eq_error {f : String × α → Except ε Unit} {e : ε} (ht : t.Sorted) : forM t f = .error e ↔
    ∃ name a, (name, a) ∈ t ∧ (∀ entry ∈ t, entry.1 < name → f entry = .ok ()) ∧ f (name, a) = .error e := by
  rw [StepFlow.forM_eq_error]
  constructor
  · rintro ⟨before, ⟨name, a⟩, after, rfl, hbefore, ha⟩
    refine ⟨name, a, by simp, fun entry hentry hlt => ?_, ha⟩
    rcases List.mem_append.1 hentry with hentry | hentry
    · exact hbefore entry hentry
    · rcases List.mem_cons.1 hentry with rfl | hentry
      · exact absurd hlt (String.lt_irrefl _)
      · exact absurd hlt (String.lt_asymm (ht.lt_of_split.2 entry hentry))
  · rintro ⟨name, a, hmem, hleast, ha⟩
    obtain ⟨before, after, rfl⟩ := List.append_of_mem hmem
    exact ⟨before, (name, a), after, rfl,
      fun entry hentry => hleast entry (List.mem_append_left _ hentry) (ht.lt_of_split.1 entry hentry), ha⟩

end Table.Sorted

/-! ### Reading a graph -/

namespace Build

/-- Is the name one of those? -/
def checkName (names : List String) (flaw : WorkflowError) (name : String) : Except WorkflowError Unit :=
  if name ∈ names then .ok () else .error flaw

/-- The targets of a state, each of which must be one of the names. -/
def checkTargets (names : List String) (name : String) (targets : List String) : Except WorkflowError Unit :=
  forM targets fun target => checkName names (.unknownState name target) target

/-- Reads a state by itself. -/
def checkState (name : String) (d : Definition.State) : Except WorkflowError Unit :=
  verdict ((State.ofDefinition d).mapError (.invalidState name))

variable {names targets : List String} {name : String} {flaw e : WorkflowError}

theorem checkName_eq_ok : checkName names flaw name = .ok () ↔ name ∈ names := by
  unfold checkName
  split <;> simp_all

theorem checkName_eq_error : checkName names flaw name = .error e ↔ name ∉ names ∧ flaw = e := by
  unfold checkName
  split <;> simp_all

theorem checkTargets_eq_ok : checkTargets names name targets = .ok () ↔ ∀ target ∈ targets, target ∈ names :=
  forM_eq_ok.trans (forall₂_congr fun _ _ => checkName_eq_ok)

theorem checkTargets_eq_error : checkTargets names name targets = .error e ↔
    ∃ before target after, targets = before ++ target :: after ∧ (∀ t ∈ before, t ∈ names) ∧ target ∉ names ∧
      .unknownState name target = e := by
  rw [checkTargets, forM_eq_error]
  simp only [checkName_eq_ok, checkName_eq_error]

theorem checkName_names (t : Table State) (flaw : WorkflowError) (name : String) :
    checkName t.names flaw name = if (Table.get? name t).isNone then .error flaw else .ok () := by
  cases h : Table.get? name t with
  | none => exact checkName_eq_error.2 ⟨Table.get?_eq_none_iff.1 h, rfl⟩
  | some s =>
    exact checkName_eq_ok.2 (Decidable.not_not.1 fun hn => nomatch (Table.get?_eq_none_iff.2 hn).symm.trans h)

theorem checkTargets_eq_find? (all : Table State) (name : String) (targets : List String) :
    checkTargets all.names name targets =
      match targets.find? fun target => (Table.get? target all).isNone with
      | some target => .error (.unknownState name target)
      | none => .ok () := by
  induction targets with
  | nil => rfl
  | cons target targets ih =>
    rw [checkTargets, List.forM_cons, ← checkTargets, ih, checkName_names, List.find?_cons]
    cases (Table.get? target all).isNone <;> rfl

theorem verdict_dangling? {all states : Table State} :
    (match dangling? all states with
      | some e => .error e
      | none => .ok ()) = forM states fun entry => checkTargets all.names entry.1 entry.2.targets := by
  induction states with
  | nil => rfl
  | cons entry states ih =>
    rw [List.forM_cons, ← ih, checkTargets_eq_find?, dangling?]
    cases entry.2.targets.find? fun target => (Table.get? target all).isNone <;> rfl

theorem verdict_graph (header : Definition.Header) (states : Table State) :
    verdict (graph header states) =
      (checkName states.names (.unknownStartAt header.startAt) header.startAt >>= fun _ =>
        forM states fun entry => checkTargets states.names entry.1 entry.2.targets) := by
  rw [← verdict_dangling?, checkName_names, graph]
  cases (Table.get? header.startAt states).isNone
  · cases dangling? states states <;> rfl
  · rfl

end Build

theorem verdict_statesOfDefinitions (ds : List (String × Definition.State)) :
    verdict (statesOfDefinitions ds) = forM ds fun entry => Build.checkState entry.1 entry.2 := by
  induction ds with
  | nil => rfl
  | cons entry ds ih =>
    rw [List.forM_cons, ← ih]
    refine verdict_bind fun s _ => ?_
    cases statesOfDefinitions ds <;> rfl

theorem targets_of_statesOfDefinitions {ds : List (String × Definition.State)} {ss : List (String × State)}
    (h : statesOfDefinitions ds = .ok ss) :
    ss.map (fun entry => (entry.1, entry.2.targets)) = ds.map fun entry => (entry.1, entry.2.targets) := by
  induction ds generalizing ss with
  | nil =>
    cases h
    rfl
  | cons entry ds ih =>
    obtain ⟨s, hs, h⟩ := Except.bind_eq_ok h
    obtain ⟨ss', hss, h⟩ := Except.bind_eq_ok h
    cases h
    rw [List.map_cons, List.map_cons, ih hss, State.targets_of_ofDefinition (Except.mapError_eq_ok hs)]

/-- Reading a graph is three passes over what is written. -/
theorem Workflow.verdict_ofDefinition (header : Definition.Header) {states : List (String × Definition.State)}
    (hne : states ≠ []) : verdict (Workflow.ofDefinition (.mk header states)) =
      ((forM states fun entry => Build.checkState entry.1 entry.2) >>= fun _ =>
        Build.checkName (Table.names states) (.unknownStartAt header.startAt) header.startAt >>= fun _ =>
        forM states fun entry => Build.checkTargets (Table.names states) entry.1 entry.2.targets) := by
  rw [Workflow.ofDefinition, if_neg (by simpa using hne), ← verdict_statesOfDefinitions]
  refine verdict_bind fun ss hss => ?_
  have htargets := targets_of_statesOfDefinitions hss
  have hnames : Table.names ss = Table.names states := by
    simpa [Table.names, List.map_map, Function.comp_def] using congrArg (List.map Prod.fst) htargets
  have hpass : (forM ss fun entry => Build.checkTargets (Table.names states) entry.1 entry.2.targets) =
      forM states fun entry => Build.checkTargets (Table.names states) entry.1 entry.2.targets := by
    calc forM ss (fun entry => Build.checkTargets (Table.names states) entry.1 entry.2.targets)
        = forM (ss.map fun entry => (entry.1, entry.2.targets))
            fun entry => Build.checkTargets (Table.names states) entry.1 entry.2 := by rw [List.forM_map]
      _ = forM (states.map fun entry => (entry.1, entry.2.targets))
            fun entry => Build.checkTargets (Table.names states) entry.1 entry.2 := by rw [htargets]
      _ = _ := by rw [List.forM_map]
  rw [Build.verdict_graph, hnames, hpass]

/-! ### What reading decides -/

/-- Reading the graph decides whether it is accepted, and with which error it is rejected. -/
structure Definition.Graph.Decided (g : Definition.Graph) : Prop where
  accepted : (∃ w, Workflow.ofDefinition g = .ok w) ↔ g.Accepted
  rejected : ∀ e, Workflow.ofDefinition g = .error e ↔ g.Rejected e

namespace Part

variable {p : Part}

theorem check_eq_ok (hgraph : ∀ g, p = .graph g → g.Decided) : p.check = .ok () ↔ p.Sound := by
  cases p with
  | require holds flaw =>
    cases holds with
    | false => exact ⟨nofun, nofun⟩
    | true => exact ⟨fun _ => .require flaw, fun _ => rfl⟩
  | path expression => exact verdict_mapError_eq_ok.trans ⟨fun ⟨_, h⟩ => .path h, fun | .path h => ⟨_, h⟩⟩
  | reference expression =>
    exact verdict_mapError_eq_ok.trans ⟨fun ⟨_, h⟩ => .reference h, fun | .reference h => ⟨_, h⟩⟩
  | template d => exact verdict_mapError_eq_ok.trans ⟨fun ⟨_, h⟩ => .template h, fun | .template h => ⟨_, h⟩⟩
  | rule d => exact verdict_eq_ok.trans ⟨fun ⟨_, h⟩ => .rule h, fun | .rule h => ⟨_, h⟩⟩
  | timestamp text =>
    exact verdict_mapError_eq_ok.trans ⟨fun ⟨_, h⟩ => .timestamp h, fun | .timestamp h => ⟨_, h⟩⟩
  | graph g => exact verdict_eq_ok.trans ((hgraph g rfl).accepted.trans ⟨.graph, fun | .graph h => h⟩)

theorem check_eq_error (hgraph : ∀ g, p = .graph g → g.Decided) {e : WorkflowError} :
    p.check = .error e ↔ p.Reports e := by
  cases p with
  | require holds flaw =>
    cases holds with
    | false => exact ⟨fun h => Except.error.inj h ▸ .require flaw, fun | .require _ => rfl⟩
    | true => exact ⟨nofun, nofun⟩
  | path expression =>
    exact verdict_mapError_eq_error.trans ⟨fun ⟨_, h, he⟩ => he ▸ .path h, fun | .path h => ⟨_, h, rfl⟩⟩
  | reference expression =>
    exact verdict_mapError_eq_error.trans ⟨fun ⟨_, h, he⟩ => he ▸ .reference h, fun | .reference h => ⟨_, h, rfl⟩⟩
  | template d =>
    exact verdict_mapError_eq_error.trans ⟨fun ⟨_, h, he⟩ => he ▸ .template h, fun | .template h => ⟨_, h, rfl⟩⟩
  | rule d => exact verdict_eq_error.trans ⟨.rule, fun | .rule h => h⟩
  | timestamp text =>
    exact verdict_mapError_eq_error.trans ⟨fun ⟨_, h, he⟩ => he ▸ .timestamp h, fun | .timestamp h => ⟨_, h, rfl⟩⟩
  | graph g => exact verdict_eq_error.trans (((hgraph g rfl).rejected e).trans ⟨.graph, fun | .graph h => h⟩)

end Part

namespace Build

variable {d : Definition.State} {name : String} {e : WorkflowError}

theorem checkState_eq_ok (hgraph : ∀ g, Part.graph g ∈ d.parts → g.Decided) :
    checkState name d = .ok () ↔ d.Sound := by
  rw [checkState, verdict_mapError_eq_ok, ← verdict_eq_ok, State.checks_ofDefinition d, forM_eq_ok]
  exact forall₂_congr fun p hp => Part.check_eq_ok fun g hg => hgraph g (hg ▸ hp)

theorem checkState_eq_error (hgraph : ∀ g, Part.graph g ∈ d.parts → g.Decided) :
    checkState name d = .error e ↔ ∃ e', d.Reports e' ∧ .invalidState name e' = e := by
  rw [checkState, verdict_mapError_eq_error]
  refine exists_congr fun e' => and_congr_left' ?_
  rw [← verdict_eq_error, State.checks_ofDefinition d, forM_eq_error]
  have hdecided : ∀ p ∈ d.parts, ∀ g, p = .graph g → g.Decided := fun p hp g hg => hgraph g (hg ▸ hp)
  constructor
  · rintro ⟨before, p, after, heq, hbefore, hp⟩
    refine .mk heq (fun q hq => ?_) ?_
    · exact (Part.check_eq_ok (hdecided q (by simp [heq, hq]))).1 (hbefore q hq)
    · exact (Part.check_eq_error (hdecided p (by simp [heq]))).1 hp
  · rintro ⟨heq, hsound, herror⟩
    refine ⟨_, _, _, heq, fun q hq => ?_, ?_⟩
    · exact (Part.check_eq_ok (hdecided q (by simp [heq, hq]))).2 (hsound q hq)
    · exact (Part.check_eq_error (hdecided _ (by simp [heq]))).2 herror

section

variable {states : List (String × Definition.State)}

theorem checkStates_eq_ok (hgraph : ∀ entry ∈ states, ∀ g, Part.graph g ∈ entry.2.parts → g.Decided) :
    (forM states fun entry => checkState entry.1 entry.2) = .ok () ↔ ∀ entry ∈ states, entry.2.Sound :=
  forM_eq_ok.trans (forall₂_congr fun entry h => checkState_eq_ok (hgraph entry h))

theorem checkStates_eq_error (hsorted : Table.Sorted states)
    (hgraph : ∀ entry ∈ states, ∀ g, Part.graph g ∈ entry.2.parts → g.Decided) :
    (forM states fun entry => checkState entry.1 entry.2) = .error e ↔
      ∃ name d e', (name, d) ∈ states ∧ (∀ entry ∈ states, entry.1 < name → entry.2.Sound) ∧ d.Reports e' ∧
        .invalidState name e' = e := by
  rw [hsorted.forM_eq_error]
  constructor
  · rintro ⟨name, d, hmem, hleast, herror⟩
    obtain ⟨e', hreports, he⟩ := (checkState_eq_error (hgraph _ hmem)).1 herror
    exact ⟨name, d, e', hmem, fun entry h hlt => (checkState_eq_ok (hgraph entry h)).1 (hleast entry h hlt),
      hreports, he⟩
  · rintro ⟨name, d, e', hmem, hleast, hreports, he⟩
    exact ⟨name, d, hmem, fun entry h hlt => (checkState_eq_ok (hgraph entry h)).2 (hleast entry h hlt),
      (checkState_eq_error (hgraph _ hmem)).2 ⟨e', hreports, he⟩⟩

theorem checkAllTargets_eq_ok {names : List String} :
    (forM states fun entry => checkTargets names entry.1 entry.2.targets) = .ok () ↔
      ∀ entry ∈ states, ∀ target ∈ entry.2.targets, target ∈ names :=
  forM_eq_ok.trans (forall₂_congr fun _ _ => checkTargets_eq_ok)

theorem checkAllTargets_eq_error {names : List String} (hsorted : Table.Sorted states) :
    (forM states fun entry => checkTargets names entry.1 entry.2.targets) = .error e ↔
      ∃ name d, (name, d) ∈ states ∧
        (∀ entry ∈ states, entry.1 < name → ∀ target ∈ entry.2.targets, target ∈ names) ∧
        ∃ before target after, d.targets = before ++ target :: after ∧ (∀ t ∈ before, t ∈ names) ∧
          target ∉ names ∧ .unknownState name target = e := by
  rw [hsorted.forM_eq_error]
  simp only [checkTargets_eq_ok, checkTargets_eq_error]

end

end Build

namespace Definition.Graph

open Build

theorem decided_nil (header : Definition.Header) : (mk header []).Decided where
  accepted := ⟨nofun, fun | .mk hne .. => absurd rfl hne⟩
  rejected e := by
    constructor
    · rintro ⟨⟩
      exact .noStates
    · rintro (_ | ⟨hmem, -⟩ | ⟨hne, -⟩ | ⟨-, hk, -⟩)
      · rfl
      · cases hmem
      · exact absurd rfl hne
      · cases hk

theorem Ordered.decided {g : Graph} (hg : g.Ordered) : g.Decided := by
  induction hg with
  | @mk header states sorted nested ih =>
    by_cases hne : states = []
    · exact hne ▸ decided_nil header
    constructor
    · rw [← verdict_eq_ok, Workflow.verdict_ofDefinition header hne, seq_eq_ok, seq_eq_ok, checkStates_eq_ok ih,
        checkName_eq_ok, checkAllTargets_eq_ok]
      exact ⟨fun ⟨hsound, hstart, hclosed⟩ => .mk hne hsound hstart hclosed,
        fun | .mk _ hsound hstart hclosed => ⟨hsound, hstart, hclosed⟩⟩
    · intro e
      rw [← verdict_eq_error, Workflow.verdict_ofDefinition header hne, seq_eq_error, seq_eq_error,
        checkStates_eq_ok ih, checkStates_eq_error sorted ih, checkName_eq_ok, checkName_eq_error,
        checkAllTargets_eq_error sorted]
      constructor
      · rintro (⟨name, d, e', hmem, hleast, hreports, rfl⟩ | ⟨hsound, ⟨hstart, rfl⟩ | ⟨hstart, name, d, hmem, hleast,
          before, target, after, htargets, hknown, hunknown, rfl⟩⟩)
        · exact .invalidState hmem hreports hleast
        · exact .unknownStartAt hne hsound hstart
        · exact .unknownState hsound hstart hmem htargets hknown hunknown hleast
      · rintro (_ | ⟨hmem, hreports, hleast⟩ | ⟨-, hsound, hstart⟩ |
          ⟨hsound, hstart, hmem, htargets, hknown, hunknown, hleast⟩)
        · exact absurd rfl hne
        · exact .inl ⟨_, _, _, hmem, hleast, hreports, rfl⟩
        · exact .inr ⟨hsound, .inl ⟨hstart, rfl⟩⟩
        · exact .inr ⟨hsound, .inr ⟨hstart, _, _, hmem, hleast, _, _, _, htargets, hknown, hunknown, rfl⟩⟩

end Definition.Graph

/-! ### The verdict -/

/-- Reading a graph accepts it, or rejects it with the error that counts. -/
theorem Workflow.ofDefinition_decides {g : Definition.Graph} (hg : g.Ordered) :
    ((∃ w, Workflow.ofDefinition g = .ok w) ↔ g.Accepted) ∧
      ∀ e, Workflow.ofDefinition g = .error e ↔ g.Rejected e :=
  ⟨hg.decided.accepted, hg.decided.rejected⟩

namespace Strayed

open Definition

def filters : Definition.Filters := ⟨none, .absent, .absent⟩

/-- An iterator with a state that leads out of it. -/
def iterator : Graph :=
  .mk ⟨"item", none, none, none⟩ [("item", .pass ⟨filters, ⟨some "last", false⟩, .absent, none, none⟩)]

def each : Definition.State :=
  .map ⟨filters, ⟨some "last", false⟩, .absent, none, none, none, none, ⟨[], []⟩⟩ iterator

def graph : Graph := .mk ⟨"each", none, none, none⟩ [("each", each), ("last", .succeed filters)]

theorem ordered : graph.Ordered := by
  have hiterator : iterator.Readable := ⟨nofun, List.pairwise_singleton _ _, ⟨nofun, nofun⟩, trivial⟩
  refine Graph.Readable.ordered ⟨nofun, ?_, ⟨⟨nofun, nofun, nofun, nofun⟩, hiterator⟩, trivial, trivial⟩
  exact List.pairwise_pair.2 (by decide)

theorem rejected_iterator : iterator.Rejected (.unknownState "item" "last") := by
  refine .unknownState ?_ (List.mem_cons_self ..) (List.mem_cons_self ..) (List.nil_append _).symm nofun
    (by decide) ?_
  · simp [State.Sound, State.parts, Transition.parts, Filters.parts, written, templates, filters, Part.Sound.require]
  · exact List.forall_mem_singleton.2 fun hlt => absurd hlt (String.lt_irrefl _)

theorem reports_each : each.Reports (.unknownState "item" "last") := by
  have hparts : each.parts = [.require true .invalidTransition] ++ [.graph iterator] := rfl
  exact .mk hparts (List.forall_mem_singleton.2 (.require _)) (.graph rejected_iterator)

theorem rejected_graph : graph.Rejected (.invalidState "each" (.unknownState "item" "last")) := by
  refine .invalidState (List.mem_cons_self ..) reports_each (List.forall_mem_cons.2 ⟨?_, ?_⟩)
  · exact fun hlt => absurd hlt (String.lt_irrefl _)
  · exact List.forall_mem_singleton.2 fun hlt => absurd hlt (by decide)

end Strayed

theorem Workflow.ofDefinition_decides_strayed : Strayed.graph.Ordered ∧
    Workflow.ofDefinition Strayed.graph = .error (.invalidState "each" (.unknownState "item" "last")) :=
  ⟨Strayed.ordered, ((ofDefinition_decides Strayed.ordered).2 _).2 Strayed.rejected_graph⟩

end StepFlow
