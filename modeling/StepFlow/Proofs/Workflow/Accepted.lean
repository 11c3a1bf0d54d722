import StepFlow.Proofs.Definition.Readable
import StepFlow.Proofs.Workflow.Parts

/-!
# Which graphs are accepted

A graph is accepted when all its states are sound by themselves, its first state and all targets are states of
its own, and the graphs nested in it are accepted in the same way (`Definition.Graph.Accepted`). Otherwise it is
rejected with one of its errors (`Definition.Graph.Rejected`): those of its states come first, and of several
states the one with the least name counts. The states of a definition that has been read are sorted by their names
(`Definition.Graph.Readable.ordered`).
-/

namespace StepFlow

mutual

/-- The part is well-formed by itself. -/
inductive Part.Sound : Part → Prop
  | require (flaw : WorkflowError) : Part.Sound (.require true flaw)
  | path {expression : String} {p : Path} : Path.ofString expression = .ok p → Part.Sound (.path expression)
  | reference {expression : String} {p : ReferencePath} :
      ReferencePath.ofString expression = .ok p → Part.Sound (.reference expression)
  | template {d : Document} {t : Template} : Template.ofDocument d = .ok t → Part.Sound (.template d)
  | rule {d : Document} {c : Choice} : Choice.ofDocument d = .ok c → Part.Sound (.rule d)
  | timestamp {text : String} {t : Timestamp} : Timestamp.parse text = .ok t → Part.Sound (.timestamp text)
  | graph {g : Definition.Graph} : g.Accepted → Part.Sound (.graph g)

/-- The graph has a state, its states are sound, and its first state and all targets are among them. -/
inductive Definition.Graph.Accepted : Definition.Graph → Prop
  | mk {header : Definition.Header} {states : List (String × Definition.State)} (nonempty : states ≠ [])
      (sound : ∀ entry ∈ states, ∀ part ∈ entry.2.parts, part.Sound)
      (start : header.startAt ∈ Table.names states)
      (closed : ∀ entry ∈ states, ∀ target ∈ entry.2.targets, target ∈ Table.names states) :
      Definition.Graph.Accepted (.mk header states)

end

/-- The state can be read by itself. -/
def Definition.State.Sound (d : Definition.State) : Prop := ∀ part ∈ d.parts, part.Sound

mutual

/-- The error of a part by itself. -/
inductive Part.Reports : Part → WorkflowError → Prop
  | require (flaw : WorkflowError) : Part.Reports (.require false flaw) flaw
  | path {expression : String} {e : PathError} :
      Path.ofString expression = .error e → Part.Reports (.path expression) (.path e)
  | reference {expression : String} {e : PathError} :
      ReferencePath.ofString expression = .error e → Part.Reports (.reference expression) (.path e)
  | template {d : Document} {e : PathError} :
      Template.ofDocument d = .error e → Part.Reports (.template d) (.path e)
  | rule {d : Document} {e : WorkflowError} : Choice.ofDocument d = .error e → Part.Reports (.rule d) e
  | timestamp {text : String} {flaw : TimestampFlaw} :
      Timestamp.parse text = .error flaw →
      Part.Reports (.timestamp text) (.invalidDefinition (.badTimestamp text flaw))
  | graph {g : Definition.Graph} {e : WorkflowError} : g.Rejected e → Part.Reports (.graph g) e

/-- The error of the first part that is not sound. -/
inductive Definition.State.Reports : Definition.State → WorkflowError → Prop
  | mk {d : Definition.State} {before after : List Part} {part : Part} {e : WorkflowError}
      (parts : d.parts = before ++ part :: after) (sound : ∀ p ∈ before, p.Sound) (error : part.Reports e) :
      Definition.State.Reports d e

/-- Of all errors of a graph the one that counts. -/
inductive Definition.Graph.Rejected : Definition.Graph → WorkflowError → Prop
  | noStates {header : Definition.Header} : Definition.Graph.Rejected (.mk header []) .noStates
  | invalidState {header : Definition.Header} {states : List (String × Definition.State)} {name : String}
      {d : Definition.State} {e : WorkflowError} (state : (name, d) ∈ states) (error : d.Reports e)
      (least : ∀ entry ∈ states, entry.1 < name → entry.2.Sound) :
      Definition.Graph.Rejected (.mk header states) (.invalidState name e)
  | unknownStartAt {header : Definition.Header} {states : List (String × Definition.State)}
      (nonempty : states ≠ []) (sound : ∀ entry ∈ states, entry.2.Sound)
      (start : header.startAt ∉ Table.names states) :
      Definition.Graph.Rejected (.mk header states) (.unknownStartAt header.startAt)
  | unknownState {header : Definition.Header} {states : List (String × Definition.State)} {name target : String}
      {d : Definition.State} {before after : List String} (sound : ∀ entry ∈ states, entry.2.Sound)
      (start : header.startAt ∈ Table.names states) (state : (name, d) ∈ states)
      (targets : d.targets = before ++ target :: after) (known : ∀ t ∈ before, t ∈ Table.names states)
      (unknown : target ∉ Table.names states)
      (least : ∀ entry ∈ states, entry.1 < name → ∀ t ∈ entry.2.targets, t ∈ Table.names states) :
      Definition.Graph.Rejected (.mk header states) (.unknownState name target)

end

/-- The states are sorted by their names, here and in all nested graphs. -/
inductive Definition.Graph.Ordered : Definition.Graph → Prop
  | mk {header : Definition.Header} {states : List (String × Definition.State)} (sorted : Table.Sorted states)
      (nested : ∀ entry ∈ states, ∀ g, Part.graph g ∈ entry.2.parts → g.Ordered) :
      Definition.Graph.Ordered (.mk header states)

/-! ### Definitions that have been read -/

namespace Definition

variable {g : Graph}

theorem graph_mem_written {make : String → Part} (hmake : ∀ expression, make expression ≠ .graph g)
    (field : Nullable String) : Part.graph g ∉ written make field := by
  cases field <;> simp [written, Ne.symm (hmake _)]

theorem graph_mem_parts {d : State} (h : Part.graph g ∈ d.parts) :
    (∃ s, d = .map s g) ∨ ∃ s branches, d = .parallel s branches ∧ g ∈ branches := by
  have hpath : ∀ field, Part.graph g ∉ written .path field := graph_mem_written nofun
  have hreference : ∀ field, Part.graph g ∉ written .reference field := graph_mem_written nofun
  cases d with
  | parallel s branches =>
    have hbranch : g ∈ branches := by
      simpa [State.parts, Transition.parts, Filters.parts, templates, Recovery.parts, Retrier.parts, Catcher.parts,
        hpath, hreference] using h
    exact .inr ⟨s, branches, rfl, hbranch⟩
  | _ =>
    simp_all [State.parts, Transition.parts, Filters.parts, templates, Recovery.parts, Retrier.parts,
      Catcher.parts, Wait.duration]

theorem sizeOf_lt_of_mem_parts {d : State} (h : Part.graph g ∈ d.parts) : sizeOf g < sizeOf d := by
  rcases graph_mem_parts h with ⟨s, rfl⟩ | ⟨s, branches, rfl, hg⟩
  · simp only [State.map.sizeOf_spec]
    omega
  · have := List.sizeOf_lt_of_mem hg
    simp only [State.parallel.sizeOf_spec]
    omega

theorem readable_of_mem_parts {d : State} (hd : d.Readable) (h : Part.graph g ∈ d.parts) : g.Readable := by
  rcases graph_mem_parts h with ⟨s, rfl⟩ | ⟨s, branches, rfl, hg⟩
  · exact hd.2
  · exact branchesReadable_iff.1 hd.2 g hg

/-- A definition that has been read is ordered. -/
theorem Graph.Readable.ordered : ∀ {g : Graph}, g.Readable → g.Ordered
  | .mk header states, ⟨_, hsorted, hstates⟩ => by
    refine .mk hsorted fun entry hentry g hg => ?_
    have hsize : sizeOf g < 1 + sizeOf header + sizeOf states := by
      have hd := sizeOf_lt_of_mem_parts hg
      have hmem := List.sizeOf_lt_of_mem hentry
      have hpair : sizeOf entry = 1 + sizeOf entry.1 + sizeOf entry.2 := rfl
      omega
    exact (readable_of_mem_parts (statesReadable_iff.1 hstates entry hentry) hg).ordered
termination_by g => sizeOf g

end Definition

end StepFlow
