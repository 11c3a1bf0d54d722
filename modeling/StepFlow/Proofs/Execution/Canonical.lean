import StepFlow.Proofs.Execution.Nested
import StepFlow.Proofs.Execution.ReadBack
import StepFlow.Proofs.Workflow.Canonical

/-!
# Canonical contexts

In an execution of a canonical workflow on a canonical input all documents stay canonical: those that states
pass on, those that nested executions come to, and all that the context records of them
(`Execution.pervades_canonical`). The tree that paths read need not be assumed canonical: when it is read it
is the document of the context.
-/

namespace StepFlow

variable {context input d : Document}

/-! ### What states pass on -/

theorem Document.canonical_parse {text : String} (h : parse text = .ok d) : d.Canonical := by
  unfold parse Shape.read at h
  generalize Draft.ofText text = drafted at h
  obtain ⟨v, hv, h⟩ := Except.bind_eq_ok h
  obtain ⟨d', -, rfl⟩ := Except.map_eq_ok hv
  split at h
  · cases h
    exact canonical_canonical d'
  · cases h

theorem Report.canonical_result {r : Report} (h : r.result = d) : d.Canonical := by
  subst h
  unfold result
  dsimp only
  split
  · rename_i d hd
    exact Document.canonical_parse hd
  · exact Document.canonical_ofList (by simp [Document.Canonical])

theorem TaskFailure.canonical_toDocument (f : TaskFailure) : f.toDocument.Canonical :=
  Document.canonical_ofList (by simp [Document.Canonical])

theorem canonical_applyFilter (filter : Option Path) (hcontext : context.Canonical) (hd : d.Canonical) :
    (applyFilter filter context d).Canonical := by
  unfold applyFilter
  split
  · exact Path.canonical_getD_value _ hcontext hd
  · exact Document.canonical_obj_iff.2 ⟨.nil, nofun⟩

theorem Filters.canonical_input (f : Filters) (hcontext : context.Canonical) (hd : d.Canonical) :
    (f.input context d).Canonical := canonical_applyFilter _ hcontext hd

theorem Filters.canonical_output (f : Filters) (hcontext : context.Canonical) (hd : d.Canonical) :
    (f.output context d).Canonical := canonical_applyFilter _ hcontext hd

theorem canonical_renderWith {template : Option Template} (h : ∀ t ∈ template, t.Canonical)
    (hcontext : context.Canonical) (hd : d.Canonical) : (renderWith template context d).Canonical := by
  cases template with
  | none => exact hd
  | some t => exact h t rfl context d hcontext hd

theorem canonical_mergeResult {path : Option ReferencePath} {result : Document} (hinput : input.Canonical)
    (hresult : result.Canonical) (h : mergeResult path input result = .ok d) : d.Canonical := by
  cases path with
  | none =>
    cases h
    exact hinput
  | some p => exact ReferencePath.canonical_set hinput hresult h

theorem canonical_shapeResult {results : Results} {filters : Filters} {result : Document}
    (hselector : ∀ t ∈ results.selector, t.Canonical) (hcontext : context.Canonical) (hinput : input.Canonical)
    (hresult : result.Canonical) : IfOk Document.Canonical (shapeResult results filters context input result) := by
  intro d h
  obtain ⟨merged, hmerged, h⟩ := Except.bind_eq_ok h
  cases h
  exact filters.canonical_output hcontext
    (canonical_mergeResult hinput (canonical_renderWith hselector hcontext hresult) (Except.mapError_eq_ok hmerged))

theorem PassState.canonical_run {s : PassState} {name : String}
    (hs : (Action.pass s).Canonical) (hcontext : context.Canonical) (hinput : input.Canonical) :
    IfOk (·.output.Canonical) (s.run name context input) := by
  intro outcome h
  have heffective := canonical_renderWith hs.1 hcontext (s.filters.canonical_input hcontext hinput)
  unfold run at h
  dsimp only at h
  split at h
  · rename_i result hresult
    obtain ⟨output, houtput, h⟩ := Except.bind_eq_ok h
    cases h
    exact s.filters.canonical_output hcontext
      (canonical_mergeResult heffective (hs.2 result hresult) (Except.mapError_eq_ok houtput))
  · cases h
    exact s.filters.canonical_output hcontext heffective

theorem ChoiceState.canonical_run {s : ChoiceState} {name : String} (hcontext : context.Canonical)
    (hinput : input.Canonical) : IfOk (·.output.Canonical) (s.run name context input) := by
  intro outcome h
  obtain ⟨found, -, h⟩ := Except.bind_eq_ok h
  split at h
  · cases h
    exact s.filters.canonical_output hcontext (s.filters.canonical_input hcontext hinput)
  · cases h

/-! ### The tree -/

theorem Record.canonical_present {α : Type} {name : String} {write : α → Document} {o : Option α}
    (h : ∀ a ∈ o, (write a).Canonical) : ∀ entry ∈ present name write o, entry.2.Canonical := by
  cases o with
  | none => nofun
  | some a => exact List.forall_mem_singleton.2 (h a rfl)

theorem StateRecord.Canonical.toDocument {r : StateRecord} (h : r.Canonical) : r.toDocument.Canonical := by
  have htext (name : String) (o : Option String) :
      ∀ entry ∈ Record.present name Document.str o, entry.2.Canonical :=
    Record.canonical_present fun _ _ => trivial
  have hduration : ∀ entry ∈ Record.present "Duration" id r.duration, entry.2.Canonical := by
    refine Record.canonical_present fun d hd => ?_
    obtain ⟨x, rfl⟩ := h.duration d hd
    trivial
  have houtput : ∀ entry ∈ Record.present "Output" id r.output, entry.2.Canonical :=
    Record.canonical_present h.output
  have hretrier : ∀ entry ∈ Record.present "Retrier" (fun xs => .arr (xs.map .str)) r.retrier,
      entry.2.Canonical :=
    Record.canonical_present fun xs _ => Document.canonical_arr_iff.2 (List.forall_mem_map.2 fun _ _ => trivial)
  refine Document.canonical_ofList ?_
  simp only [List.forall_mem_append]
  refine ⟨⟨⟨⟨⟨?_, htext _ _⟩, htext _ _⟩, hduration⟩, houtput⟩, hretrier⟩
  simpa [Document.Canonical, Document.ofNat] using h.input

theorem Context.Canonical.toDocument {c : Context} (h : c.Canonical) : c.toDocument.Canonical := by
  have hexecution : c.execution.toDocument.Canonical :=
    Document.canonical_ofList (by simpa [Document.Canonical] using h.input)
  have hstates : (Document.arr (c.states.map (·.toDocument))).Canonical :=
    Document.canonical_arr_iff.2 (List.forall_mem_map.2 fun r hr => (h.states r hr).toDocument)
  have hitem : ∀ entry ∈ Record.present "Map" MapItem.toDocument c.item, entry.2.Canonical := by
    refine Record.canonical_present fun item hitem => Document.canonical_ofList ?_
    refine List.forall_mem_singleton.2 (Document.canonical_ofList ?_)
    simpa [Document.Canonical, Document.ofNat] using h.item item hitem
  refine Document.canonical_ofList ?_
  simp only [List.forall_mem_append, List.forall_mem_cons]
  exact ⟨⟨hexecution, h.state.toDocument, hstates, h.stateMachine, h.task, nofun⟩, hitem⟩

/-! ### Executions -/

namespace Execution
open Process

/-- All documents of the execution are canonical, besides the tree, and all that its workflow puts into
documents. -/
structure Canonical (x : Execution) : Prop where
  context : x.context.Canonical
  workflow : x.workflow.Canonical
  output : ∀ d ∈ x.output, d.Canonical

variable {x y z : Execution} {setting : Setting} {state : State}
  {drive : Execution → Process Execution (Execution × Except RuntimeError Document)}

namespace Canonical

theorem attempting (h : x.Canonical) (hy : x.Attempting y) : y.Canonical := by
  obtain ⟨tree, count, patterns, rfl⟩ := hy
  exact ⟨⟨h.context.input, ⟨h.context.state.input, h.context.state.output, h.context.state.duration⟩,
    h.context.states, h.context.stateMachine, h.context.task, h.context.item⟩, h.workflow, h.output⟩

theorem withStatus (status : Status) (h : x.Canonical) : Canonical { x with status } :=
  ⟨h.context, h.workflow, h.output⟩

theorem visit (setting : Setting) (h : x.Canonical) : (x.visit setting).Canonical where
  context := ⟨h.context.input, ⟨h.context.state.input, nofun, nofun⟩, h.context.states, h.context.stateMachine,
    h.context.task, h.context.item⟩
  workflow := h.workflow
  output := h.output

theorem completed {output : Document} (h : x.Canonical) (houtput : output.Canonical)
    (hduration : ∃ x, setting.stamps.duration = .num (.float x)) : (x.completed setting output).Canonical := by
  have hrecord : (x.context.state.finished setting.stamps output).Canonical := by
    refine ⟨h.context.state.input, fun d hd => ?_, fun d hd => ?_⟩
    · cases hd
      exact houtput
    · cases hd
      exact hduration
  refine ⟨⟨h.context.input, hrecord, fun r hr => ?_, h.context.stateMachine, h.context.task, h.context.item⟩,
    h.workflow, h.output⟩
  rcases List.mem_append.1 hr with hr | hr
  · exact h.context.states r hr
  · cases List.mem_singleton.1 hr
    exact hrecord

theorem advance {outcome : Outcome} (h : x.Canonical) (houtcome : outcome.output.Canonical) :
    (x.advance state outcome).1.Canonical := by
  unfold Execution.advance
  split
  · split
    · exact ⟨⟨h.context.input, ⟨houtcome, nofun, nofun⟩, h.context.states, h.context.stateMachine, h.context.task,
        h.context.item⟩, h.workflow, h.output⟩
    · exact h.withStatus _
  · refine ⟨h.context, h.workflow, fun d hd => ?_⟩
    cases hd
    exact houtcome

theorem launched {input : Document} {i : Nat} (h : x.Canonical) (htree : x.tree.Canonical)
    (hinput : input.Canonical) (hstate : x.workflow.Contains state.action) (hz : state.Launches input x i z) :
    z.Canonical := by
  cases hz with
  | @iteration s v items item i action selected there =>
    have hcontains := action ▸ hstate
    have heffective := s.filters.canonical_input htree hinput
    have hitem : item.Canonical :=
      Document.canonical_arr_iff.1 (Path.canonical_value htree heffective (items?_eq_some selected)) item
        (List.mem_of_getElem? there)
    have hfork : ((x.context.fork v.startAt item).withItem i item).Canonical := by
      refine ⟨h.context.input, ⟨hitem, nofun, nofun⟩, nofun, h.context.stateMachine,
        Document.canonical_obj_iff.2 ⟨.nil, nofun⟩, fun item' hitem' => ?_⟩
      cases hitem'
      exact hitem
    refine ⟨?_, h.workflow.iterator hcontains, nofun⟩
    unfold iteration
    dsimp only [ofContext]
    split
    · rename_i selector hselector
      have hrendered := (h.workflow _ hcontains).1 selector hselector _ _ hfork.toDocument heffective
      exact ⟨hfork.input, ⟨hrendered, nofun, nofun⟩, hfork.states, hfork.stateMachine, hfork.task, hfork.item⟩
    · exact hfork
  | @branch s branches v i action there =>
    have hcontains := action ▸ hstate
    exact ⟨⟨h.context.input, ⟨s.filters.canonical_input htree hinput, nofun, nofun⟩, nofun,
      h.context.stateMachine, Document.canonical_obj_iff.2 ⟨.nil, nofun⟩, nofun⟩,
      h.workflow.branch hcontains (List.mem_of_getElem? there), nofun⟩

end Canonical

/-! ### Steps -/

theorem attemptTask_canonical {s : TaskState} {input : Document} (hs : (Action.task s).Canonical)
    (htree : x.tree.Canonical) (hinput : input.Canonical) :
    (attemptTask setting s input x).Keeps { ends := IfOk Document.Canonical } := by
  have hreports (report : Report) :
      IfOk Document.Canonical (shapeResult s.results s.filters x.tree input report.result) := by
    generalize hresult : report.result = result
    exact canonical_shapeResult hs.2 htree hinput (Report.canonical_result hresult)
  exact attemptTask_ends trivial IfOk.error hreports fun _ _ _ => trivial

theorem nestedSlot_canonical (hz : (drive z).Keeps { ends := fun r => IfOk Document.Canonical r.2 }) :
    (nestedSlot drive z).rest.Keeps { ends := IfOk Document.Canonical } := by
  refine Keeps.bind hz ?_
  rintro ⟨y, result⟩ hresult
  cases result with
  | error e => exact IfOk.error _
  | ok output =>
    show IfOk Document.Canonical (nestedResult y (.ok output))
    unfold nestedResult
    dsimp only
    split
    · exact IfOk.error _
    · exact .ok (hresult output rfl)

theorem collect_canonical {results : Results} {filters : Filters} {tree input : Document}
    {outputs : Except TaskFailure (List Document)} (hselector : ∀ t ∈ results.selector, t.Canonical)
    (htree : tree.Canonical) (hinput : input.Canonical)
    (houtputs : IfOk (fun ds => ∀ d ∈ ds, d.Canonical) outputs) :
    IfOk Document.Canonical (collect results filters tree input outputs) := by
  cases outputs with
  | error f => exact .error f
  | ok ds => exact canonical_shapeResult hselector htree hinput (Document.canonical_arr_iff.2 (houtputs ds rfl))

section
variable (hdrive : ∀ z : Execution, z.Canonical → z.TreeBehind →
  (drive z).Keeps { ends := fun r => IfOk Document.Canonical r.2 })
include hdrive

/-- An attempt comes to a canonical document, given that nested executions do. -/
theorem attempt_canonical {input : Document} {run : Nat → Execution → Attempt} (hx : x.Canonical)
    (htree : x.tree = x.context.toDocument) (hinput : input.Canonical)
    (hstate : x.workflow.Contains state.action) (hrun : state.attempt? drive setting input = some run)
    (k : Nat) : (run k x).Keeps { ends := IfOk Document.Canonical } := by
  have htree' : x.tree.Canonical := htree ▸ hx.context.toDocument
  have hslot {i : Nat} {z : Execution} (hz : state.Launches input x i z) :
      (nestedSlot drive z).rest.Keeps { ends := IfOk Document.Canonical } :=
    nestedSlot_canonical (hdrive z (hx.launched htree' hinput hstate hz) hz.tree)
  have hcanonical := hx.workflow _ hstate
  obtain ⟨comment, action⟩ := state
  cases action with
  | pass | choice | wait | succeed | fail => cases hrun
  | task s =>
    cases hrun
    exact attemptTask_canonical hcanonical htree' hinput
  | map s iterator =>
    cases hrun
    rw [attemptMap_eq]
    cases hitems : items? s input x with
    | none => exact IfOk.error _
    | some items =>
      refine Keeps.bind (Keeps.gather_ok fun slot hslot' => ?_) fun outputs houtputs =>
        collect_canonical hcanonical.2 htree' hinput houtputs
      obtain ⟨i, hi⟩ := List.mem_iff_getElem?.1 hslot'
      obtain ⟨item, hitem, rfl⟩ := iterations_getElem? hi
      exact hslot (.iteration rfl hitems hitem)
  | parallel s branches =>
    cases hrun
    rw [attemptParallel_eq]
    refine Keeps.bind (Keeps.gather_ok fun slot hslot' => ?_) fun outputs houtputs =>
      collect_canonical hcanonical htree' hinput houtputs
    obtain ⟨v, hv, rfl⟩ := List.mem_map.1 hslot'
    obtain ⟨i, hi⟩ := List.mem_iff_getElem?.1 hv
    exact hslot (.branch rfl hi)

omit hdrive in
theorem catchFailure_canonical {r : Recovery} {name : String} {input : Document} {f : TaskFailure}
    (hinput : input.Canonical) :
    (catchFailure r name input f x).Keeps { ends := fun r => IfOk (·.output.Canonical) r.2 } := by
  unfold catchFailure
  split
  · exact IfOk.error _
  · rename_i c _
    split
    · exact IfOk.error _
    · rename_i output houtput
      refine .tell trivial (IfOk.ok ?_)
      split at houtput
      · exact ReferencePath.canonical_set hinput f.canonical_toDocument houtput
      · cases houtput
        exact hinput

omit hdrive in
/-- Attempts one after the other come to a canonical document if each of them does that finds the tree up to
date. -/
theorem recoverable_canonical {run : Nat → Execution → Attempt} {transition : Transition} {r : Recovery}
    {name : String} {input : Document} (hinput : input.Canonical)
    (hrun : ∀ k y, x.Attempting y → y.tree = y.context.toDocument →
      (run k y).Keeps { ends := IfOk Document.Canonical })
    (budget attempt : Nat) (last : Option Nat) (hy : x.Attempting y) (htree : y.TreeBehind) :
    (recoverable sync run transition r name input budget attempt last y).Keeps
      { ends := fun r => IfOk (·.output.Canonical) r.2 } := by
  induction budget generalizing attempt last y with
  | zero => trivial
  | succ budget ih =>
    have htree' : y.sync.tree = y.sync.context.toDocument := by rw [htree.sync_tree, sync_context]
    refine Keeps.bind (hrun attempt _ hy.sync htree') fun result hresult => ?_
    cases result with
    | ok output => exact IfOk.ok (hresult output rfl)
    | error f =>
      dsimp only
      obtain ⟨count, patterns, hrecord⟩ := Remedy.ofFailure_record r f last y.sync.context.state
      generalize Remedy.ofFailure r f last y.sync.context.state = remedy at hrecord
      cases remedy with
      | giveUp record => exact catchFailure_canonical hinput
      | retry position delay record =>
        have hnext : x.Attempting (y.sync.withRecord record) := by
          rw [show record = _ from hrecord]
          exact hy.sync.withRecord count patterns
        exact .tell trivial (.sleep trivial
          (ih _ _ hnext ((Onward.withRecord y.sync record).tree htree.sync)))

theorem runState_canonical {budget : Nat} {name : String} {input : Document} (hx : x.Canonical)
    (htree : x.TreeBehind) (hinput : input.Canonical) (hstate : x.workflow.Contains state.action) :
    (runState drive setting budget name state input x).Keeps
      { ends := fun r => IfOk (·.output.Canonical) r.2 } := by
  have attempted {run : Nat → Execution → Attempt} {transition : Transition} {r : Recovery}
      (hrun : state.attempt? drive setting input = some run) :
      (recoverable sync run transition r name input budget 0 none x.sync).Keeps
        { ends := fun r => IfOk (·.output.Canonical) r.2 } :=
    recoverable_canonical hinput (fun k y hy htree' =>
      attempt_canonical hdrive (hx.attempting hy) htree' hinput (hy.workflow ▸ hstate) hrun k)
      _ _ _ (attempting_sync x) htree.sync
  have htree' : x.sync.tree.Canonical := htree.sync_tree ▸ hx.context.toDocument
  have hcanonical := hx.workflow _ hstate
  obtain ⟨comment, action⟩ := state
  unfold runState runStateVia
  dsimp only [State.action]
  cases action with
  | pass s => exact PassState.canonical_run hcanonical htree' hinput
  | choice s => exact ChoiceState.canonical_run htree' hinput
  | succeed f => exact IfOk.ok (f.canonical_output htree' (f.canonical_input htree' hinput))
  | fail => exact IfOk.ok hinput
  | wait s =>
    dsimp only
    split
    · exact IfOk.error _
    · exact .sleep trivial
        (IfOk.ok (s.filters.canonical_output htree' (s.filters.canonical_input htree' hinput)))
  | task | map | parallel => exact attempted rfl

theorem stepWith_canonical {budget : Nat} (hduration : ∃ x, setting.stamps.duration = .num (.float x))
    (hx : x.Canonical) (htree : x.TreeBehind) :
    (stepWith drive setting budget x).Keeps { ends := fun r => r.1.Canonical } := by
  unfold stepWith stepWithVia
  split
  · exact hx
  rename_i hnotEnd
  have hend : x.isEnd = false := by simpa using hnotEnd
  split
  · exact hx.withStatus _
  rename_i state hstate
  refine Keeps.bind ((begin_running hend).mono (fun _ _ _ => trivial) (fun _ _ _ => trivial)
    (fun _ => False.elim) fun _ h => h) ?_
  rintro _ rfl
  have hvisit := hx.visit setting
  have hgives : (runState drive setting budget x.current state x.context.state.input (x.visit setting)).Keeps
      { ends := fun r => IfOk (·.output.Canonical) r.2 } :=
    runState_canonical hdrive hvisit (htree.extends' (.enter ..)) hx.context.state.input (.of_state? hstate)
  refine .tell trivial (Keeps.bind (hgives.and (runState_parent ..)) ?_)
  rintro ⟨y, result⟩ ⟨hresult, hy⟩
  cases result with
  | error e => exact (hvisit.attempting hy).withStatus _
  | ok outcome =>
    have houtput := hresult outcome rfl
    exact .tell trivial (((hvisit.attempting hy).completed houtput hduration).advance houtput)

end

variable (hduration : ∃ x, setting.stamps.duration = .num (.float x))
include hduration

theorem drive_canonical (budget : Nat) (hx : x.Canonical) (htree : x.TreeBehind) :
    (Execution.drive setting budget x).Keeps { ends := fun r => IfOk Document.Canonical r.2 } := by
  induction budget generalizing x with
  | zero => trivial
  | succ budget ih =>
    unfold Execution.drive Execution.driveVia
    split
    · refine IfOk.ok ?_
      cases houtput : x.output with
      | none => trivial
      | some d => exact hx.output d houtput
    have hstep : (Execution.step setting budget x).Keeps { ends := fun r => r.1.Canonical } :=
      stepWith_canonical (fun _ hz hztree => ih hz hztree) hduration hx htree
    refine Keeps.bind (hstep.and (step_onward setting budget x)) ?_
    rintro ⟨y, result⟩ ⟨hy, honward⟩
    cases result with
    | error e => exact IfOk.error _
    | ok status => exact ih hy (Onward.tree honward htree)

/-- Steps, visits and launches keep all documents canonical. -/
theorem pervades_canonical : Pervades setting Canonical where
  visits _ _ hx hy := (hx.visit setting).attempting hy.attempting
  step budget _ hx htree := stepWith_canonical (fun _ hz hztree => drive_canonical hduration budget hz hztree)
    hduration hx htree
  launches _ _ _ _ hp htree hstate hz := hp.launched (htree ▸ hp.context.toDocument)
    hp.context.state.input (.of_state? hstate) hz

end Execution
end StepFlow
