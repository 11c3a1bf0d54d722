import StepFlow.Proofs.Execution.Course
import StepFlow.Proofs.Execution.MapInTurn
import StepFlow.Proofs.Path.Apart

/-!
# What a state keeps of its input

The outcome of a Task, Map or Parallel state is made of its raw input, into which a result or, by a catcher, an
error has been laid (`State.Merges`). Every place apart from the one that is written to reads in that document
as it does in the raw input (`runState_frames`).
-/

namespace StepFlow

/-- All places apart from that of the path read the same in both documents. -/
def ReferencePath.Frames (p : ReferencePath) (d d' : Document) : Prop :=
  ∀ q : ReferencePath, p.Apart q → q.get? d' = q.get? d

/-- How a result is laid into the input, and what is passed on of it, in a state whose attempts have results. -/
def State.results? (s : State) : Option (Results × Filters) :=
  match s.action with
  | .task s => some (s.results, s.filters)
  | .map s _ => some (s.results, s.filters)
  | .parallel s _ => some (s.results, s.filters)
  | _ => none

/-- The outcome is made of `merged`, which is the input with a document laid into it at the path: a result, of
which the output path passes on a part, or the failure that a catcher has taken. -/
inductive State.Merges (state : State) (input : Document) :
    (path : Option ReferencePath) → (merged : Document) → Outcome → Prop where
  | result {results : Results} {filters : Filters} {tree result merged : Document}
      (h : state.results? = some (results, filters)) (hmerged : mergeResult results.path input result = .ok merged) :
      Merges state input results.path merged
        ⟨state.transition?.bind Transition.next?, filters.output tree merged⟩
  | caught {c : Catcher} {f : TaskFailure} {merged : Document} (hc : c ∈ state.recovery.catchers)
      (hmerged : mergeResult c.resultPath input f.toDocument = .ok merged) :
      Merges state input c.resultPath merged ⟨some c.next, merged⟩

/-- The output is what is passed on of the input with some result laid into it. -/
def Results.PassOn (results : Results) (filters : Filters) (tree input output : Document) : Prop :=
  ∃ result merged, mergeResult results.path input result = .ok merged ∧ output = filters.output tree merged

theorem frames_of_mergeResult {p : ReferencePath} {input result merged : Document}
    (h : mergeResult (some p) input result = .ok merged) : p.Frames input merged :=
  fun _ hq => ReferencePath.get?_set_of_apart hq h

theorem shapeResult_passOn (results : Results) (filters : Filters) (tree input result : Document) :
    IfOk (results.PassOn filters tree input) (shapeResult results filters tree input result) := by
  intro output h
  obtain ⟨merged, hmerged, h⟩ := Except.bind_eq_ok h
  cases h
  exact ⟨_, merged, Except.mapError_eq_ok hmerged, rfl⟩

theorem Recovery.fallback_eq_ok {r : Recovery} {name next : String} {input output : Document} {f : TaskFailure}
    (h : r.fallback name input f = .ok (next, output)) :
    ∃ c ∈ r.catchers, next = c.next ∧ mergeResult c.resultPath input f.toDocument = .ok output := by
  unfold fallback at h
  split at h
  · cases h
  · rename_i c hc
    refine ⟨c, List.mem_of_find?_eq_some hc, ?_⟩
    split at h
    · rename_i hpath
      cases h
      exact ⟨rfl, by rw [hpath]; rfl⟩
    · rename_i p hpath
      split at h <;> cases h
      rename_i hset
      exact ⟨rfl, by rw [hpath]; exact hset⟩

namespace Execution
open Process

variable {drive : Execution → Process Execution (Execution × Except RuntimeError Document)}
  {setting : Setting} {state : State} {input : Document}

theorem collect_passOn (results : Results) (filters : Filters) (tree input : Document)
    (outputs : Except TaskFailure (List Document)) :
    IfOk (results.PassOn filters tree input) (collect results filters tree input outputs) := by
  cases outputs with
  | error f => exact .error f
  | ok ds => exact shapeResult_passOn _ _ _ _ _

theorem attempt_passOn {run : Nat → Execution → Attempt} (hrun : state.attempt? drive setting input = some run)
    (k : Nat) (y : Execution) :
    ∃ results filters, state.results? = some (results, filters) ∧
      (run k y).Keeps { ends := IfOk (results.PassOn filters y.tree input) } := by
  obtain ⟨comment, action⟩ := state
  cases action with
  | pass | choice | wait | succeed | fail => cases hrun
  | task s =>
    cases hrun
    refine ⟨_, _, rfl, attemptTask_ends trivial IfOk.error (fun report => ?_) fun _ _ _ => trivial⟩
    exact shapeResult_passOn _ _ _ _ _
  | map s iterator =>
    cases hrun
    refine ⟨_, _, rfl, ?_⟩
    rw [attemptMap_eq]
    cases items? s input y with
    | none => exact IfOk.error _
    | some items => exact Keeps.bind (Keeps.free _) fun outputs _ => collect_passOn _ _ _ _ outputs
  | parallel s branches =>
    cases hrun
    refine ⟨_, _, rfl, ?_⟩
    rw [attemptParallel_eq]
    exact Keeps.bind (Keeps.free _) fun outputs _ => collect_passOn _ _ _ _ outputs

/-- However a visit of such a state goes, its outcome is made of its input. -/
theorem runState_merges {budget : Nat} {name : String} {x y : Execution} {acts : List Act} {outcome : Outcome}
    (hstate : state.results?.isSome)
    (h : (runState drive setting budget name state input x).Does acts (.finished (y, .ok outcome))) :
    ∃ path merged, state.Merges input path merged outcome := by
  obtain ⟨retries, last, way, -, -, hcourse, hends⟩ := runState_does h
  have hway : way.result? = some (.ok outcome) := hends
  obtain ⟨run, hrun⟩ : ∃ run, state.attempt? drive setting input = some run := by
    obtain ⟨comment, action⟩ := state
    cases action with
    | task | map | parallel => exact ⟨_, rfl⟩
    | pass | choice | wait | succeed | fail => cases hstate
  unfold Course at hcourse
  rw [hrun] at hcourse
  have hlast := hcourse.last
  cases way with
  | unfinished | aborted => cases hway
  | led =>
    cases hway
    cases hlast with
    | led hz hdoes =>
      rename_i z output
      obtain ⟨results, filters, hresults, hkeeps⟩ := attempt_passOn hrun (0 + retries.length) z
      obtain ⟨result, merged, hmerged, rfl⟩ := (hdoes.keeps hkeeps).1 output rfl
      exact ⟨_, merged, .result hresults hmerged⟩
  | caught =>
    cases hway
    cases hlast with
    | caught hz hdoes hfallback =>
      obtain ⟨c, hc, rfl, hmerged⟩ := Recovery.fallback_eq_ok hfallback
      exact ⟨_, _, .caught hc hmerged⟩

/-- A write is not seen at any place apart from the one that it writes to, be it missing or there. So whatever a
Task, Map or Parallel state does, at any depth, the document that its result or a caught error is laid into
reads at all such places as the raw input of the state does. -/
theorem runState_frames :
    (∀ (p q : ReferencePath) (t v t' : Document), p.Apart q → p.set t v = .ok t' → q.get? t' = q.get? t) ∧
    ∀ (drive : Execution → Process Execution (Execution × Except RuntimeError Document)) (setting : Setting)
      (budget : Nat) (name : String) (state : State) (input : Document) (x y : Execution) (acts : List Act)
      (outcome : Outcome), state.results?.isSome →
      (runState drive setting budget name state input x).Does acts (.finished (y, .ok outcome)) →
      ∃ path merged, state.Merges input path merged outcome ∧ ∀ p ∈ path, p.Frames input merged := by
  refine ⟨fun p q t v t' hpq h => ReferencePath.get?_set_of_apart hpq h, ?_⟩
  intro drive setting budget name state input x y acts outcome hstate h
  obtain ⟨path, merged, hmerges⟩ := runState_merges hstate h
  refine ⟨path, merged, hmerges, ?_⟩
  cases hmerges with
  | result _ hmerged | caught _ hmerged =>
    intro p hp
    rw [Option.mem_def.1 hp] at hmerged
    exact frames_of_mergeResult hmerged

/-- One run, with a null for its failure. -/
def oneRun : Document := .obj [("runs", .arr [.obj [("failure", .null)]])]

/-- The failure of the run number `i`. -/
def failureOf (i : Int) : ReferencePath :=
  ⟨"$.runs[" ++ toString i ++ "].failure", [.name "runs", .index i, .name "failure"]⟩

/-- A task whose failure is laid into the second run. -/
def caughtInRuns : State :=
  .mk none (.task ⟨"test://a", passAll, .final, ⟨none, none⟩, none,
    ⟨[], [⟨["States.ALL"], "next", some (failureOf 1)⟩]⟩, none, none, none⟩)

/-- The failure makes the second run, and the first one still has a null. -/
theorem runState_frames_caught :
    (failureOf 1).Apart (failureOf 0) ∧ ∃ t' y acts outcome path merged,
      (failureOf 1).set oneRun (.str "lost") = .ok t' ∧ (failureOf 0).get? t' = (failureOf 0).get? oneRun ∧
      (runState (Execution.drive testSetting 0) testSetting 1 "only" caughtInRuns oneRun default).Does acts
        (.finished (y, .ok outcome)) ∧
      caughtInRuns.Merges oneRun path merged outcome ∧ ∀ p ∈ path, p.Frames oneRun merged := by
  have hapart : (failureOf 1).Apart (failureOf 0) := .shared _ (.here ⟨by decide, by decide, by decide⟩)
  obtain ⟨y, outcome, t, hrun⟩ : ∃ y outcome t,
      (runState (Execution.drive testSetting 0) testSetting 1 "only" caughtInRuns oneRun default).run
        (slowFirst (.error (.io "broken"))) none (.start 0) = (.finished (y, .ok outcome), t) := ⟨_, _, _, rfl⟩
  obtain ⟨acts, hdoes, -⟩ := Does.of_run hrun nofun
  obtain ⟨path, merged, hmerges, hframes⟩ := runState_frames.2 _ _ _ _ _ _ _ _ _ _ rfl hdoes
  exact ⟨hapart, _, y, acts, outcome, path, merged, rfl, runState_frames.1 _ _ _ (.str "lost") _ hapart rfl, hdoes,
    hmerges, hframes⟩

end Execution
end StepFlow
