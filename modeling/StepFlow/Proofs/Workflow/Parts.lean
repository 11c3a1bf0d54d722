import StepFlow.Workflow
import StepFlow.Proofs.Except

/-!
# The parts of a state

What there is to check of a state by itself, as a list in the order in which the state is read: conditions on its
fields, and the texts, rules and graphs in it. Reading a state fails exactly as checking its parts one after the
other does (`State.checks_ofDefinition`).
-/

namespace StepFlow

/-- A condition on a state, or something that is written in it. -/
inductive Part where
  | require (holds : Bool) (flaw : WorkflowError)
  | path (expression : String)
  | reference (expression : String)
  | template (d : Document)
  /-- A choice with the state that it leads to. -/
  | rule (d : Document)
  | timestamp (text : String)
  | graph (g : Definition.Graph)

namespace Definition

/-- A field that is left out or null has nothing to check. -/
def written (make : String → Part) : Nullable String → List Part
  | .value expression => [make expression]
  | _ => []

def Transition.parts (d : Transition) : List Part := [.require (d.next.isSome != d.isEnd) .invalidTransition]

def Filters.parts (d : Filters) : List Part := written .path d.inputPath ++ written .path d.outputPath

def templates (field : Option Document) : List Part := field.toList.map .template

def Retrier.parts (d : Retrier) : List Part :=
  [.require (!d.errorEquals.isEmpty) (.invalidDefinition .retryWithoutErrors),
    .require (d.intervalSeconds.all (0 ≤ ·.units) && d.backoffRate.all (0 ≤ ·.units))
      (.invalidDefinition .negativeRetry)]

def Catcher.parts (d : Catcher) : List Part :=
  .require (!d.errorEquals.isEmpty) (.invalidDefinition .catchWithoutErrors) :: written .reference d.resultPath

def Recovery.parts (d : Recovery) : List Part :=
  d.retry.flatMap Retrier.parts ++ d.catchers.flatMap Catcher.parts

/-- Exactly one of the four fields, which is well-formed if it is a text. -/
def Wait.duration (d : Wait) : List Part :=
  .require ([d.seconds.isSome, d.secondsPath.isSome, d.timestamp.isSome, d.timestampPath.isSome].count true = 1)
      (.invalidDefinition .waitSource) ::
    (d.secondsPath.toList.map .path ++ d.timestamp.toList.map .timestamp ++ d.timestampPath.toList.map .path)

/-- The parts of a state, as they are read. -/
def State.parts : State → List Part
  | .pass d => [d.transition.parts, d.filters.parts, written .reference d.resultPath, templates d.parameters].flatten
  | .task d =>
    [[.require (!d.resource.isEmpty) (.invalidDefinition .emptyResource)], d.transition.parts, d.filters.parts,
      written .reference d.resultPath, templates d.parameters, templates d.resultSelector, d.recovery.parts,
      templates d.credentials].flatten
  | .choice d =>
    [[.require (!d.choices.isEmpty) (.invalidChoice .noChoices)], d.choices.map .rule, d.filters.parts].flatten
  | .wait d => [d.duration, d.transition.parts, d.filters.parts].flatten
  | .succeed filters => filters.parts
  | .fail _ => []
  | .map d iterator =>
    [d.transition.parts, [.graph iterator], d.filters.parts, written .reference d.resultPath,
      d.itemsPath.toList.map .path, templates d.itemSelector, templates d.resultSelector, d.recovery.parts].flatten
  | .parallel d branches =>
    [[.require (!branches.isEmpty) (.invalidDefinition .noBranches)], d.transition.parts, branches.map .graph,
      d.filters.parts, written .reference d.resultPath, templates d.resultSelector, d.recovery.parts].flatten

/-- The names that a choice leads to. -/
def choiceTarget? (d : Document) : Option String := (d.get? "Next").bind Document.toStr?

/-- The names that a state can lead to. -/
def State.targets : State → List String
  | .pass d => d.transition.next.toList
  | .task d => d.transition.next.toList ++ d.recovery.catchers.map (·.next)
  | .choice d => d.choices.filterMap choiceTarget? ++ d.default.toList
  | .wait d => d.transition.next.toList
  | .succeed _ | .fail _ => []
  | .map d _ => d.transition.next.toList ++ d.recovery.catchers.map (·.next)
  | .parallel d _ => d.transition.next.toList ++ d.recovery.catchers.map (·.next)

end Definition

namespace Part

/-- Reads the part by itself. -/
def check : Part → Except WorkflowError Unit
  | require holds flaw => if holds then .ok () else .error flaw
  | path expression => verdict ((Path.ofString expression).mapError .path)
  | reference expression => verdict ((ReferencePath.ofString expression).mapError .path)
  | template d => verdict ((Template.ofDocument d).mapError .path)
  | rule d => verdict (Choice.ofDocument d)
  | timestamp text =>
    verdict ((Timestamp.parse text).mapError fun flaw => .invalidDefinition (.badTimestamp text flaw))
  | graph g => verdict (Workflow.ofDefinition g)

end Part

/-- The computation fails as the checks of the parts do. -/
def Checks {α : Type} (r : Except WorkflowError α) (parts : List Part) : Prop :=
  verdict r = forM parts Part.check

namespace Checks

variable {α β : Type} {r : Except WorkflowError α} {parts : List Part}

theorem pure (a : α) : Checks (.ok a) [] := rfl

theorem of_isSome (h : r.toOption.isSome) : Checks r [] := by
  cases r with
  | error e => cases h
  | ok a => rfl

theorem part {p : Part} (h : verdict r = p.check) : Checks r [p] := by
  rw [Checks, h, List.forM_cons]
  cases p.check <;> rfl

theorem append {f : α → Except WorkflowError β} {more : List Part} (h : Checks r parts)
    (hf : ∀ a, Checks (f a) more) : Checks (r >>= f) (parts ++ more) := by
  rw [Checks, List.forM_append, ← h]
  cases r with
  | error e => rfl
  | ok a => exact hf a

theorem bind {f : α → Except WorkflowError β} {more : List (List Part)} (h : Checks r parts)
    (hf : ∀ a, Checks (f a) more.flatten) : Checks (r >>= f) (parts :: more).flatten :=
  h.append hf

theorem map {f : α → β} (h : Checks r parts) : Checks (r.map f) parts := by
  rw [Checks, ← h]
  cases r <;> rfl

theorem last {f : α → β} (h : Checks r parts) : Checks (do return f (← r)) parts := by
  rw [Checks, ← h]
  cases r <;> rfl

/-- A condition, and what is read if it holds. -/
theorem guard {c : Prop} [Decidable c] {holds : Bool} (hc : holds = true ↔ ¬c) (flaw : WorkflowError)
    (h : Checks r parts) : Checks (if c then .error flaw else r) (.require holds flaw :: parts) := by
  by_cases hbad : c
  · cases holds with
    | true => exact absurd hbad (hc.1 rfl)
    | false =>
      rw [if_pos hbad]
      rfl
  · rw [if_neg hbad, hc.2 hbad, Checks, h]
    rfl

theorem mapM {f : α → Except WorkflowError β} {partsOf : α → List Part} (h : ∀ a, Checks (f a) (partsOf a))
    (as : List α) : Checks (as.mapM f) (as.flatMap partsOf) := by
  induction as with
  | nil => rfl
  | cons a as ih =>
    rw [List.mapM_cons, List.flatMap_cons]
    exact (h a).append fun b => ih.last

end Checks

namespace Build

open Definition

theorem checks_path (expression : String) : Checks (path expression) [.path expression] := .part rfl

theorem checks_root : Checks (path "$") [] := .of_isSome (by decide +kernel)

theorem checks_filter (field : Nullable String) : Checks (filter field) (written .path field) := by
  cases field with
  | absent => exact checks_root.map
  | null => exact .pure none
  | value expression => exact (checks_path expression).map

theorem checks_itemsPath (field : Option String) : Checks (path (field.getD "$")) (field.toList.map .path) := by
  cases field with
  | none => exact checks_root
  | some expression => exact checks_path expression

theorem checks_resultPathOf (field : Nullable String) : Checks (resultPathOf field) (written .reference field) := by
  cases field with
  | absent => exact .of_isSome (by decide +kernel)
  | null => exact .pure none
  | value expression =>
    refine .part ?_
    cases h : ReferencePath.ofString expression <;> simp only [resultPathOf, Part.check, h] <;> rfl

theorem checks_template (field : Option Document) : Checks (template field) (templates field) := by
  cases field with
  | none => exact .pure none
  | some d => exact .map (.part rfl)

theorem checks_transition (d : Definition.Transition) : Checks (transition d) d.parts := by
  obtain ⟨next, isEnd⟩ := d
  cases next <;> cases isEnd <;> rfl

theorem checks_filters (d : Definition.Filters) : Checks (filters d) d.parts :=
  (checks_filter d.inputPath).append fun _ => (checks_filter d.outputPath).last

theorem checks_retrier (d : Definition.Retrier) : Checks (Retrier.ofDefinition d) d.parts := by
  have hinterval : 0 ≤ (Binary64.ofInt 1).units := by decide +kernel
  have hrate : 0 ≤ (Binary64.ofInt 2).units := by decide +kernel
  refine Checks.guard (by simp) _ (Checks.guard ?_ _ (.pure _))
  cases d.intervalSeconds <;> cases d.backoffRate <;> simp [hinterval, hrate]

theorem checks_catcher (d : Definition.Catcher) : Checks (Catcher.ofDefinition d) d.parts :=
  .guard (by simp) _ (checks_resultPathOf d.resultPath).map

theorem checks_recovery (d : Definition.Recovery) : Checks (recovery d) d.parts :=
  (Checks.mapM checks_retrier d.retry).append fun _ => (Checks.mapM checks_catcher d.catchers).last

theorem checks_rules (choices : List Document) : Checks (choices.mapM Choice.ofDocument) (choices.map .rule) := by
  rw [List.map_eq_flatMap]
  exact .mapM (fun d => .part rfl) choices

theorem checks_duration (d : Definition.Wait) : Checks (duration d) d.duration := by
  obtain ⟨filters, transition, seconds, secondsPath, timestamp, timestampPath⟩ := d
  cases seconds <;> cases secondsPath <;> cases timestamp <;> cases timestampPath <;>
    first | rfl | exact .map (.part rfl)

theorem checks_pass (d : Definition.Pass) : Checks (pass d) (Definition.State.pass d).parts :=
  (checks_transition d.transition).bind fun _ => (checks_filters d.filters).bind fun _ =>
    (checks_resultPathOf d.resultPath).bind fun _ => (checks_template d.parameters).bind fun _ => .pure _

theorem checks_task (d : Definition.Task) : Checks (task d) (Definition.State.task d).parts :=
  .guard (by simp) _ <| (checks_transition d.transition).bind fun _ => (checks_filters d.filters).bind fun _ =>
    (checks_resultPathOf d.resultPath).bind fun _ => (checks_template d.parameters).bind fun _ =>
    (checks_template d.resultSelector).bind fun _ => (checks_recovery d.recovery).bind fun _ =>
    (checks_template d.credentials).bind fun _ => .pure _

theorem checks_choice (d : Definition.Choice) : Checks (choice d) (Definition.State.choice d).parts :=
  .guard (by simp) _ <| (checks_rules d.choices).bind fun _ => (checks_filters d.filters).bind fun _ => .pure _

theorem checks_wait (d : Definition.Wait) : Checks (wait d) (Definition.State.wait d).parts :=
  (checks_duration d).bind fun _ => (checks_transition d.transition).bind fun _ =>
    (checks_filters d.filters).bind fun _ => .pure _

theorem checks_map (d : Definition.Map) (transition : StepFlow.Transition) : Checks (map d transition)
    [d.filters.parts, written .reference d.resultPath, d.itemsPath.toList.map .path, templates d.itemSelector,
      templates d.resultSelector, d.recovery.parts].flatten :=
  (checks_filters d.filters).bind fun _ => (checks_resultPathOf d.resultPath).bind fun _ =>
    (checks_itemsPath d.itemsPath).bind fun _ => (checks_template d.itemSelector).bind fun _ =>
    (checks_template d.resultSelector).bind fun _ => (checks_recovery d.recovery).bind fun _ => .pure _

theorem checks_parallel (d : Definition.Parallel) (transition : StepFlow.Transition) :
    Checks (parallel d transition)
      [d.filters.parts, written .reference d.resultPath, templates d.resultSelector, d.recovery.parts].flatten :=
  (checks_filters d.filters).bind fun _ => (checks_resultPathOf d.resultPath).bind fun _ =>
    (checks_template d.resultSelector).bind fun _ => (checks_recovery d.recovery).bind fun _ => .pure _

end Build

theorem checks_branches : ∀ branches : List Definition.Graph,
    Checks (branchesOfDefinitions branches) (branches.map .graph)
  | [] => rfl
  | _ :: rest => (Checks.part rfl).append fun _ => (checks_branches rest).last

/-- A state fails as the checks of its parts do. -/
theorem State.checks_ofDefinition (d : Definition.State) : Checks (State.ofDefinition d) d.parts := by
  cases d with
  | pass d => exact (Build.checks_pass d).map
  | task d => exact (Build.checks_task d).map
  | choice d => exact (Build.checks_choice d).map
  | wait d => exact (Build.checks_wait d).map
  | succeed d => exact (Build.checks_filters d).map
  | fail d => exact .pure _
  | map d iterator =>
    exact (Build.checks_transition d.transition).bind fun transition => (Checks.part rfl).bind fun _ =>
      (Build.checks_map d transition).last
  | parallel d branches =>
    exact .guard (by simp) _ <| (Build.checks_transition d.transition).bind fun transition =>
      (checks_branches branches).bind fun _ => (Build.checks_parallel d transition).last

/-! ### Targets -/

theorem Except.map_of_mapM {ε α β γ : Type} {f : α → Except ε β} {g : β → γ} {g' : α → Option γ}
    (hf : ∀ a b, f a = .ok b → g' a = some (g b)) {as : List α} {bs : List β} (h : as.mapM f = .ok bs) :
    bs.map g = as.filterMap g' := by
  induction as generalizing bs with
  | nil =>
    cases h
    rfl
  | cons a as ih =>
    rw [List.mapM_cons] at h
    obtain ⟨b, hb, h⟩ := Except.bind_eq_ok h
    obtain ⟨bs', hbs, h⟩ := Except.bind_eq_ok h
    cases h
    rw [List.map_cons, List.filterMap_cons_some (hf a b hb), ih hbs]

namespace Build

theorem next?_of_transition {d : Definition.Transition} {t : Transition} (h : transition d = .ok t) :
    t.next? = d.next := by
  obtain ⟨next, isEnd⟩ := d
  cases next <;> cases isEnd <;> cases h <;> rfl

theorem next_of_recovery {d : Definition.Recovery} {r : Recovery} (h : recovery d = .ok r) :
    r.catchers.map (·.next) = d.catchers.map (·.next) := by
  obtain ⟨retriers, -, h⟩ := Except.bind_eq_ok h
  obtain ⟨catchers, hcatchers, h⟩ := Except.bind_eq_ok h
  cases h
  have hnext : ∀ c c', Catcher.ofDefinition c = .ok c' → some c.next = some c'.next := by
    intro c c' hc
    unfold Catcher.ofDefinition at hc
    split at hc
    · cases hc
    · obtain ⟨_, -, rfl⟩ := Except.map_eq_ok hc
      rfl
  exact (Except.map_of_mapM hnext hcatchers).trans (congrFun List.filterMap_eq_map d.catchers)

theorem choiceTarget?_of_ofDocument {d : Document} {c : Choice} (h : Choice.ofDocument d = .ok c) :
    Definition.choiceTarget? d = some c.next := by
  unfold Choice.ofDocument at h
  split at h
  · rename_i next hnext
    obtain ⟨_, -, rfl⟩ := Except.map_eq_ok h
    rw [Definition.choiceTarget?, hnext]
    rfl
  · cases h

variable {comment : Option String}

theorem targets_pass {d : Definition.Pass} {s : PassState} (h : pass d = .ok s) :
    (State.mk comment (.pass s)).targets = (Definition.State.pass d).targets := by
  obtain ⟨transition, htransition, h⟩ := Except.bind_eq_ok h
  obtain ⟨filters, -, h⟩ := Except.bind_eq_ok h
  obtain ⟨path, -, h⟩ := Except.bind_eq_ok h
  obtain ⟨parameters, -, h⟩ := Except.bind_eq_ok h
  cases h
  exact (List.append_nil _).trans (congrArg Option.toList (next?_of_transition htransition))

theorem targets_task {d : Definition.Task} {s : TaskState} (h : task d = .ok s) :
    (State.mk comment (.task s)).targets = (Definition.State.task d).targets := by
  unfold task at h
  split at h
  · cases h
  obtain ⟨transition, htransition, h⟩ := Except.bind_eq_ok h
  obtain ⟨filters, -, h⟩ := Except.bind_eq_ok h
  obtain ⟨path, -, h⟩ := Except.bind_eq_ok h
  obtain ⟨parameters, -, h⟩ := Except.bind_eq_ok h
  obtain ⟨selector, -, h⟩ := Except.bind_eq_ok h
  obtain ⟨recovery, hrecovery, h⟩ := Except.bind_eq_ok h
  obtain ⟨credentials, -, h⟩ := Except.bind_eq_ok h
  cases h
  exact congr (congrArg (·.toList ++ ·) (next?_of_transition htransition)) (next_of_recovery hrecovery)

theorem targets_choice {d : Definition.Choice} {s : ChoiceState} (h : choice d = .ok s) :
    (State.mk comment (.choice s)).targets = (Definition.State.choice d).targets := by
  unfold choice at h
  split at h
  · cases h
  obtain ⟨choices, hchoices, h⟩ := Except.bind_eq_ok h
  obtain ⟨filters, -, h⟩ := Except.bind_eq_ok h
  cases h
  exact congrArg (· ++ d.default.toList)
    (Except.map_of_mapM (fun _ _ => choiceTarget?_of_ofDocument) hchoices)

theorem targets_wait {d : Definition.Wait} {s : WaitState} (h : wait d = .ok s) :
    (State.mk comment (.wait s)).targets = (Definition.State.wait d).targets := by
  obtain ⟨duration, -, h⟩ := Except.bind_eq_ok h
  obtain ⟨transition, htransition, h⟩ := Except.bind_eq_ok h
  obtain ⟨filters, -, h⟩ := Except.bind_eq_ok h
  cases h
  exact (List.append_nil _).trans (congrArg Option.toList (next?_of_transition htransition))

theorem targets_map {d : Definition.Map} {transition : Transition} {s : MapState} {g : Definition.Graph}
    {w : Workflow} (htransition : Build.transition d.transition = .ok transition) (h : map d transition = .ok s) :
    (State.mk comment (.map s w)).targets = (Definition.State.map d g).targets := by
  obtain ⟨filters, -, h⟩ := Except.bind_eq_ok h
  obtain ⟨path, -, h⟩ := Except.bind_eq_ok h
  obtain ⟨itemsPath, -, h⟩ := Except.bind_eq_ok h
  obtain ⟨itemSelector, -, h⟩ := Except.bind_eq_ok h
  obtain ⟨selector, -, h⟩ := Except.bind_eq_ok h
  obtain ⟨recovery, hrecovery, h⟩ := Except.bind_eq_ok h
  cases h
  exact congr (congrArg (·.toList ++ ·) (next?_of_transition htransition)) (next_of_recovery hrecovery)

theorem targets_parallel {d : Definition.Parallel} {transition : Transition} {s : ParallelState}
    {gs : List Definition.Graph} {ws : List Workflow} (htransition : Build.transition d.transition = .ok transition)
    (h : parallel d transition = .ok s) :
    (State.mk comment (.parallel s ws)).targets = (Definition.State.parallel d gs).targets := by
  obtain ⟨filters, -, h⟩ := Except.bind_eq_ok h
  obtain ⟨path, -, h⟩ := Except.bind_eq_ok h
  obtain ⟨selector, -, h⟩ := Except.bind_eq_ok h
  obtain ⟨recovery, hrecovery, h⟩ := Except.bind_eq_ok h
  cases h
  exact congr (congrArg (·.toList ++ ·) (next?_of_transition htransition)) (next_of_recovery hrecovery)

end Build

/-- The targets of a state are those that are written. -/
theorem State.targets_of_ofDefinition {d : Definition.State} {s : State} (h : State.ofDefinition d = .ok s) :
    s.targets = d.targets := by
  cases d with
  | pass d =>
    obtain ⟨p, hp, rfl⟩ := Except.map_eq_ok h
    exact Build.targets_pass hp
  | task d =>
    obtain ⟨t, ht, rfl⟩ := Except.map_eq_ok h
    exact Build.targets_task ht
  | choice d =>
    obtain ⟨c, hc, rfl⟩ := Except.map_eq_ok h
    exact Build.targets_choice hc
  | wait d =>
    obtain ⟨w, hw, rfl⟩ := Except.map_eq_ok h
    exact Build.targets_wait hw
  | succeed d =>
    obtain ⟨_, -, rfl⟩ := Except.map_eq_ok h
    rfl
  | fail d =>
    cases h
    rfl
  | map d iterator =>
    obtain ⟨transition, ht, h⟩ := Except.bind_eq_ok h
    obtain ⟨w, -, h⟩ := Except.bind_eq_ok h
    obtain ⟨m, hm, h⟩ := Except.bind_eq_ok h
    cases h
    exact Build.targets_map ht hm
  | parallel d branches =>
    unfold State.ofDefinition at h
    split at h
    · cases h
    obtain ⟨transition, ht, h⟩ := Except.bind_eq_ok h
    obtain ⟨ws, -, h⟩ := Except.bind_eq_ok h
    obtain ⟨p, hp, h⟩ := Except.bind_eq_ok h
    cases h
    exact Build.targets_parallel ht hp

end StepFlow
