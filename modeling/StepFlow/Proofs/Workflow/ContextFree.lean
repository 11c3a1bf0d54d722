import StepFlow.Execution.Flow
import StepFlow.Proofs.Path.Grammar
import StepFlow.Proofs.Workflow.Contains

/-!
# States that do not read the context

`Action.paths` lists the paths that a state reads its input and the context with. When none of them is one
of the context, which is to say that none starts with `$$` (`Path.ofContext_iff`), what the state computes
is the same in every context.
-/

namespace StepFlow

variable (c c' : Document)

namespace Path

/-- The paths that read the context are those that start with `$$`. -/
theorem ofContext_iff {expression : String} {p : Path} (h : ofString expression = .ok p) :
    p.ofContext = true ↔ ∃ text, expression.toList = '$' :: '$' :: text := by
  have hparse : parse expression = .ok p := Except.mapError_eq_ok h
  unfold parse at hparse
  split at hparse
  · rename_i rest hlist
    rw [hlist]
    split at hparse
    rename_i ofContext rest' hsplit
    split at hparse
    · cases hparse
      split at hsplit
      · cases hsplit
        simp
      · rename_i hrest
        cases hsplit
        simpa using hrest
    · cases hparse
  · cases hparse

theorem value_congr {p : Path} (h : p.ofContext = false) (input : Document) :
    p.value c input = p.value c' input := by
  simp [value, h]

end Path

/-- None of the paths reads the context. -/
def ContextFree (paths : List Path) : Prop := ∀ p ∈ paths, p.ofContext = false

instance (paths : List Path) : Decidable (ContextFree paths) :=
  inferInstanceAs (Decidable (∀ p ∈ paths, p.ofContext = false))

@[simp] theorem contextFree_append {ps qs : List Path} :
    ContextFree (ps ++ qs) ↔ ContextFree ps ∧ ContextFree qs := List.forall_mem_append

/-! ### Templates -/

namespace Template

mutual

/-- The paths in a template. -/
def paths : Template → List Path
  | literal _ => []
  | path p => [p]
  | list items => pathsOfItems items
  | record fields => pathsOfFields fields

def pathsOfItems : List Template → List Path
  | [] => []
  | t :: rest => paths t ++ pathsOfItems rest

def pathsOfFields : List (String × Template) → List Path
  | [] => []
  | (_, t) :: rest => paths t ++ pathsOfFields rest

end

mutual

theorem render_congr {t : Template} (h : ContextFree t.paths) (input : Document) :
    t.render c input = t.render c' input := by
  cases t with
  | literal d => rfl
  | path p => rw [render, render, p.value_congr c c' (h p (List.mem_singleton_self p))]
  | list items => rw [render, render, renderItems_congr h]
  | record fields => rw [render, render, renderFields_congr h]

theorem renderItems_congr {items : List Template} (h : ContextFree (pathsOfItems items)) (input : Document) :
    renderItems c input items = renderItems c' input items := by
  cases items with
  | nil => rfl
  | cons t rest =>
    obtain ⟨ht, hrest⟩ := contextFree_append.1 h
    rw [renderItems, renderItems, render_congr ht, renderItems_congr hrest]

theorem renderFields_congr {fields : List (String × Template)} (h : ContextFree (pathsOfFields fields))
    (input : Document) : renderFields c input fields = renderFields c' input fields := by
  cases fields with
  | nil => rfl
  | cons field rest =>
    obtain ⟨k, t⟩ := field
    obtain ⟨ht, hrest⟩ := contextFree_append.1 h
    rw [renderFields, renderFields, render_congr ht, renderFields_congr hrest]

end

end Template

/-- The paths in a template, where there is one. -/
def templatePaths : Option Template → List Path
  | some t => t.paths
  | none => []

theorem renderWith_congr {t : Option Template} (h : ContextFree (templatePaths t)) (d : Document) :
    renderWith t c d = renderWith t c' d := by
  cases t with
  | none => rfl
  | some t => exact t.render_congr c c' h d

/-! ### Rules -/

namespace Test

def paths : Test → List Path
  | compare _ _ (.path p) => [p]
  | _ => []

theorem holdsOf_congr {t : Test} (h : ContextFree t.paths) (input value : Document) :
    t.holdsOf c input value = t.holdsOf c' input value := by
  cases t with
  | compare kind comparator operand =>
    cases operand with
    | literal d => rfl
    | path p => simp only [holdsOf, RuleOperand.value, p.value_congr c c' (h p (List.mem_singleton_self p))]
  | _ => rfl

end Test

namespace Rule

mutual

/-- The paths in a rule. -/
def paths : Rule → List Path
  | and rules => pathsOfRules rules
  | or rules => pathsOfRules rules
  | not rule => paths rule
  | data subject test => subject :: test.paths

def pathsOfRules : List Rule → List Path
  | [] => []
  | rule :: rest => paths rule ++ pathsOfRules rest

end

mutual

theorem holds_congr {r : Rule} (h : ContextFree r.paths) (input : Document) :
    r.holds c input = r.holds c' input := by
  cases r with
  | and rules => exact allHold_congr h input
  | or rules => exact anyHolds_congr h input
  | not rule =>
    have hrule : ContextFree rule.paths := h
    rw [holds, holds, holds_congr hrule]
  | data subject test =>
    obtain ⟨hsubject, htest⟩ := List.forall_mem_cons.1 h
    rw [holds, holds, subject.value_congr c c' hsubject]
    cases subject.value c' input with
    | none => rfl
    | some d => exact test.holdsOf_congr c c' htest input d

theorem allHold_congr {rules : List Rule} (h : ContextFree (pathsOfRules rules)) (input : Document) :
    allHold c input rules = allHold c' input rules := by
  cases rules with
  | nil => rfl
  | cons rule rest =>
    obtain ⟨hrule, hrest⟩ := contextFree_append.1 h
    rw [allHold, allHold, holds_congr hrule, allHold_congr hrest]

theorem anyHolds_congr {rules : List Rule} (h : ContextFree (pathsOfRules rules)) (input : Document) :
    anyHolds c input rules = anyHolds c' input rules := by
  cases rules with
  | nil => rfl
  | cons rule rest =>
    obtain ⟨hrule, hrest⟩ := contextFree_append.1 h
    rw [anyHolds, anyHolds, holds_congr hrule, anyHolds_congr hrest]

end

end Rule

/-! ### States -/

namespace Filters

def paths (f : Filters) : List Path := f.inputPath.toList ++ f.outputPath.toList

variable {f : Filters} (h : ContextFree f.paths)
include h

theorem input_congr (d : Document) : f.input c d = f.input c' d := by
  obtain ⟨hinput, -⟩ := contextFree_append.1 h
  unfold input applyFilter
  cases hpath : f.inputPath with
  | none => rfl
  | some p => simp only [p.value_congr c c' (hinput p (by simp [hpath]))]

theorem output_congr (d : Document) : f.output c d = f.output c' d := by
  obtain ⟨-, houtput⟩ := contextFree_append.1 h
  unfold output applyFilter
  cases hpath : f.outputPath with
  | none => rfl
  | some p => simp only [p.value_congr c c' (houtput p (by simp [hpath]))]

theorem succeed_congr (d : Document) : f.succeed c d = f.succeed c' d := by
  rw [succeed, succeed, input_congr c c' h, output_congr c c' h]

end Filters

def WaitDuration.paths : WaitDuration → List Path
  | secondsPath p => [p]
  | timestampPath p => [p]
  | seconds _ | timestamp _ => []

/-- The paths that a state reads its input and the context with. The credentials of a task are rendered
against neither. -/
def Action.paths : Action → List Path
  | .pass s => s.filters.paths ++ templatePaths s.parameters
  | .task s => s.filters.paths ++ templatePaths s.parameters ++ templatePaths s.results.selector
  | .choice s => s.filters.paths ++ s.choices.flatMap fun choice => choice.rule.paths
  | .wait s => s.filters.paths ++ s.duration.paths
  | .succeed f => f.paths
  | .fail _ => []
  | .map s _ =>
    s.filters.paths ++ s.itemsPath :: templatePaths s.itemSelector ++ templatePaths s.results.selector
  | .parallel s _ => s.filters.paths ++ templatePaths s.results.selector

theorem PassState.run_congr {s : PassState} (h : ContextFree (Action.pass s).paths) (name : String)
    (input : Document) : s.run name c input = s.run name c' input := by
  obtain ⟨hfilters, hparameters⟩ := contextFree_append.1 h
  simp only [run, Filters.input_congr c c' hfilters, Filters.output_congr c c' hfilters,
    renderWith_congr c c' hparameters]

theorem ChoiceState.firstMatch_congr {choices : List Choice}
    (h : ContextFree (choices.flatMap fun choice => choice.rule.paths)) (input : Document) :
    firstMatch c input choices = firstMatch c' input choices := by
  induction choices with
  | nil => rfl
  | cons choice rest ih =>
    obtain ⟨hrule, hrest⟩ := contextFree_append.1 h
    rw [firstMatch, firstMatch, choice.rule.holds_congr c c' hrule, ih hrest]

theorem ChoiceState.run_congr {s : ChoiceState} (h : ContextFree (Action.choice s).paths) (name : String)
    (input : Document) : s.run name c input = s.run name c' input := by
  obtain ⟨hfilters, hchoices⟩ := contextFree_append.1 h
  simp only [run, Filters.input_congr c c' hfilters, Filters.output_congr c c' hfilters,
    firstMatch_congr c c' hchoices]

/-- The wait counts from the present instant. -/
def WaitDuration.ReadsClock : WaitDuration → Prop
  | timestamp _ | timestampPath _ => True
  | seconds _ | secondsPath _ => False

namespace WaitState

variable {s : WaitState} (h : ContextFree (Action.wait s).paths)
include h

theorem span_congr {now now' : Timestamp} (hnow : s.duration.ReadsClock → now = now') (name : String)
    (input : Document) : s.span now name c input = s.span now' name c' input := by
  obtain ⟨hfilters, hduration⟩ := contextFree_append.1 h
  rw [span, span, Filters.input_congr c c' hfilters]
  cases hd : s.duration with
  | seconds n => rfl
  | timestamp t => rw [hnow (by rw [hd]; trivial)]; rfl
  | secondsPath p =>
    have hp : p.ofContext = false := hduration p (by simp [hd, WaitDuration.paths])
    simp only [WaitDuration.span, p.value_congr c c' hp]
  | timestampPath p =>
    have hp : p.ofContext = false := hduration p (by simp [hd, WaitDuration.paths])
    simp only [WaitDuration.span, p.value_congr c c' hp, hnow (by rw [hd]; trivial)]

theorem outcome_congr (input : Document) : s.outcome c input = s.outcome c' input := by
  obtain ⟨hfilters, -⟩ := contextFree_append.1 h
  rw [outcome, outcome, Filters.input_congr c c' hfilters, Filters.output_congr c c' hfilters]

end WaitState

theorem shapeResult_congr {results : Results} {filters : Filters} (hfilters : ContextFree filters.paths)
    (hselector : ContextFree (templatePaths results.selector)) (input result : Document) :
    shapeResult results filters c input result = shapeResult results filters c' input result := by
  simp only [shapeResult, renderWith_congr c c' hselector, Filters.output_congr c c' hfilters]

end StepFlow
