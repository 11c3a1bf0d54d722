import StepFlow.Execution.Step

/-!
# What attempts gather

An attempt at a Map or Parallel state is whatever joins its nested executions, with one step after it
(`attemptMapVia_eq`, `attemptParallelVia_eq`). What is joined, and what is made of the outputs, is the same
in whatever way they are joined.
-/

namespace StepFlow
namespace Execution

/-! ### What an attempt gathers -/

/-- What the outputs of nested executions come to. -/
def collect (results : Results) (filters : Filters) (tree input : Document) :
    Except TaskFailure (List Document) → Except TaskFailure Document
  | .error f => .error f
  | .ok outputs => shapeResult results filters tree input (.arr outputs)

/-- The items of a Map state; none when its path selects no array. -/
def items? (s : MapState) (input : Document) (x : Execution) : Option (List Document) :=
  match s.itemsPath.value x.tree (s.filters.input x.tree input) with
  | some (.arr items) => some items
  | _ => none

theorem items?_eq_some {s : MapState} {input : Document} {x : Execution} {items : List Document}
    (h : items? s input x = some items) :
    s.itemsPath.value x.tree (s.filters.input x.tree input) = some (.arr items) := by
  unfold items? at h
  split at h
  · rename_i selected hselected
    rw [hselected, Option.some.inj h]
  · cases h

/-- The most iterations under way at a time. -/
def limit (s : MapState) (items : List Document) : Nat :=
  if s.maxConcurrency = 0 then max items.length 1 else s.maxConcurrency

theorem limit_pos (s : MapState) (items : List Document) : 0 < limit s items := by
  unfold limit
  split <;> omega

section
variable (join : Join)
  (drive : Execution → Process Execution (Execution × Except RuntimeError Document))

def iterations (s : MapState) (iterator : Workflow) (input : Document) (x : Execution)
    (items : List Document) : List (Slot Execution TaskFailure Document) :=
  items.zipIdx.map fun (item, i) =>
    nestedSlot drive (iteration s iterator x (s.filters.input x.tree input) i item)

variable {drive} in
theorem iterations_getElem? {s : MapState} {iterator : Workflow} {input : Document} {x : Execution}
    {items : List Document} {i : Nat} {slot : Slot Execution TaskFailure Document}
    (h : (iterations drive s iterator input x items)[i]? = some slot) :
    ∃ item, items[i]? = some item ∧
      slot = nestedSlot drive (iteration s iterator x (s.filters.input x.tree input) i item) := by
  simp only [iterations, List.getElem?_map, List.getElem?_zipIdx, Option.map_eq_some_iff] at h
  obtain ⟨_, ⟨item, hitem, rfl⟩, rfl⟩ := h
  exact ⟨item, hitem, by simp⟩

theorem attemptMapVia_eq (s : MapState) (iterator : Workflow) (input : Document) (attempt : Nat)
    (x : Execution) :
    attemptMapVia join drive s iterator input attempt x =
      match items? s input x with
      | some items =>
        Process.bind (fun result => .done (collect s.results s.filters x.tree input result))
          (join x attempt (.inOrder (limit s items)) (iterations drive s iterator input x items))
      | none =>
        .done (.error ⟨TaskFailure.runtime, "ItemsPath '" ++ s.itemsPath.expression
          ++ "' must select an array, got " ++
            ((s.itemsPath.value x.tree (s.filters.input x.tree input)).getD .null).compact⟩) := by
  unfold attemptMapVia items?
  dsimp only
  generalize s.itemsPath.value x.tree (s.filters.input x.tree input) = selected
  rcases selected with _ | selected
  · rfl
  cases selected with
  | arr items => exact congrArg (Process.bind · _) (funext fun result => by cases result <;> rfl)
  | _ => rfl

theorem attemptParallelVia_eq (s : ParallelState) (branches : List Workflow) (input : Document)
    (attempt : Nat) (x : Execution) :
    attemptParallelVia join drive s branches input attempt x =
      Process.bind (fun result => .done (collect s.results s.filters x.tree input result))
        (join x attempt
          (if branches.length ≤ maxEagerBranches then .firstFailure else .inOrder branches.length)
          (branches.map fun w => nestedSlot drive (branch x (s.filters.input x.tree input) w))) :=
  congrArg (Process.bind · _) (funext fun result => by cases result <;> rfl)

end

section
variable (drive : Execution → Process Execution (Execution × Except RuntimeError Document))

theorem attemptMap_eq (s : MapState) (iterator : Workflow) (input : Document) (attempt : Nat)
    (x : Execution) :
    attemptMap drive s iterator input attempt x =
      match items? s input x with
      | some items =>
        Process.bind (fun result => .done (collect s.results s.filters x.tree input result))
          (gather x attempt (.inOrder (limit s items)) (iterations drive s iterator input x items))
      | none =>
        .done (.error ⟨TaskFailure.runtime, "ItemsPath '" ++ s.itemsPath.expression
          ++ "' must select an array, got " ++
            ((s.itemsPath.value x.tree (s.filters.input x.tree input)).getD .null).compact⟩) :=
  attemptMapVia_eq ..

theorem attemptParallel_eq (s : ParallelState) (branches : List Workflow) (input : Document)
    (attempt : Nat) (x : Execution) :
    attemptParallel drive s branches input attempt x =
      Process.bind (fun result => .done (collect s.results s.filters x.tree input result))
        (gather x attempt
          (if branches.length ≤ maxEagerBranches then .firstFailure else .inOrder branches.length)
          (branches.map fun w => nestedSlot drive (branch x (s.filters.input x.tree input) w))) :=
  attemptParallelVia_eq ..

end

end Execution
end StepFlow
