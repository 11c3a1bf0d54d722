import StepFlow.Execution.Step
import StepFlow.Proofs.Process.Contract

/-!
# The tree of an execution

`Execution.sync` writes only the record of the state under way and the records that are new. Its
result is nevertheless the document of the whole context: the tree is at any time that of an earlier
context (`TreeBehind`), and a context only changes by its record under way and by new records at the
end of its history (`Context.Extends`).
-/

namespace StepFlow

namespace Context

/-- The context `d` is what `c` can become: only the record under way has changed, and records have
been appended to the history. -/
structure Extends (c d : Context) : Prop where
  execution : d.execution = c.execution
  states : ∃ more, d.states = c.states ++ more
  stateMachine : d.stateMachine = c.stateMachine
  task : d.task = c.task
  item : d.item = c.item

namespace Extends

variable {c d e : Context}

theorem refl (c : Context) : c.Extends c := ⟨rfl, ⟨[], by simp⟩, rfl, rfl, rfl⟩

theorem trans (h : c.Extends d) (h' : d.Extends e) : c.Extends e := by
  obtain ⟨more, hmore⟩ := h.states
  obtain ⟨more', hmore'⟩ := h'.states
  refine ⟨h'.execution.trans h.execution, ⟨more ++ more', ?_⟩, h'.stateMachine.trans h.stateMachine,
    h'.task.trans h.task, h'.item.trans h.item⟩
  rw [hmore', hmore, List.append_assoc]

theorem withState (c : Context) (record : StateRecord) : c.Extends { c with state := record } :=
  ⟨rfl, ⟨[], by simp⟩, rfl, rfl, rfl⟩

theorem enter (stamps : Stamps) (name : String) (input : Document) (c : Context) :
    c.Extends (c.enter stamps name input) := withState c _

theorem finish (stamps : Stamps) (output : Document) (c : Context) :
    c.Extends (c.finish stamps output) := ⟨rfl, ⟨_, rfl⟩, rfl, rfl, rfl⟩

end Extends

/-- The document of a context, its members in their order. -/
theorem toDocument_eq (c : Context) :
    c.toDocument = .obj (("Execution", c.execution.toDocument) ::
      (Record.present "Map" MapItem.toDocument c.item ++
        [("State", c.state.toDocument), ("StateMachine", .obj c.stateMachine),
          ("States", .arr (c.states.map (·.toDocument))), ("Task", .obj c.task)])) := by
  rw [toDocument]
  cases c.item <;> rfl

end Context

namespace Execution

variable {x : Execution}

@[simp] theorem sync_context (x : Execution) : x.sync.context = x.context := by
  unfold sync
  split <;> rfl

/-- The tree is still to be written, or that of an earlier context. -/
def TreeBehind (x : Execution) : Prop :=
  x.tree = .null ∨ ∃ c : Context, c.Extends x.context ∧ x.tree = c.toDocument

theorem extendHistory_toDocument (records more : List StateRecord) :
    extendHistory (records.map (·.toDocument)) (records ++ more) =
      (records ++ more).map (·.toDocument) := by
  simp [extendHistory]

/-- Bringing the tree up to date gives the document of the whole context. -/
theorem TreeBehind.sync_tree (h : x.TreeBehind) : x.sync.tree = x.context.toDocument := by
  rcases h with h | ⟨c, hc, h⟩
  · simp [sync, h]
  obtain ⟨more, hmore⟩ := hc.states
  have hhistory := extendHistory_toDocument c.states more
  rw [← hmore] at hhistory
  rw [Context.toDocument_eq] at h ⊢
  rw [hc.execution, hc.stateMachine, hc.task, hc.item, ← hhistory, sync, h]
  cases c.item <;> rfl

namespace TreeBehind

theorem sync (h : x.TreeBehind) : x.sync.TreeBehind :=
  .inr ⟨x.context, by rw [sync_context]; exact .refl _, h.sync_tree⟩

theorem extends' {c : Context} (h : x.TreeBehind) (hc : x.context.Extends c) :
    TreeBehind { x with context := c } := by
  rcases h with h | ⟨d, hd, h⟩
  · exact .inl h
  · exact .inr ⟨d, hd.trans hc, h⟩

end TreeBehind

end Execution

end StepFlow
