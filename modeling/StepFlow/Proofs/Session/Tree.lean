import StepFlow.Proofs.Execution.Checked
import StepFlow.Proofs.Session.Calls

/-!
# The tree in a session

Wherever a state of a session reads the tree, in an execution nested however deep and at the head of
every attempt, the tree is the document of the whole context. A check of this after every `sync` never
fails: what it would go on with (`bad`) is of no consequence to any process that the session runs.
-/

namespace StepFlow
namespace Session

/-- After any calls, a step and a run go as they do with the tree checked after every `sync`; and no
execution, nested or not, changes more of its context than the record under way and the end of its
history. -/
theorem calls_tree_checked {ω : Type} (setting : Setting) (runners : Runners ω) (world : ω)
    (workflow : Workflow) (id startTime : String) (input : Document) (budget : Nat) (cs : List Call)
    (s : Session ω) (replies : List Reply)
    (h : (start (.start workflow id startTime input) world).calls setting runners budget cs =
      some (s, replies))
    (bad : Execution → Execution) (more : Nat) :
    Execution.stepVia (Execution.checked bad) gather setting more s.execution =
        Execution.step setting more s.execution ∧
      Execution.driveVia (Execution.checked bad) gather setting more s.execution =
        Execution.drive setting more s.execution ∧
      ∀ x : Execution, (Execution.drive setting more x).Keeps
        { shows := fun y => x.context.Extends y.context
          ends := fun r => x.context.Extends r.1.context } := by
  have htree : s.execution.TreeBehind := (calls_onward h).execution.tree (.inl rfl)
  refine ⟨Execution.stepVia_checked setting more htree,
    Execution.driveVia_checked setting more htree, fun x => ?_⟩
  exact (Execution.drive_onward setting more x).mono (fun _ _ h => h) (fun _ _ _ => trivial)
    (fun _ h => h.context) (fun _ h => h.context)

/-- A state that passes its input on and one that ends the execution. -/
def passThenSucceed : Workflow :=
  .mk "first" [("first", .mk none (.pass ⟨⟨none, none⟩, .next "last", none, none, none⟩)),
    ("last", .mk none (.succeed ⟨none, none⟩))] none none

/-- After one step of two, with the first state in the history. -/
theorem calls_tree_checked_passThenSucceed :
    ∃ (s : Session Unit) (replies : List Reply),
      (start (.start passThenSucceed "" "" .null) ()).calls default
          (fun _ _ => ((), ⟨0, .ok ⟨0, ""⟩⟩)) 2 [.step] = some (s, replies) ∧
        s.execution.current = "last" ∧
        Execution.stepVia (Execution.checked fun _ => default) gather default 2 s.execution =
          Execution.step default 2 s.execution := by
  have hcurrent : ((start (.start passThenSucceed "" "" .null) ()).calls default
      (fun _ _ => ((), ⟨0, .ok ⟨0, ""⟩⟩)) 2 [.step]).map (·.1.execution.current) = some "last" := by
    decide
  obtain ⟨⟨s, replies⟩, h, hlast⟩ := Option.map_eq_some_iff.1 hcurrent
  exact ⟨s, replies, h, hlast, (calls_tree_checked _ _ _ _ _ _ _ _ _ _ _ h _ _).1⟩

end Session
end StepFlow
