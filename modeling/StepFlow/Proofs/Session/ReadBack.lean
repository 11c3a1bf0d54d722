import StepFlow.Proofs.Execution.Canonical
import StepFlow.Proofs.Session.Calls

/-!
# Contexts read back in a session

Every context of a session, at any moment and at any depth, is read back from its document, up to the outputs
that are null (`calls_readBack`): an output that is null is written like any other, and read as none at all.
-/

namespace StepFlow

/-- Unless a number in it is too large, the context is read back from its document without the outputs that
are null; as it was, if there are none. -/
def Context.ReadsBack (c : Context) : Prop :=
  c.Fits → ofDocument? c.toDocument = some c.withoutNulls ∧
    (ofDocument? c.toDocument = some c ↔ ∀ r ∈ c.state :: c.states, r.output ≠ some .null)

theorem Context.Canonical.readsBack {c : Context} (h : c.Canonical) : c.ReadsBack := by
  intro hfits
  have hback := ofDocument?_toDocument h hfits
  refine ⟨hback, ?_⟩
  rw [hback, Option.some.injEq]
  exact withoutNulls_eq_iff

theorem Execution.canonical_start {w : Workflow} {input : Document} (hw : w.Canonical) (hinput : input.Canonical)
    (id startTime : String) : (Execution.start w id startTime input).Canonical where
  context := ⟨hinput, ⟨hinput, nofun, nofun⟩, nofun, Document.canonical_obj_iff.2 ⟨.nil, nofun⟩,
    Document.canonical_obj_iff.2 ⟨.nil, nofun⟩, nofun⟩
  workflow := hw
  output := nofun

namespace Session
open Execution Process

variable {ω : Type} {setting : Setting} {runners : Runners ω} {budget : Nat} {s s' : Session ω}

/-- A call carries on what steps do, if it does not depend on the status. -/
theorem call_pervades {P : Execution → Prop} (hP : Pervades setting P)
    (hstatus : ∀ x status, P x → P { x with status }) (hs : P s.execution) (htree : s.execution.TreeBehind)
    {c : Call} {reply : Reply} (h : s.call setting runners budget c = some (s', reply)) : P s'.execution := by
  have hclose (result : Except RuntimeError Document) (s : Session ω) (hs : P s.execution) :
      P (close result s).1.execution := by
    cases result with
    | ok output => exact hs
    | error e => exact hstatus _ _ hs
  obtain ⟨result, -, h⟩ | ⟨result, -, h⟩ := call_cases h
  · unfold Session.step at h
    split at h
    · rename_i hrun
      obtain ⟨acts, hdoes, -⟩ := Does.of_run hrun nofun
      cases h
      exact hP.shows hs htree hdoes rfl
    · cases h
    · cases h
  · unfold Session.run at h
    split at h
    · rename_i x result t hrun
      obtain ⟨acts, hdoes, -⟩ := Does.of_run hrun nofun
      obtain rfl := congrArg Prod.fst (Option.some.inj h)
      exact hclose _ ⟨x, t⟩ (drive_unfolds hP budget hs htree hdoes rfl).holds
    · rename_i x t hrun
      obtain ⟨acts, hdoes, -⟩ := Does.of_run hrun nofun
      obtain rfl := congrArg Prod.fst (Option.some.inj h)
      exact hclose _ ⟨x, t⟩ (drive_unfolds hP budget hs htree hdoes rfl).holds
    · cases h

theorem calls_pervade {P : Execution → Prop} (hP : Pervades setting P)
    (hstatus : ∀ x status, P x → P { x with status }) (hs : P s.execution) (htree : s.execution.TreeBehind)
    {cs : List Call} {replies : List Reply} (h : s.calls setting runners budget cs = some (s', replies)) :
    P s'.execution ∧ s'.execution.TreeBehind :=
  calls_induction (R := fun s s' => P s.execution ∧ s.execution.TreeBehind → P s'.execution ∧ s'.execution.TreeBehind)
    (fun _ => id) (fun _ _ _ h h' => h' ∘ h)
    (fun _ _ _ _ hcall hs => ⟨call_pervades hP hstatus hs.1 hs.2 hcall, (call_onward hcall).execution.tree hs.2⟩)
    h ⟨hs, htree⟩

/-- Whatever calls are made on an execution of a workflow that has been read, on an input whose objects are
sorted, its context reads back, and so do those of all executions that make up a further run or step, at any
depth and at any time. -/
theorem calls_readBack {d : Document} {g : Definition.Graph} {w : Workflow}
    (hd : Definition.Graph.ofDocument? d = some g) (hw : Workflow.ofDefinition g = .ok w) (world : ω)
    (id startTime : String) {input : Document} (hinput : input.Canonical)
    (hduration : ∃ x, setting.stamps.duration = .num (.float x)) (cs : List Call) (replies : List Reply)
    (h : (start (.start w id startTime input) world).calls setting runners budget cs = some (s, replies))
    (more : Nat) :
    s.execution.context.ReadsBack ∧
    (∀ acts e y, (Execution.drive setting more s.execution).Does acts e → e.Shows y →
      Unfolds setting (·.context.ReadsBack) s.execution acts y) ∧
    ∀ acts e y, (Execution.step setting more s.execution).Does acts e → e.Shows y →
      Unfolds setting (·.context.ReadsBack) s.execution acts y := by
  have hcanonical : w.Canonical :=
    Workflow.canonical_of_ofDefinition (Definition.Graph.readable_of_ofDocument? hd) hw
  have hpervades : Pervades setting Execution.Canonical := pervades_canonical hduration
  obtain ⟨hs, htree⟩ := calls_pervade hpervades (fun _ status hx => hx.withStatus status)
    (canonical_start hcanonical hinput id startTime) (.inl rfl) h
  have hreads (x : Execution) (hx : x.Canonical) : x.context.ReadsBack := hx.context.readsBack
  exact ⟨hreads _ hs, fun acts e y hdoes hy => (drive_unfolds hpervades more hs htree hdoes hy).mono hreads,
    fun acts e y hdoes hy => (step_unfolds hpervades more hs htree hdoes hy).mono hreads⟩

/-- One state, the output of which is what its path does not find. -/
def lostOutput : Document :=
  .obj [("StartAt", .str "Only"), ("States", .obj [
    ("Only", .obj [("Type", .str "Pass"), ("OutputPath", .str "$.missing"), ("End", .bool true)])])]

/-- States take no time. -/
def timeless : Setting := { (default : Setting) with stamps := ⟨"", "", .num (.float (.ofInt 0))⟩ }

/-- The run of the one state, and what is kept of it in the history and read of its context. -/
theorem run_lostOutput :
    ∃ (g : Definition.Graph) (w : Workflow) (s : Session Unit) (replies : List Reply) (r : StateRecord),
      Definition.Graph.ofDocument? lostOutput = some g ∧ Workflow.ofDefinition g = .ok w ∧
        (start (.start w "" "" (.obj [])) ()).calls timeless (fun _ _ => ((), ⟨0, .ok ⟨0, ""⟩⟩)) 2 [.run] =
          some (s, replies) ∧
        s.execution.context.states = [r] ∧ r.output.any (·.isNull) ∧ s.execution.context.Fits ∧
        (Context.ofDocument? s.execution.context.toDocument).any (·.states.all (·.output.isNone)) := by
  have hrun : (Definition.Graph.ofDocument? lostOutput).any fun g => (Workflow.ofDefinition g).toOption.any fun w =>
      ((start (.start w "" "" (.obj [])) ()).calls timeless (fun _ _ => ((), ⟨0, .ok ⟨0, ""⟩⟩)) 2 [.run]).any
        fun (s, _) =>
          let c := s.execution.context
          c.state.retryCount == 0 && c.item.isNone &&
            (c.states.map fun r => (r.output.any (·.isNull), r.retryCount)) == [(true, 0)] &&
            (Context.ofDocument? c.toDocument).any (·.states.all (·.output.isNone)) := by
    decide +kernel
  obtain ⟨g, hg, hrun⟩ := (Option.any_eq_true _ _).1 hrun
  obtain ⟨w, hw, hrun⟩ := (Option.any_eq_true _ _).1 hrun
  obtain ⟨⟨s, replies⟩, h, hrun⟩ := (Option.any_eq_true _ _).1 hrun
  simp only [Bool.and_eq_true, beq_iff_eq, Option.isNone_iff_eq_none] at hrun
  obtain ⟨⟨⟨hstate, hitem⟩, hstates⟩, hback⟩ := hrun
  obtain ⟨r, hr, hrecord⟩ := List.map_eq_singleton_iff.1 hstates
  obtain ⟨houtput, hcount⟩ := Prod.mk.inj hrecord
  have hfits : s.execution.context.Fits := by
    refine ⟨?_, ?_, ?_⟩ <;> simp [StateRecord.Fits, hr, hstate, hcount, hitem]
  exact ⟨g, w, s, replies, r, hg, Except.eq_ok_of_toOption hw, h, hr, houtput, hfits, hback⟩

theorem calls_readBack_lostOutput :
    ∃ (g : Definition.Graph) (w : Workflow) (s : Session Unit) (replies : List Reply),
      Definition.Graph.ofDocument? lostOutput = some g ∧ Workflow.ofDefinition g = .ok w ∧
        (start (.start w "" "" (.obj [])) ()).calls timeless (fun _ _ => ((), ⟨0, .ok ⟨0, ""⟩⟩)) 2 [.run] =
          some (s, replies) ∧
        s.execution.context.Fits ∧ s.execution.context.ReadsBack := by
  obtain ⟨g, w, s, replies, -, hg, hw, h, -, -, hfits, -⟩ := run_lostOutput
  have hinput : (Document.obj []).Canonical := Document.canonical_obj_iff.2 ⟨.nil, nofun⟩
  have hreads := calls_readBack hg hw () "" "" hinput ⟨_, rfl⟩ _ _ h 2
  exact ⟨g, w, s, replies, hg, hw, h, hfits, hreads.1⟩

/-- The output of a state that is done is null, and does not come back. -/
theorem ofDocument?_ne_of_lostOutput :
    ∃ (g : Definition.Graph) (w : Workflow) (s : Session Unit) (replies : List Reply) (r : StateRecord) (c : Context),
      Definition.Graph.ofDocument? lostOutput = some g ∧ Workflow.ofDefinition g = .ok w ∧
        (start (.start w "" "" (.obj [])) ()).calls timeless (fun _ _ => ((), ⟨0, .ok ⟨0, ""⟩⟩)) 2 [.run] =
          some (s, replies) ∧
        s.execution.context.states = [r] ∧ r.output = some .null ∧ s.execution.context.Fits ∧
        Context.ofDocument? s.execution.context.toDocument = some c ∧ (∀ r ∈ c.states, r.output = none) ∧
        c ≠ s.execution.context := by
  obtain ⟨g, w, s, replies, r, hg, hw, h, hr, houtput, hfits, hback⟩ := run_lostOutput
  obtain ⟨d, hd, hnull⟩ := (Option.any_eq_true _ _).1 houtput
  obtain ⟨c, hc, hnone⟩ := (Option.any_eq_true _ _).1 hback
  have houtput : r.output = some .null := by
    cases d with
    | null => exact hd
    | _ => cases hnull
  have hnone : ∀ r ∈ c.states, r.output = none := by simpa using hnone
  refine ⟨g, w, s, replies, r, c, hg, hw, h, hr, houtput, hfits, hc, hnone, ?_⟩
  rintro rfl
  cases houtput.symm.trans (hnone r (by simp [hr]))

end Session
end StepFlow
