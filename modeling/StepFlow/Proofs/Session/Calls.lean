import StepFlow.Proofs.Execution.Onward
import StepFlow.Session

/-!
# Sequences of calls

A session is driven by any sequence of steps and runs, which may come after an end, an abort or a
timeout. `Session.calls` makes them one after the other and collects the replies.
-/

namespace StepFlow

namespace Session

/-- A way to go on with a session. -/
inductive Call where
  | step
  | run
  deriving DecidableEq, Repr, Inhabited

inductive Reply where
  | step (result : Except RuntimeError Status)
  | run (result : Except RuntimeError Document)

variable {ω : Type}

def call (setting : Setting) (runners : Runners ω) (budget : Nat) (s : Session ω) :
    Call → Option (Session ω × Reply)
  | .step => (s.step setting runners budget).map fun (s, result) => (s, .step result)
  | .run => (s.run setting runners budget).map fun (s, result) => (s, .run result)

/-- The session after the calls, and what they gave; none when the budget of a call is used up. -/
def calls (setting : Setting) (runners : Runners ω) (budget : Nat) :
    List Call → Session ω → Option (Session ω × List Reply)
  | [], s => some (s, [])
  | c :: rest, s => do
    let (s, reply) ← s.call setting runners budget c
    let (s, replies) ← calls setting runners budget rest s
    return (s, reply :: replies)

variable {setting : Setting} {runners : Runners ω} {budget : Nat} {s s' : Session ω}

/-- A call is a step or a run. -/
theorem call_cases {c : Call} {reply : Reply} (h : s.call setting runners budget c = some (s', reply)) :
    (∃ result, reply = .step result ∧ s.step setting runners budget = some (s', result)) ∨
      ∃ result, reply = .run result ∧ s.run setting runners budget = some (s', result) := by
  cases c with
  | step =>
    obtain ⟨⟨s₁, result⟩, hstep, heq⟩ := Option.map_eq_some_iff.1 h
    cases heq
    exact .inl ⟨result, rfl, hstep⟩
  | run =>
    obtain ⟨⟨s₁, result⟩, hrun, heq⟩ := Option.map_eq_some_iff.1 h
    cases heq
    exact .inr ⟨result, rfl, hrun⟩

/-- The first of several calls, and the others after it. -/
theorem calls_cons {c : Call} {cs : List Call} {replies : List Reply}
    (h : s.calls setting runners budget (c :: cs) = some (s', replies)) :
    ∃ s₁ reply rest, s.call setting runners budget c = some (s₁, reply) ∧
      s₁.calls setting runners budget cs = some (s', rest) ∧ replies = reply :: rest := by
  simp only [calls, Option.bind_eq_bind, Option.bind_eq_some_iff] at h
  obtain ⟨⟨s₁, reply⟩, h₁, ⟨s₂, rest⟩, h₂, h₃⟩ := h
  cases h₃
  exact ⟨s₁, reply, rest, h₁, h₂, rfl⟩

/-- A relation that no call leaves holds of the session before and after any calls. -/
theorem calls_induction {R : Session ω → Session ω → Prop} (hrefl : ∀ s, R s s)
    (htrans : ∀ s₁ s₂ s₃, R s₁ s₂ → R s₂ s₃ → R s₁ s₃)
    (hcall : ∀ s c s' reply, s.call setting runners budget c = some (s', reply) → R s s')
    {cs : List Call} {replies : List Reply}
    (h : s.calls setting runners budget cs = some (s', replies)) : R s s' := by
  induction cs generalizing s replies with
  | nil =>
    simp only [calls, Option.some.injEq, Prod.mk.injEq] at h
    exact h.1 ▸ hrefl s
  | cons c cs ih =>
    obtain ⟨s₁, reply, rest, h₁, h₂, rfl⟩ := calls_cons h
    exact htrans _ _ _ (hcall _ _ _ _ h₁) (ih h₂)

/-- The execution goes onward, and what comes to be asked, tasks of its workflow ask. -/
structure Onward (setting : Setting) (s s' : Session ω) : Prop where
  execution : s.execution.Onward s'.execution
  calls : ∃ more, s'.timeline.calls = s.timeline.calls ++ more ∧
    ∀ l ∈ more, s.execution.workflow.Makes setting l.what

namespace Onward

theorem refl (s : Session ω) : s.Onward setting s := ⟨.refl _, [], by simp⟩

theorem trans {s₁ s₂ s₃ : Session ω} (h : s₁.Onward setting s₂) (h' : s₂.Onward setting s₃) :
    s₁.Onward setting s₃ := by
  obtain ⟨more, hmore, hmakes⟩ := h.calls
  obtain ⟨more', hmore', hmakes'⟩ := h'.calls
  rw [h.execution.workflow] at hmakes'
  refine ⟨h.execution.trans h'.execution, more ++ more', ?_, fun l hl => ?_⟩
  · rw [hmore', hmore, List.append_assoc]
  · exact (List.mem_append.1 hl).elim (hmakes l) (hmakes' l)

theorem close (result : Except RuntimeError Document) (s : Session ω) :
    s.Onward setting (close result s).1 := by
  cases result with
  | ok output => exact ⟨.refl _, [], by simp [Session.close, Session.tell, Timeline.logEvent]⟩
  | error e => exact ⟨.withStatus _ _, [], by simp [Session.close, Session.tell, Timeline.logEvent]⟩

end Onward

/-- A session in which a process that leads its execution onward has run. -/
theorem onward_of_run {α : Type} {p : Process Execution (Execution × α)}
    (hp : p.Keeps (s.execution.onward setting)) (runners : Runners ω) (deadline : Option Duration) :
    match p.run runners deadline s.timeline with
    | (.finished (x, _), t) => s.Onward setting ⟨x, t⟩
    | (.cut x, t) => s.Onward setting ⟨x, t⟩
    | (.stuck, _) => True := by
  obtain ⟨hmeets, hlogs⟩ := hp.run runners deadline s.timeline
  split <;> rename_i heq <;> rw [heq] at hmeets hlogs
  · exact ⟨hmeets, hlogs.calls⟩
  · exact ⟨hmeets, hlogs.calls⟩
  · trivial

theorem step_onward {result : Except RuntimeError Status}
    (h : s.step setting runners budget = some (s', result)) : s.Onward setting s' := by
  have hrun := onward_of_run (Execution.step_onward setting budget s.execution) runners none
  unfold Session.step at h
  split at h
  · rename_i heq
    rw [heq] at hrun
    cases h
    exact hrun
  · cases h
  · cases h

theorem run_onward {result : Except RuntimeError Document}
    (h : s.run setting runners budget = some (s', result)) : s.Onward setting s' := by
  have hrun := onward_of_run (Execution.drive_onward setting budget s.execution) runners s.deadline
  unfold Session.run at h
  split at h
  · rename_i heq
    rw [heq] at hrun
    obtain rfl := congrArg Prod.fst (Option.some.inj h)
    exact Onward.trans hrun (.close _ _)
  · rename_i heq
    rw [heq] at hrun
    obtain rfl := congrArg Prod.fst (Option.some.inj h)
    exact Onward.trans hrun (.close _ _)
  · cases h

/-- A session goes onward by every call. -/
theorem call_onward {c : Call} {reply : Reply}
    (h : s.call setting runners budget c = some (s', reply)) : s.Onward setting s' := by
  obtain ⟨result, -, hstep⟩ | ⟨result, -, hrun⟩ := call_cases h
  · exact step_onward hstep
  · exact run_onward hrun

theorem calls_onward {cs : List Call} {replies : List Reply}
    (h : s.calls setting runners budget cs = some (s', replies)) : s.Onward setting s' :=
  calls_induction (R := Onward setting) .refl (fun _ _ _ => .trans) (fun _ _ _ _ => call_onward) h

end Session

end StepFlow
