import StepFlow.Proofs.Execution.Credentials
import StepFlow.Proofs.Session.Calls

/-!
# Sessions under other credentials

Two sessions that differ in their credentials only, with runners that do not look at the secrets, go
on alike by any calls: the same replies, the same execution with its whole context, the same events at
the same times, and the same requests up to their secrets. The secrets of every request are those of a
task of the workflow.
-/

namespace StepFlow
namespace Session

variable {ω α β : Type}

/-- The same execution, on timelines that differ in secrets only. -/
structure Alike (R : ω → ω → Prop) (s s' : Session ω) : Prop where
  execution : s.execution = s'.execution
  timeline : s.timeline.Alike Request.SameButSecrets R s'.timeline

/-- Neither gives anything, or both give the same with sessions that are alike. -/
abbrev AlikeWith (R : ω → ω → Prop) : Option (Session ω × α) → Option (Session ω × α) → Prop :=
  Option.Rel fun a b => a.1.Alike R b.1 ∧ a.2 = b.2

variable {R : ω → ω → Prop} {s s' : Session ω}

theorem AlikeWith.map {o o' : Option (Session ω × α)} (h : AlikeWith R o o') (g : α → β) :
    AlikeWith R (o.map fun (s, a) => (s, g a)) (o'.map fun (s, a) => (s, g a)) := by
  cases h with
  | none => exact .none
  | some h => exact .some ⟨h.1, congrArg g h.2⟩

theorem AlikeWith.bind {o o' : Option (Session ω × α)} {k k' : Session ω × α → Option (Session ω × β)}
    (h : AlikeWith R o o') (hk : ∀ s s' a, s.Alike R s' → AlikeWith R (k (s, a)) (k' (s', a))) :
    AlikeWith R (o.bind k) (o'.bind k') := by
  cases h with
  | none => exact .none
  | @some a b h =>
    obtain ⟨s, reply⟩ := a
    obtain ⟨s', reply'⟩ := b
    obtain ⟨h, rfl⟩ := h
    exact hk s s' reply h

theorem close_alike {t t' : Timeline ω} (h : t.Alike Request.SameButSecrets R t') (x : Execution)
    (result : Except RuntimeError Document) :
    (close result ⟨x, t⟩).1.Alike R (close result ⟨x, t'⟩).1 ∧
      (close result ⟨x, t⟩).2 = (close result ⟨x, t'⟩).2 := by
  cases result with
  | ok output => exact ⟨⟨rfl, h.logEvent _ _⟩, rfl⟩
  | error e => exact ⟨⟨rfl, h.logEvent _ _⟩, rfl⟩

section
variable {runners : Runners ω} (hblind : runners.Blind Request.SameButSecrets R) (setting : Setting)
  (credentials : Document) (budget : Nat)
include hblind

theorem Alike.step (h : s.Alike R s') :
    AlikeWith R (s.step setting runners budget) (s'.step { setting with credentials } runners budget) := by
  obtain ⟨⟨⟩, -⟩ | ⟨hending, htimeline⟩ :=
    (Execution.step_credentials setting credentials budget s.execution).run hblind h.timeline none
  unfold Session.step
  rw [← h.execution]
  generalize Process.run _ _ _ s.timeline = l at *
  generalize Process.run _ _ _ s'.timeline = l' at *
  obtain ⟨ending, t⟩ := l
  obtain ⟨ending', t'⟩ := l'
  obtain rfl : ending = ending' := hending
  cases ending with
  | finished a => exact .some ⟨⟨rfl, htimeline⟩, rfl⟩
  | cut x => exact .none
  | stuck => exact .none

theorem Alike.run (h : s.Alike R s') :
    AlikeWith R (s.run setting runners budget) (s'.run { setting with credentials } runners budget) := by
  have hdeadline : s'.deadline = s.deadline := by
    simp only [Session.deadline, h.execution, h.timeline.clock]
  obtain ⟨⟨⟩, -⟩ | ⟨hending, htimeline⟩ :=
    (Execution.drive_credentials setting credentials budget s.execution).run hblind h.timeline s.deadline
  unfold Session.run
  rw [← h.execution, hdeadline]
  generalize Process.run _ _ _ s.timeline = l at *
  generalize Process.run _ _ _ s'.timeline = l' at *
  obtain ⟨ending, t⟩ := l
  obtain ⟨ending', t'⟩ := l'
  obtain rfl : ending = ending' := hending
  cases ending with
  | finished a => exact .some (close_alike htimeline a.1 a.2)
  | cut x => exact .some (close_alike htimeline x _)
  | stuck => exact .none

theorem Alike.call (h : s.Alike R s') (c : Call) :
    AlikeWith R (s.call setting runners budget c)
      (s'.call { setting with credentials } runners budget c) := by
  cases c with
  | step => exact (h.step hblind setting credentials budget).map Reply.step
  | run => exact (h.run hblind setting credentials budget).map Reply.run

theorem Alike.calls (h : s.Alike R s') (cs : List Call) :
    AlikeWith R (s.calls setting runners budget cs)
      (s'.calls { setting with credentials } runners budget cs) := by
  induction cs generalizing s s' with
  | nil => exact .some ⟨h, rfl⟩
  | cons c cs ih =>
    refine (h.call hblind setting credentials budget c).bind fun s₁ s₁' reply h₁ => ?_
    exact (ih h₁).bind fun s₂ s₂' replies h₂ => .some ⟨h₂, rfl⟩

end

/-- Under any two credentials and with runners that do not look at the secrets, a session goes on alike
by any calls, and all it asks, tasks of its workflow ask with their credentials. Those depend neither
on the input of the task nor on the execution in which it is run: wherever a task is run, its requests
have the secrets that its template gives with nothing but the credentials. -/
theorem calls_credentials (setting : Setting) (credentials : Document) (runners : Runners ω)
    (R : ω → ω → Prop) (hblind : runners.Blind Request.SameButSecrets R) (world world' : ω)
    (hworld : R world world') (x : Execution) (budget : Nat) (cs : List Call) :
    AlikeWith R ((start x world).calls setting runners budget cs)
        ((start x world').calls { setting with credentials } runners budget cs) ∧
      (∀ s replies, (start x world).calls setting runners budget cs = some (s, replies) →
        ∀ l ∈ s.timeline.calls, x.workflow.Makes setting l.what) ∧
      ∀ (drive : Execution → Process Execution (Execution × Except RuntimeError Document)) (budget : Nat)
        (name : String) (comment : Option String) (task : TaskState) (input : Document) (y : Execution),
        (Execution.runState drive setting budget name (.mk comment (.task task)) input y).Keeps
          (Execution.asksOnly fun site r =>
            site = [] ∧ r.resource = task.resource ∧ r.secrets = task.secrets setting) := by
  have halike : (start x world).Alike R (start x world') := ⟨rfl, rfl, hworld, rfl, .nil⟩
  refine ⟨halike.calls hblind setting credentials budget cs, fun s replies h => ?_,
    fun drive budget name comment task input y =>
      Execution.runState_secrets drive setting budget name comment task input y⟩
  obtain ⟨more, hmore, hmakes⟩ := (calls_onward h).calls
  rw [hmore]
  simpa [start, Timeline.start] using hmakes

/-- A task that hands the credentials over as they are. -/
def handOver : Workflow :=
  .mk "login" [("login", .mk none (.task ⟨"test://login", ⟨none, none⟩, .final, ⟨none, none⟩, none,
    ⟨[], []⟩, none, none, some (.path ⟨"$", false, []⟩)⟩))] none none

def handOverSetting (credentials : Document) : Setting := ⟨[("test", ())], credentials, default, default⟩

/-- Runners that keep the last request and never fail. -/
def keepLast : Runners (Option Request) := fun _ r => (some r, ⟨0, .ok ⟨0, "done"⟩⟩)

/-- A run under the credentials `a` and one under `b`: each asks once and hands over its own. -/
theorem calls_credentials_handOver :
    ∃ (s s' : Session (Option Request)) (replies : List Reply),
      (start (.start handOver "" "" .null) none).calls (handOverSetting (.str "a")) keepLast 2 [.run] =
          some (s, replies) ∧
        (start (.start handOver "" "" .null) none).calls (handOverSetting (.str "b")) keepLast 2
          [.run] = some (s', replies) ∧
        s.Alike (fun _ _ => True) s' ∧
        s.timeline.calls.map (·.what.secrets) = [.str "a"] ∧
        s'.timeline.calls.map (·.what.secrets) = [.str "b"] := by
  have hblind : keepLast.Blind Request.SameButSecrets fun _ _ => True := fun _ _ _ _ _ _ => ⟨trivial, rfl⟩
  have ha : ((start (.start handOver "" "" .null) none).calls (handOverSetting (.str "a")) keepLast 2
      [.run]).map (fun r => r.1.timeline.calls.map (·.what.secrets)) = some [.str "a"] := rfl
  have hb : ((start (.start handOver "" "" .null) none).calls (handOverSetting (.str "b")) keepLast 2
      [.run]).map (fun r => r.1.timeline.calls.map (·.what.secrets)) = some [.str "b"] := rfl
  obtain ⟨⟨s, replies⟩, hs, hsecrets⟩ := Option.map_eq_some_iff.1 ha
  obtain ⟨⟨s', replies'⟩, hs', hsecrets'⟩ := Option.map_eq_some_iff.1 hb
  have halike := (calls_credentials (handOverSetting (.str "a")) (.str "b") keepLast _ hblind none none
    trivial (.start handOver "" "" .null) 2 [.run]).1
  rw [hs, show { handOverSetting (.str "a") with credentials := .str "b" } = handOverSetting (.str "b")
    from rfl, hs'] at halike
  cases halike with
  | some h =>
    obtain ⟨h, rfl⟩ := h
    exact ⟨s, s', _, hs, hs', h, hsecrets, hsecrets'⟩

end Session
end StepFlow
