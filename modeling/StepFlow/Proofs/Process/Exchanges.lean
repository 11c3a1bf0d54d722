import StepFlow.Proofs.Process.Contract

/-!
# What a process gives for the answers it gets

`p.Yields log a`: when its requests are answered as `log` has it, the process `p` ends with `a`. Time
does not matter here, only how long each answer takes may. Every run to the end has its exchanges
(`Yields.of_run`).

`p.Halts A` and `p.Determinate A` speak of all answers that `A` allows: with them `p` comes to an end,
and the end is always the same.
-/

namespace StepFlow

/-- A request with the answer to it. -/
structure Exchange where
  site : Site
  request : Request
  answer : Answer

/-- The answers are those of the runners, from a state of theirs on. -/
def Runners.Answer {ω : Type} (runners : Runners ω) : ω → List Exchange → Prop
  | _, [] => True
  | w, e :: log =>
    (runners w e.request).2 = e.answer ∧ runners.Answer (runners w e.request).1 log

namespace Process

variable {ω σ α β : Type} {p : Process σ α} {f : α → Process σ β} {log log' : List Exchange} {a : α}

inductive Yields : Process σ α → List Exchange → α → Prop where
  | done (a : α) : Yields (.done a) [] a
  | emit {site : Site} {event : Event} {rest : Unit → Process σ α} {log : List Exchange} {a : α}
      (h : Yields (rest ()) log a) : Yields (.emit site event rest) log a
  | call {site : Site} {request : Request} {rest : Answer → Process σ α} {log : List Exchange} {a : α}
      (answer : Answer) (h : Yields (rest answer) log a) :
      Yields (.call site request rest) (⟨site, request, answer⟩ :: log) a
  | pause {seen : σ} {span : Duration} {rest : Unit → Process σ α} {log : List Exchange} {a : α}
      (h : Yields (rest ()) log a) : Yields (.pause seen span rest) log a

/-- The answers are such as `A` allows. -/
def Allowed (A : Request → Answer → Prop) (log : List Exchange) : Prop :=
  ∀ e ∈ log, A e.request e.answer

theorem Allowed.of_runners {A : Request → Answer → Prop} {runners : Runners ω}
    (hrunners : ∀ w r, A r (runners w r).2) {w : ω} (h : runners.Answer w log) : Allowed A log := by
  induction log generalizing w with
  | nil => nofun
  | cons e log ih => exact List.forall_mem_cons.2 ⟨h.1 ▸ hrunners w e.request, ih h.2⟩

namespace Yields

theorem bind {b : β} (h : p.Yields log a) (hf : (f a).Yields log' b) :
    (Process.bind f p).Yields (log ++ log') b := by
  induction h with
  | done => exact hf
  | emit _ ih => exact .emit (ih hf)
  | call answer _ ih => exact .call answer (ih hf)
  | pause _ ih => exact .pause (ih hf)

theorem of_bind {b : β} (h : (Process.bind f p).Yields log b) :
    ∃ log₁ log₂ a, log = log₁ ++ log₂ ∧ p.Yields log₁ a ∧ (f a).Yields log₂ b := by
  induction p generalizing log with
  | done a => exact ⟨[], log, a, rfl, .done a, h⟩
  | stuck => cases h
  | emit site event rest ih =>
    cases h with
    | emit h =>
      obtain ⟨log₁, log₂, a, rfl, h₁, h₂⟩ := ih () h
      exact ⟨log₁, log₂, a, rfl, .emit h₁, h₂⟩
  | call site request rest ih =>
    cases h with
    | call answer h =>
      obtain ⟨log₁, log₂, a, rfl, h₁, h₂⟩ := ih answer h
      exact ⟨_ :: log₁, log₂, a, rfl, .call answer h₁, h₂⟩
  | pause seen span rest ih =>
    cases h with
    | pause h =>
      obtain ⟨log₁, log₂, a, rfl, h₁, h₂⟩ := ih () h
      exact ⟨log₁, log₂, a, rfl, .pause h₁, h₂⟩

theorem of_sleep {seen : σ} {span : Duration} {rest : Unit → Process σ β} {b : β}
    (h : (Process.bind rest (sleep seen span)).Yields log b) : (rest ()).Yields log b := by
  unfold sleep at h
  split at h
  · exact h
  · cases h with
    | pause h => exact h

/-- What comes after an answer sees its result only, not how long it takes. -/
theorem of_ask {seen : σ} {request : Request} {rest : Except RunnerError Report → Process σ β} {b : β}
    (h : (Process.bind rest (ask seen request)).Yields log b) :
    ∃ answer log', log = ⟨[], request, answer⟩ :: log' ∧ (rest answer.result).Yields log' b := by
  cases h with
  | call answer h =>
    dsimp only at h
    rw [bind_assoc] at h
    exact ⟨answer, _, rfl, h.of_sleep⟩

theorem meets {c : Contract σ α} (h : p.Yields log a) (hp : p.Keeps c) : c.ends a := by
  induction h with
  | done => exact hp
  | emit _ ih => exact ih hp.2
  | call answer _ ih => exact ih (hp.2 answer)
  | pause _ ih => exact ih hp.2

/-- A run to the end has its exchanges, with the answers that the runners give. -/
theorem of_run {runners : Runners ω} {deadline : Option Duration} {t t' : Timeline ω}
    (h : p.run runners deadline t = (.finished a, t')) :
    ∃ log, p.Yields log a ∧ runners.Answer t.world log := by
  induction p generalizing t with
  | done b =>
    simp only [run, Prod.mk.injEq, Ending.finished.injEq] at h
    obtain ⟨rfl, rfl⟩ := h
    exact ⟨[], .done _, trivial⟩
  | stuck => simp [run] at h
  | emit site event rest ih =>
    obtain ⟨log, hlog, hanswer⟩ := ih () h
    exact ⟨log, .emit hlog, hanswer⟩
  | call site request rest ih =>
    obtain ⟨log, hlog, hanswer⟩ := ih _ h
    exact ⟨_ :: log, .call _ hlog, rfl, hanswer⟩
  | pause seen span rest ih =>
    simp only [run] at h
    split at h
    · cases h
    · obtain ⟨log, hlog, hanswer⟩ := ih () h
      exact ⟨log, .pause hlog, hanswer⟩

end Yields

/-! ### Coming to an end -/

/-- Whatever it is answered within `A`, the process comes to its end. -/
def Halts (A : Request → Answer → Prop) : Process σ α → Prop
  | done _ => True
  | stuck => False
  | emit _ _ rest => Halts A (rest ())
  | call _ request rest => ∀ answer, A request answer → Halts A (rest answer)
  | pause _ _ rest => Halts A (rest ())

variable {A : Request → Answer → Prop}

theorem Halts.bind (hp : p.Halts A) (hf : ∀ a, (f a).Halts A) : (Process.bind f p).Halts A := by
  induction p with
  | done a => exact hf a
  | stuck => exact hp.elim
  | emit site event rest ih => exact ih () hp
  | call site request rest ih => exact fun answer hanswer => ih answer (hp answer hanswer)
  | pause seen span rest ih => exact ih () hp

theorem Halts.run {runners : Runners ω} (hp : p.Halts A) (hrunners : ∀ w r, A r (runners w r).2)
    (t : Timeline ω) : ∃ a t', p.run runners none t = (.finished a, t') := by
  induction p generalizing t with
  | done a => exact ⟨a, t, rfl⟩
  | stuck => exact hp.elim
  | emit site event rest ih => exact ih () hp _
  | call site request rest ih => exact ih _ (hp _ (hrunners t.world request)) _
  | pause seen span rest ih => exact ih () hp _

/-! ### Coming to one end -/

/-- Whatever it is answered within `A`, the process ends with the same. -/
def Determinate (A : Request → Answer → Prop) (p : Process σ α) : Prop :=
  ∀ log log' a a', p.Yields log a → p.Yields log' a' → Allowed A log → Allowed A log' → a = a'

namespace Determinate

theorem done (a : α) : (Process.done a : Process σ α).Determinate A := by
  intro log log' b b' h h'
  cases h
  cases h'
  exact fun _ _ => rfl

theorem stuck : (Process.stuck : Process σ α).Determinate A := by
  intro log log' b b' h
  cases h

theorem bind_of_keeps {c : Contract σ α} (hp : p.Determinate A) (hkeeps : p.Keeps c)
    (hf : ∀ a, c.ends a → (f a).Determinate A) : (Process.bind f p).Determinate A := by
  intro log log' b b' h h' hlog hlog'
  obtain ⟨log₁, log₂, a, rfl, h₁, h₂⟩ := h.of_bind
  obtain ⟨log₁', log₂', a', rfl, h₁', h₂'⟩ := h'.of_bind
  rw [Allowed, List.forall_mem_append] at hlog hlog'
  obtain rfl := hp _ _ _ _ h₁ h₁' hlog.1 hlog'.1
  exact hf a (h₁.meets hkeeps) _ _ _ _ h₂ h₂' hlog.2 hlog'.2

theorem bind (hp : p.Determinate A) (hf : ∀ a, (f a).Determinate A) :
    (Process.bind f p).Determinate A :=
  hp.bind_of_keeps (.free p) fun a _ => hf a

theorem tell {event : Event} {rest : Unit → Process σ β} (h : (rest ()).Determinate A) :
    (Process.bind rest (Process.tell event)).Determinate A := by
  intro log log' b b' hb hb'
  cases hb with
  | emit hb =>
    cases hb' with
    | emit hb' => exact h _ _ _ _ hb hb'

theorem sleep {seen : σ} {span : Duration} {rest : Unit → Process σ β} (h : (rest ()).Determinate A) :
    (Process.bind rest (Process.sleep seen span)).Determinate A :=
  fun _ _ _ _ hb hb' => h _ _ _ _ hb.of_sleep hb'.of_sleep

theorem ask {seen : σ} {request : Request} {rest : Except RunnerError Report → Process σ β}
    (hA : ∀ answer answer', A request answer → A request answer' → answer.result = answer'.result)
    (h : ∀ result, (rest result).Determinate A) :
    (Process.bind rest (Process.ask seen request)).Determinate A := by
  intro log log' b b' hb hb' hlog hlog'
  obtain ⟨answer, log₁, rfl, hrest⟩ := hb.of_ask
  obtain ⟨answer', log₁', rfl, hrest'⟩ := hb'.of_ask
  rw [Allowed, List.forall_mem_cons] at hlog hlog'
  rw [hA answer answer' hlog.1 hlog'.1] at hrest
  exact h _ _ _ _ _ hrest hrest' hlog.2 hlog'.2

/-- Where `A` allows but one answer to each request. -/
theorem of_answer {answer : Request → Answer} (hA : ∀ r b, A r b → b = answer r) :
    p.Determinate A := by
  induction p with
  | done a => exact done a
  | stuck => exact stuck
  | emit site event rest ih =>
    intro log log' b b' h h'
    cases h with
    | emit h =>
      cases h' with
      | emit h' => exact ih () _ _ _ _ h h'
  | call site request rest ih =>
    intro log log' b b' h h' hlog hlog'
    cases h with
    | call b₁ h =>
      cases h' with
      | call b₂ h' =>
        rw [Allowed, List.forall_mem_cons] at hlog hlog'
        obtain rfl : b₁ = b₂ := (hA _ _ hlog.1).trans (hA _ _ hlog'.1).symm
        exact ih _ _ _ _ _ h h' hlog.2 hlog'.2
  | pause seen span rest ih =>
    intro log log' b b' h h'
    cases h with
    | pause h =>
      cases h' with
      | pause h' => exact ih () _ _ _ _ h h'

/-- One end under all answers that come from either runners, if `A` leaves but one, or if they answer each
request always in the same way. -/
theorem of_either {ω ω' : Type} {runners : Runners ω} {runners' : Runners ω'}
    (hA : ∀ w r, A r (runners w r).2) (hA' : ∀ w r, A r (runners' w r).2)
    (h : p.Determinate A ∨ ∃ answer : Request → Answer,
      ∀ r, (∀ w, (runners w r).2 = answer r) ∧ ∀ w, (runners' w r).2 = answer r) :
    ∃ B : Request → Answer → Prop, p.Determinate B ∧
      (∀ w r, B r (runners w r).2) ∧ ∀ w r, B r (runners' w r).2 := by
  rcases h with h | ⟨answer, hanswer⟩
  · exact ⟨A, h, hA, hA'⟩
  · exact ⟨_, of_answer fun r b hb => hb, fun w r => (hanswer r).1 w, fun w r => (hanswer r).2 w⟩

/-- A process that comes to its end, and to one end only, comes to that end in every run. -/
theorem run_eq {ω : Type} {runners : Runners ω} {B : Request → Answer → Prop} (hp : p.Determinate A)
    (hhalt : p.Halts B) (h : p.Yields log a) (hlog : Allowed A log) (hA : ∀ w r, A r (runners w r).2)
    (hB : ∀ w r, B r (runners w r).2) (t : Timeline ω) : ∃ t', p.run runners none t = (.finished a, t') := by
  obtain ⟨a', t', hrun⟩ := hhalt.run hB t
  obtain ⟨log', h', hanswer⟩ := Yields.of_run hrun
  cases hp _ _ _ _ h h' hlog (.of_runners hA hanswer)
  exact ⟨t', hrun⟩

end Determinate

end Process
end StepFlow
