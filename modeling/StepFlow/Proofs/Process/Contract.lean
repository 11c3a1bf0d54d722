import StepFlow.Process.Timeline
import StepFlow.Proofs.Except

/-!
# Contracts of processes

A contract says what may be told and asked, what may be seen while a process sleeps, and with which
values it may end. `Process.Keeps c p`: whatever its calls are answered, `p` keeps the contract `c`. An
invariant is shown by one rule for each way a process is put together, and then holds of every run
(`Keeps.run`).
-/

namespace StepFlow

structure Contract (σ α : Type) where
  tells : Site → Event → Prop := fun _ _ => True
  asks : Site → Request → Prop := fun _ _ => True
  shows : σ → Prop := fun _ => True
  ends : α → Prop := fun _ => True

/-- The contract with other values to end with. -/
def Contract.ending {σ α β : Type} (c : Contract σ α) (Q : β → Prop) : Contract σ β :=
  ⟨c.tells, c.asks, c.shows, Q⟩

namespace Process

variable {ω σ α β : Type} {p : Process σ α} {f : α → Process σ β}

/-! ### Laws -/

theorem bind_assoc {γ : Type} (f : α → Process σ β) (g : β → Process σ γ) (p : Process σ α) :
    bind g (bind f p) = bind (fun a => bind g (f a)) p := by
  induction p with
  | done | stuck => rfl
  | emit site event rest ih => simp only [bind, ih]
  | call site request rest ih => simp only [bind, ih]
  | pause seen span rest ih => simp only [bind, ih]

/-! ### Keeping a contract -/

def Keeps (c : Contract σ α) : Process σ α → Prop
  | done a => c.ends a
  | stuck => True
  | emit site event rest => c.tells site event ∧ Keeps c (rest ())
  | call site request rest => c.asks site request ∧ ∀ answer, Keeps c (rest answer)
  | pause seen _ rest => c.shows seen ∧ Keeps c (rest ())

namespace Keeps

variable {c : Contract σ α} {d : Contract σ β}

theorem mono {c' : Contract σ α} (h : p.Keeps c) (htells : ∀ site e, c.tells site e → c'.tells site e)
    (hasks : ∀ site r, c.asks site r → c'.asks site r) (hshows : ∀ s, c.shows s → c'.shows s)
    (hends : ∀ a, c.ends a → c'.ends a) : p.Keeps c' := by
  induction p with
  | done a => exact hends a h
  | stuck => trivial
  | emit site event rest ih => exact ⟨htells site event h.1, ih () h.2⟩
  | call site request rest ih => exact ⟨hasks site request h.1, fun a => ih a (h.2 a)⟩
  | pause seen span rest ih => exact ⟨hshows seen h.1, ih () h.2⟩

/-- The contract that rules nothing out. -/
theorem free (p : Process σ α) : p.Keeps {} := by
  induction p with
  | done | stuck => trivial
  | emit site event rest ih => exact ⟨trivial, ih ()⟩
  | call site request rest ih => exact ⟨trivial, ih⟩
  | pause seen span rest ih => exact ⟨trivial, ih ()⟩

/-- What two contracts say of the end holds together. -/
theorem and {c' : Contract σ α} (h : p.Keeps c) (h' : p.Keeps c') :
    p.Keeps (c.ending fun a => c.ends a ∧ c'.ends a) := by
  induction p with
  | done a => exact ⟨h, h'⟩
  | stuck => trivial
  | emit site event rest ih => exact ⟨h.1, ih () h.2 h'.2⟩
  | call site request rest ih => exact ⟨h.1, fun a => ih a (h.2 a) (h'.2 a)⟩
  | pause seen span rest ih => exact ⟨h.1, ih () h.2 h'.2⟩

theorem bind {Q : α → Prop} (hp : p.Keeps (d.ending Q)) (hf : ∀ a, Q a → (f a).Keeps d) :
    (Process.bind f p).Keeps d := by
  induction p with
  | done a => exact hf a hp
  | stuck => trivial
  | emit site event rest ih => exact ⟨hp.1, ih () hp.2⟩
  | call site request rest ih => exact ⟨hp.1, fun a => ih a (hp.2 a)⟩
  | pause seen span rest ih => exact ⟨hp.1, ih () hp.2⟩

theorem tell {event : Event} {rest : Unit → Process σ β} (h : d.tells [] event)
    (hrest : (rest ()).Keeps d) : (Process.bind rest (Process.tell event)).Keeps d :=
  ⟨h, hrest⟩

theorem sleep {seen : σ} {span : Duration} {rest : Unit → Process σ β} (h : d.shows seen)
    (hrest : (rest ()).Keeps d) : (Process.bind rest (Process.sleep seen span)).Keeps d := by
  unfold Process.sleep
  split
  · exact hrest
  · exact ⟨h, hrest⟩

theorem ask {seen : σ} {request : Request} {rest : Except RunnerError Report → Process σ β}
    (h : d.asks [] request) (hseen : d.shows seen) (hrest : ∀ result, (rest result).Keeps d) :
    (Process.bind rest (Process.ask seen request)).Keeps d := by
  refine ⟨h, fun answer => ?_⟩
  dsimp only
  rw [bind_assoc]
  exact sleep hseen (hrest answer.result)

end Keeps

/-- What comes after a process matters only for the values that it can end with. -/
theorem bind_congr {c : Contract σ α} {g : α → Process σ β} (hp : p.Keeps c)
    (h : ∀ a, c.ends a → f a = g a) : bind f p = bind g p := by
  induction p with
  | done a => exact h a hp
  | stuck => rfl
  | emit site event rest ih => simp only [bind, ih () hp.2]
  | call site request rest ih =>
    have hrest : ∀ answer, bind f (rest answer) = bind g (rest answer) :=
      fun answer => ih answer (hp.2 answer)
    simp only [bind, hrest]
  | pause seen span rest ih => simp only [bind, ih () hp.2]

end Process

/-! ### Runs -/

/-- An ending as the contract has it. -/
def Ending.Meets {σ α : Type} (c : Contract σ α) : Ending σ α → Prop
  | .finished a => c.ends a
  | .cut seen => c.shows seen
  | .stuck => True

/-- The events and calls of `t'` that come after those of `t` are as the contract has them. -/
structure Logs {ω σ α : Type} (c : Contract σ α) (t t' : Timeline ω) : Prop where
  events : ∃ more, t'.events = t.events ++ more ∧ ∀ l ∈ more, c.tells l.site l.what
  calls : ∃ more, t'.calls = t.calls ++ more ∧ ∀ l ∈ more, c.asks l.site l.what

namespace Logs

variable {ω σ α : Type} {c : Contract σ α} {t t' t'' : Timeline ω}

theorem of_eq (hevents : t'.events = t.events) (hcalls : t'.calls = t.calls) : Logs c t t' :=
  ⟨⟨[], by simp [hevents]⟩, ⟨[], by simp [hcalls]⟩⟩

theorem trans (h : Logs c t t') (h' : Logs c t' t'') : Logs c t t'' := by
  obtain ⟨events, hevents, htells⟩ := h.events
  obtain ⟨events', hevents', htells'⟩ := h'.events
  obtain ⟨calls, hcalls, hasks⟩ := h.calls
  obtain ⟨calls', hcalls', hasks'⟩ := h'.calls
  refine ⟨⟨events ++ events', by rw [hevents', hevents, List.append_assoc], fun l hl => ?_⟩,
    ⟨calls ++ calls', by rw [hcalls', hcalls, List.append_assoc], fun l hl => ?_⟩⟩
  · exact (List.mem_append.1 hl).elim (htells l) (htells' l)
  · exact (List.mem_append.1 hl).elim (hasks l) (hasks' l)

theorem event {site : Site} {e : Event} (h : c.tells site e) : Logs c t (t.logEvent site e) :=
  ⟨⟨_, rfl, by simpa using h⟩, ⟨[], by simp [Timeline.logEvent]⟩⟩

theorem call {site : Site} {r : Request} {world : ω} (h : c.asks site r) :
    Logs c t (t.logCall site r world) :=
  ⟨⟨[], by simp [Timeline.logCall]⟩, ⟨_, rfl, by simpa using h⟩⟩

end Logs

/-- A contract that is kept holds of every run, to its end or to its deadline. -/
theorem Process.Keeps.run {ω σ α : Type} {p : Process σ α} {c : Contract σ α}
    (h : p.Keeps c) (runners : Runners ω) (deadline : Option Duration) (t : Timeline ω) :
    (p.run runners deadline t).1.Meets c ∧ Logs c t (p.run runners deadline t).2 := by
  induction p generalizing t with
  | done a => exact ⟨h, .of_eq rfl rfl⟩
  | stuck => exact ⟨trivial, .of_eq rfl rfl⟩
  | emit site event rest ih =>
    obtain ⟨hmeets, hlogs⟩ := ih () h.2 (t.logEvent site event)
    exact ⟨hmeets, (Logs.event h.1).trans hlogs⟩
  | call site request rest ih =>
    obtain ⟨hmeets, hlogs⟩ := ih _ (h.2 _) (t.logCall site request (runners t.world request).1)
    exact ⟨hmeets, (Logs.call h.1).trans hlogs⟩
  | pause seen span rest ih =>
    simp only [Process.run]
    split
    · exact ⟨h.1, .of_eq rfl rfl⟩
    · have hwake : Logs c t { t with clock := t.clock + span } := .of_eq rfl rfl
      obtain ⟨hmeets, hlogs⟩ := ih () h.2 { t with clock := t.clock + span }
      exact ⟨hmeets, hwake.trans hlogs⟩

end StepFlow
