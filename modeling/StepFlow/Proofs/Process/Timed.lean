import StepFlow.Proofs.Process.FirstFailure

/-!
# What processes do, and when

`p.Runs now trace stop o`: begun at the time `now`, the process `p` does what `trace` says, each thing at
its time and place, and at the time `stop` it gives `o`, which is nothing if it is stuck. Every run is of
this kind (`Runs.of_run`), and it takes as long as its process does for the same answers (`Runs.lasts`).
-/

namespace StepFlow

/-- Something that is told, or asked together with its answer. -/
inductive Deed where
  | told (event : Event)
  | asked (request : Request) (answer : Answer)

namespace Deed

def event? : Deed → Option Event
  | told event => some event
  | asked .. => none

def exchange? (site : Site) : Deed → Option Exchange
  | told _ => none
  | asked request answer => some ⟨site, request, answer⟩

end Deed

/-- What is done, from the first to the last. -/
abbrev Trace := List (Logged Deed)

namespace Trace

variable {trace : Trace} {b : Branch}

def exchanges (trace : Trace) : List Exchange := trace.filterMap fun l => l.what.exchange? l.site

/-- The events, as they are written down. -/
def events (trace : Trace) : List (Logged Event) :=
  trace.filterMap fun l => l.what.event?.map fun event => ⟨l.time, l.site, event⟩

/-- The requests, as they are written down. -/
def calls (trace : Trace) : List (Logged Request) :=
  trace.filterMap fun l => (l.what.exchange? l.site).map fun e => ⟨l.time, e.site, e.request⟩

/-- What is done in one of the nested executions, or inside of it. -/
def within (b : Branch) (trace : Trace) : Trace := trace.filter fun l => l.site.head? = some b

theorem within_cons_self {l : Logged Deed} (h : l.site.head? = some b) :
    within b (l :: trace) = l :: within b trace := by
  simp [within, h]

theorem within_cons_of_ne {l : Logged Deed} (h : l.site.head? ≠ some b) :
    within b (l :: trace) = within b trace := by
  simp [within, h]

theorem exchanges_asked (time : Duration) (site : Site) (request : Request) (answer : Answer)
    (trace : Trace) :
    exchanges (⟨time, site, .asked request answer⟩ :: trace) = ⟨site, request, answer⟩ :: exchanges trace :=
  rfl

theorem exchanges_within (b : Branch) (trace : Trace) :
    exchanges (within b trace) = ofBranch b (exchanges trace) := by
  induction trace with
  | nil => rfl
  | cons l trace ih =>
    obtain ⟨time, site, deed⟩ := l
    by_cases h : site.head? = some b
    · rw [within_cons_self h]
      cases deed with
      | told event => exact ih
      | asked request answer =>
        rw [exchanges_asked, exchanges_asked, ih, ofBranch, ofBranch,
          List.filter_cons_of_pos (by simpa using h)]
    · rw [within_cons_of_ne h]
      cases deed with
      | told event => exact ih
      | asked request answer =>
        rw [ih, exchanges_asked, ofBranch, ofBranch, List.filter_cons_of_neg (by simpa using h)]

end Trace

namespace Process

variable {σ α β : Type} {p : Process σ α} {f : α → Process σ β} {now stop : Duration} {trace : Trace}

inductive Runs : Process σ α → Duration → Trace → Duration → Option α → Prop where
  | done (a : α) (now : Duration) : Runs (.done a) now [] now (some a)
  | stuck (now : Duration) : Runs .stuck now [] now none
  | emit {site : Site} {event : Event} {rest : Unit → Process σ α} {now stop : Duration} {trace : Trace}
      {o : Option α} (h : Runs (rest ()) now trace stop o) :
      Runs (.emit site event rest) now (⟨now, site, .told event⟩ :: trace) stop o
  | call {site : Site} {request : Request} {rest : Answer → Process σ α} {now stop : Duration}
      {trace : Trace} {o : Option α} (answer : Answer) (h : Runs (rest answer) now trace stop o) :
      Runs (.call site request rest) now (⟨now, site, .asked request answer⟩ :: trace) stop o
  | pause {seen : σ} {span : Duration} {rest : Unit → Process σ α} {now stop : Duration} {trace : Trace}
      {o : Option α} (h : Runs (rest ()) (now + span) trace stop o) :
      Runs (.pause seen span rest) now trace stop o

theorem runs_done {a : α} {o : Option α} :
    (done a : Process σ α).Runs now trace stop o ↔ trace = [] ∧ stop = now ∧ o = some a := by
  constructor
  · rintro ⟨⟩
    exact ⟨rfl, rfl, rfl⟩
  · rintro ⟨rfl, rfl, rfl⟩
    exact .done a _

theorem runs_pause {seen : σ} {span : Duration} {rest : Unit → Process σ α} {o : Option α} :
    (pause seen span rest).Runs now trace stop o ↔ (rest ()).Runs (now + span) trace stop o :=
  ⟨fun | .pause h => h, .pause⟩

namespace Runs

theorem le {o : Option α} (h : p.Runs now trace stop o) : now ≤ stop := by
  induction h with
  | done | stuck => exact Nat.le_refl _
  | emit _ ih | call _ _ ih => exact ih
  | pause _ ih => exact Nat.le_trans (Nat.le_add_right ..) ih

/-- What a process does takes it as long as its answers make it take. -/
theorem lasts {o : Option α} (h : p.Runs now trace stop o) :
    ∃ d, stop = now + d ∧ p.Lasts trace.exchanges d o := by
  induction h with
  | done a now => exact ⟨0, rfl, .done a⟩
  | stuck now => exact ⟨0, rfl, .stuck⟩
  | emit _ ih =>
    obtain ⟨d, rfl, h⟩ := ih
    exact ⟨d, rfl, .emit h⟩
  | call answer _ ih =>
    obtain ⟨d, rfl, h⟩ := ih
    exact ⟨d, rfl, .call answer h⟩
  | @pause seen span _ _ _ _ _ _ ih =>
    obtain ⟨d, rfl, h⟩ := ih
    exact ⟨span + d, Nat.add_assoc .., .pause h⟩

theorem of_bind {o : Option β} (h : (Process.bind f p).Runs now trace stop o) :
    (∃ trace₁ trace₂ mid a, trace = trace₁ ++ trace₂ ∧ p.Runs now trace₁ mid (some a) ∧
      (f a).Runs mid trace₂ stop o) ∨ o = none ∧ p.Runs now trace stop none := by
  induction p generalizing now trace with
  | done a => exact .inl ⟨[], trace, now, a, rfl, .done a _, h⟩
  | stuck =>
    cases h
    exact .inr ⟨rfl, .stuck _⟩
  | emit site event rest ih =>
    cases h with
    | emit h =>
      rcases ih () h with ⟨trace₁, trace₂, mid, a, rfl, h₁, h₂⟩ | ⟨rfl, hp⟩
      · exact .inl ⟨_ :: trace₁, trace₂, mid, a, rfl, .emit h₁, h₂⟩
      · exact .inr ⟨rfl, .emit hp⟩
  | call site request rest ih =>
    cases h with
    | call answer h =>
      rcases ih answer h with ⟨trace₁, trace₂, mid, a, rfl, h₁, h₂⟩ | ⟨rfl, hp⟩
      · exact .inl ⟨_ :: trace₁, trace₂, mid, a, rfl, .call answer h₁, h₂⟩
      · exact .inr ⟨rfl, .call answer hp⟩
  | pause seen span rest ih =>
    rcases ih () (runs_pause.1 h) with ⟨trace₁, trace₂, mid, a, rfl, h₁, h₂⟩ | ⟨rfl, hp⟩
    · exact .inl ⟨trace₁, trace₂, mid, a, rfl, .pause h₁, h₂⟩
    · exact .inr ⟨rfl, .pause hp⟩

/-- A run does what its process does for the answers of the runners, and writes it down. -/
theorem of_run {ω : Type} (runners : Runners ω) (p : Process σ α) (t : Timeline ω) :
    ∃ trace stop o, p.Runs t.clock trace stop o ∧ runners.Answer t.world trace.exchanges ∧
      ∃ world, p.run runners none t =
        (.ofOutcome o, ⟨stop, world, t.events ++ trace.events, t.calls ++ trace.calls⟩) := by
  induction p generalizing t with
  | done a =>
    refine ⟨[], t.clock, some a, .done a _, trivial, t.world, ?_⟩
    rw [Trace.events, Trace.calls, List.filterMap_nil, List.filterMap_nil, List.append_nil, List.append_nil]
    rfl
  | stuck =>
    refine ⟨[], t.clock, none, .stuck _, trivial, t.world, ?_⟩
    rw [Trace.events, Trace.calls, List.filterMap_nil, List.filterMap_nil, List.append_nil, List.append_nil]
    rfl
  | emit site event rest ih =>
    obtain ⟨trace, stop, o, hruns, hanswer, world, hrun⟩ := ih () (t.logEvent site event)
    refine ⟨_, stop, o, .emit hruns, hanswer, world, hrun.trans ?_⟩
    simp [Timeline.logEvent, Trace.events, Trace.calls, Deed.event?, Deed.exchange?]
  | call site request rest ih =>
    let answer := (runners t.world request).2
    obtain ⟨trace, stop, o, hruns, hanswer, world, hrun⟩ :=
      ih answer (t.logCall site request (runners t.world request).1)
    refine ⟨_, stop, o, .call answer hruns, ⟨rfl, hanswer⟩, world, hrun.trans ?_⟩
    simp [Timeline.logCall, Trace.events, Trace.calls, Deed.event?, Deed.exchange?]
  | pause seen span rest ih =>
    obtain ⟨trace, stop, o, hruns, hanswer, world, hrun⟩ := ih () { t with clock := t.clock + span }
    exact ⟨trace, stop, o, .pause hruns, hanswer, world, hrun⟩

end Runs
end Process
end StepFlow
