import StepFlow.Proofs.Process.Acts
import StepFlow.Proofs.Process.Sim

/-!
# How long processes take

`p.Lasts log d o`: with its requests answered as `log` has it, the process `p` takes the time `d` and then
gives `o`, which is nothing if it is stuck. Every run takes as long as its process (`Lasts.of_run`), and
nothing else can come of the same answers (`Lasts.unique`).

A prompt process takes time wherever it sleeps: it does all that it does at one instant at a stretch.

`Gathers` says of processes that are all started at once what comes of gathering them and how long it takes,
turn by turn, without the process that does it.
-/

namespace StepFlow

/-- How running a process without a deadline ends. -/
def Ending.ofOutcome {σ α : Type} : Option α → Ending σ α
  | some a => .finished a
  | none => .stuck

/-- A timer takes some time for any span at all. -/
theorem Duration.onTimer_pos {d : Duration} (h : d ≠ 0) : 0 < d.onTimer :=
  Nat.lt_min.2 ⟨Nat.pos_of_ne_zero h, by decide⟩

namespace Process

variable {σ α β : Type} {p : Process σ α} {f : α → Process σ β} {log log' : List Exchange} {d d' : Duration}

inductive Lasts : Process σ α → List Exchange → Duration → Option α → Prop where
  | done (a : α) : Lasts (.done a) [] 0 (some a)
  | stuck : Lasts .stuck [] 0 none
  | emit {site : Site} {event : Event} {rest : Unit → Process σ α} {log : List Exchange} {d : Duration}
      {o : Option α} (h : Lasts (rest ()) log d o) : Lasts (.emit site event rest) log d o
  | call {site : Site} {request : Request} {rest : Answer → Process σ α} {log : List Exchange}
      {d : Duration} {o : Option α} (answer : Answer) (h : Lasts (rest answer) log d o) :
      Lasts (.call site request rest) (⟨site, request, answer⟩ :: log) d o
  | pause {seen : σ} {span : Duration} {rest : Unit → Process σ α} {log : List Exchange} {d : Duration}
      {o : Option α} (h : Lasts (rest ()) log d o) : Lasts (.pause seen span rest) log (span + d) o

theorem lasts_done {a : α} {o : Option α} :
    (done a : Process σ α).Lasts log d o ↔ log = [] ∧ d = 0 ∧ o = some a := by
  constructor
  · rintro ⟨⟩
    exact ⟨rfl, rfl, rfl⟩
  · rintro ⟨rfl, rfl, rfl⟩
    exact .done a

theorem lasts_emit {site : Site} {event : Event} {rest : Unit → Process σ α} {o : Option α} :
    (emit site event rest).Lasts log d o ↔ (rest ()).Lasts log d o :=
  ⟨fun | .emit h => h, .emit⟩

theorem lasts_call {site : Site} {request : Request} {rest : Answer → Process σ α} {answer : Answer}
    {o : Option α} :
    (call site request rest).Lasts (⟨site, request, answer⟩ :: log) d o ↔ (rest answer).Lasts log d o :=
  ⟨fun | .call _ h => h, .call answer⟩

theorem lasts_pause {seen : σ} {span : Duration} {rest : Unit → Process σ α} {o : Option α} :
    (pause seen span rest).Lasts log d o ↔ ∃ d', d = span + d' ∧ (rest ()).Lasts log d' o := by
  constructor
  · rintro ⟨⟩
    exact ⟨_, rfl, ‹_›⟩
  · rintro ⟨d', rfl, h⟩
    exact .pause h

theorem lasts_tell {event : Event} {rest : Unit → Process σ α} {o : Option α} :
    (bind rest (tell event)).Lasts log d o ↔ (rest ()).Lasts log d o := lasts_emit

/-- Sleeping adds what a timer takes for the span. -/
theorem lasts_sleep {seen : σ} {span : Duration} {rest : Unit → Process σ α} {o : Option α} :
    (bind rest (sleep seen span)).Lasts log d o ↔
      ∃ d', d = span.onTimer + d' ∧ (rest ()).Lasts log d' o := by
  unfold sleep
  split
  · rename_i hspan
    have hzero : span.onTimer = 0 := by rw [hspan, Duration.onTimer, Nat.zero_min]
    simp [hzero, bind]
  · exact lasts_pause

/-- A request takes as long as its answer is delayed. -/
theorem lasts_ask {seen : σ} {request : Request} {rest : Except RunnerError Report → Process σ α} {o : Option α} :
    (bind rest (ask seen request)).Lasts log d o ↔
      ∃ answer log' d', log = ⟨[], request, answer⟩ :: log' ∧ d = answer.delay.onTimer + d' ∧
        (rest answer.result).Lasts log' d' o := by
  constructor
  · intro h
    cases h with
    | call answer h =>
      dsimp only at h
      rw [bind_assoc, lasts_sleep] at h
      obtain ⟨d', rfl, h⟩ := h
      exact ⟨answer, _, d', rfl, rfl, h⟩
  · rintro ⟨answer, log', d', rfl, rfl, h⟩
    refine lasts_call.2 ?_
    dsimp only
    rw [bind_assoc]
    exact lasts_sleep.2 ⟨d', rfl, h⟩

namespace Lasts

theorem bind {a : α} {o : Option β} (h : p.Lasts log d (some a)) (hf : (f a).Lasts log' d' o) :
    (Process.bind f p).Lasts (log ++ log') (d + d') o := by
  induction p generalizing log d with
  | done b =>
    obtain ⟨rfl, rfl, hb⟩ := lasts_done.1 h
    cases hb
    rwa [List.nil_append, Nat.zero_add]
  | stuck => cases h
  | emit site event rest ih => exact .emit (ih () (lasts_emit.1 h))
  | call site request rest ih =>
    cases h with
    | call answer h => exact .call answer (ih answer h)
  | pause seen span rest ih =>
    obtain ⟨d₁, rfl, hrest⟩ := lasts_pause.1 h
    rw [Nat.add_assoc]
    exact .pause (ih () hrest)

theorem of_bind {o : Option β} (h : (Process.bind f p).Lasts log d o) :
    (∃ log₁ log₂ d₁ d₂ a, log = log₁ ++ log₂ ∧ d = d₁ + d₂ ∧ p.Lasts log₁ d₁ (some a) ∧
      (f a).Lasts log₂ d₂ o) ∨ o = none ∧ p.Lasts log d none := by
  induction p generalizing log d with
  | done a => exact .inl ⟨[], log, 0, d, a, rfl, (Nat.zero_add d).symm, .done a, h⟩
  | stuck =>
    cases h
    exact .inr ⟨rfl, .stuck⟩
  | emit site event rest ih =>
    rw [Process.bind, lasts_emit] at h
    rcases ih () h with ⟨log₁, log₂, d₁, d₂, a, rfl, rfl, h₁, h₂⟩ | ⟨rfl, hp⟩
    · exact .inl ⟨log₁, log₂, d₁, d₂, a, rfl, rfl, .emit h₁, h₂⟩
    · exact .inr ⟨rfl, .emit hp⟩
  | call site request rest ih =>
    cases h with
    | call answer h =>
      rcases ih answer h with ⟨log₁, log₂, d₁, d₂, a, rfl, rfl, h₁, h₂⟩ | ⟨rfl, hp⟩
      · exact .inl ⟨_ :: log₁, log₂, d₁, d₂, a, rfl, rfl, .call answer h₁, h₂⟩
      · exact .inr ⟨rfl, .call answer hp⟩
  | pause seen span rest ih =>
    rw [Process.bind, lasts_pause] at h
    obtain ⟨d, rfl, h⟩ := h
    rcases ih () h with ⟨log₁, log₂, d₁, d₂, a, rfl, rfl, h₁, h₂⟩ | ⟨rfl, hp⟩
    · exact .inl ⟨log₁, log₂, span + d₁, d₂, a, rfl, (Nat.add_assoc ..).symm, .pause h₁, h₂⟩
    · exact .inr ⟨rfl, .pause hp⟩

/-- Of the same answers comes the same, and there are no more of them. -/
theorem unique {o o' : Option α} (h : p.Lasts log d o) (h' : p.Lasts (log ++ log') d' o') :
    log' = [] ∧ d' = d ∧ o' = o := by
  induction h generalizing d' with
  | done a =>
    obtain ⟨hlog, rfl, rfl⟩ := lasts_done.1 h'
    exact ⟨hlog, rfl, rfl⟩
  | stuck =>
    cases h'
    exact ⟨rfl, rfl, rfl⟩
  | emit _ ih => exact ih (lasts_emit.1 h')
  | call answer _ ih => exact ih (lasts_call.1 h')
  | pause _ ih =>
    obtain ⟨d₁, rfl, hrest⟩ := lasts_pause.1 h'
    obtain ⟨hlog, rfl, rfl⟩ := ih hrest
    exact ⟨hlog, rfl, rfl⟩

/-- A run takes as long as the process does for the answers that the runners give to what it asks. -/
theorem of_run {ω : Type} (runners : Runners ω) (p : Process σ α) (t : Timeline ω) :
    ∃ log d o, p.Lasts log d o ∧ runners.Answer t.world log ∧
      (p.run runners none t).1 = .ofOutcome o ∧ (p.run runners none t).2.clock = t.clock + d ∧
      (p.run runners none t).2.calls.map Logged.what = t.calls.map Logged.what ++ log.map Exchange.request := by
  induction p generalizing t with
  | done a => exact ⟨[], 0, some a, .done a, trivial, rfl, rfl, (List.append_nil _).symm⟩
  | stuck => exact ⟨[], 0, none, .stuck, trivial, rfl, rfl, (List.append_nil _).symm⟩
  | emit site event rest ih =>
    obtain ⟨log, d, o, hlasts, hrun⟩ := ih () (t.logEvent site event)
    exact ⟨log, d, o, .emit hlasts, hrun⟩
  | call site request rest ih =>
    let answer := (runners t.world request).2
    obtain ⟨log, d, o, hlasts, hanswer, hend, hclock, hcalls⟩ :=
      ih answer (t.logCall site request (runners t.world request).1)
    refine ⟨_ :: log, d, o, .call answer hlasts, ⟨rfl, hanswer⟩, hend, hclock, hcalls.trans ?_⟩
    simp [Timeline.logCall]
  | pause seen span rest ih =>
    obtain ⟨log, d, o, hlasts, hanswer, hend, hclock, hcalls⟩ := ih () { t with clock := t.clock + span }
    exact ⟨log, span + d, o, .pause hlasts, hanswer, hend, hclock.trans (Nat.add_assoc ..), hcalls⟩

/-- How long a process takes that asks nothing can be seen in a run. -/
theorem of_idle_run {ω : Type} (runners : Runners ω) (world : ω) {a : α} {d : Duration} {p : Process σ α}
    (h : ∃ events world', p.run runners none (.start world) = (.finished a, ⟨d, world', events, []⟩)) :
    p.Lasts [] d (some a) := by
  obtain ⟨events, world', h⟩ := h
  obtain ⟨log, d', o, hlasts, -, hend, hclock, hcalls⟩ := of_run runners p (.start world)
  rw [h] at hend hclock hcalls
  obtain rfl : log = [] := List.map_eq_nil_iff.1 hcalls.symm
  obtain rfl : d = d' := hclock.trans (Nat.zero_add d')
  cases o with
  | none => cases hend
  | some b =>
    cases hend
    exact hlasts

/-- It can be seen in a run of a process that does the same and can be computed. -/
theorem of_idle_sim {S : Prop} {ω : Type} {p q : Process σ α} (hsim : p.Sim S Eq q) (runners : Runners ω)
    (world : ω) {a : α} {d : Duration}
    (h : ∃ events world', p.run runners none (.start world) = (.finished a, ⟨d, world', events, []⟩)) :
    q.Lasts [] d (some a) := by
  obtain ⟨events, world', hrun⟩ := h
  have hend : (p.run runners none (.start world)).1 ≠ .stuck := by
    rw [hrun]
    intro hstuck
    cases hstuck
  exact of_idle_run runners world ⟨events, world', (hsim.run_eq hend).trans hrun⟩

end Lasts

/-- A process that comes to its end, whatever it is answered, is never stuck. -/
theorem Halts.not_stuck (h : p.Halts fun _ _ => True) : ¬ p.Lasts log d none := by
  induction p generalizing log d with
  | done a => nofun
  | stuck => exact h.elim
  | emit site event rest ih => exact fun hlasts => ih () h (lasts_emit.1 hlasts)
  | call site request rest ih =>
    rintro ⟨⟩
    exact ih _ (h _ trivial) ‹_›
  | pause seen span rest ih =>
    intro hlasts
    obtain ⟨d', -, hrest⟩ := lasts_pause.1 hlasts
    exact ih () h hrest

/-! ### Prompt processes -/

/-- Whatever it is answered, every sleep of the process takes time. -/
def Prompt : Process σ α → Prop
  | done _ | stuck => True
  | emit _ _ rest => Prompt (rest ())
  | call _ _ rest => ∀ answer, Prompt (rest answer)
  | pause _ span rest => 0 < span ∧ Prompt (rest ())

namespace Prompt

theorem bind (hp : p.Prompt) (hf : ∀ a, (f a).Prompt) : (Process.bind f p).Prompt := by
  induction p with
  | done a => exact hf a
  | stuck => trivial
  | emit site event rest ih => exact ih () hp
  | call site request rest ih => exact fun answer => ih answer (hp answer)
  | pause seen span rest ih => exact ⟨hp.1, ih () hp.2⟩

theorem sleep (seen : σ) (span : Duration) : (Process.sleep seen span).Prompt := by
  unfold Process.sleep
  split
  · trivial
  · rename_i hspan
    exact ⟨Duration.onTimer_pos hspan, trivial⟩

theorem ask (seen : σ) (request : Request) : (Process.ask seen request).Prompt :=
  fun answer => (sleep seen answer.delay).bind fun _ => trivial

end Prompt
end Process

/-! ### Gathered processes -/

open Process

variable {σ ε β : Type}

namespace Slot

/-- For how long the slot is still asleep. -/
def due : Slot σ ε β → Duration
  | asleep left _ => left
  | ready _ | ended _ => 0

/-- Every sleep of the slot's process takes time, with what is left of the one it is in. -/
def Prompt : Slot σ ε β → Prop
  | ready p => p.Prompt
  | asleep left p => 0 < left ∧ p.Prompt
  | ended _ => True

/-- For `span` nothing happens in the slot. -/
inductive Waits (span : Duration) : Slot σ ε β → Prop where
  | asleep {left : Nat} (h : span ≤ left) (p : Process σ (Except ε β)) : Waits span (asleep left p)
  | ended (result : Except ε β) : Waits span (ended result)

/-- What is left of the slot's process, which is the one at `b`, takes `d` with these exchanges and then
gives `o`. -/
def Lasts (b : Branch) (log : List Exchange) (d : Duration) (o : Option (Except ε β)) (s : Slot σ ε β) :
    Prop :=
  ∃ d', d = s.due + d' ∧ (s.rest.inside b).Lasts log d' o

variable {b : Branch} {log more : List Exchange} {d d' span : Duration} {o o' : Option (Except ε β)}
  {s : Slot σ ε β}

theorem lasts_ready {p : Process σ (Except ε β)} : (ready p).Lasts b log d o ↔ (p.inside b).Lasts log d o := by
  simp [Lasts, due, rest]

theorem lasts_ended {result : Except ε β} :
    (ended result : Slot σ ε β).Lasts b log d o ↔ log = [] ∧ d = 0 ∧ o = some result := by
  simp [Lasts, due, rest, Process.inside, lasts_done]

theorem Lasts.unique (h : s.Lasts b log d o) (h' : s.Lasts b (log ++ more) d' o') :
    more = [] ∧ d' = d ∧ o' = o := by
  obtain ⟨d₁, rfl, h⟩ := h
  obtain ⟨d₁', rfl, h'⟩ := h'
  obtain ⟨hmore, rfl, ho⟩ := h.unique h'
  exact ⟨hmore, rfl, ho⟩

theorem lasts_advance {left : Nat} {p : Process σ (Except ε β)} (h : span ≤ left) :
    (asleep left p).Lasts b log (span + d) o ↔ ((asleep left p).advance span).Lasts b log d o := by
  simp only [advance]
  split
  · obtain rfl : span = left := Nat.le_antisymm h ‹_›
    simp [Lasts, due, rest]
  · refine exists_congr fun d' => and_congr_left fun _ => ?_
    show span + d = left + d' ↔ d = left - span + d'
    rw [← Nat.add_sub_cancel' h, Nat.add_sub_cancel_left, Nat.add_assoc, Nat.add_left_cancel_iff]

end Slot

/-! ### Turns -/

/-- All of `n` processes are started at once. -/
def Discipline.StartsAll (n : Nat) (disc : Discipline) : Prop :=
  ∀ limit, disc = .inOrder limit → 0 < limit ∧ n ≤ limit

/-- A slot goes on to another, with what it exchanges meanwhile; time does not pass. -/
structure Turn (b : Branch) (made : List Exchange) (s s' : Slot σ ε β) : Prop where
  own : ∀ e ∈ made, e.site.head? = some b
  lasts : ∀ log d o, s.Lasts b (made ++ log) d o ↔ s'.Lasts b log d o
  prompt : s.Prompt → s'.Prompt

namespace Turn

variable {b : Branch}

theorem done (result : Except ε β) : Turn b [] (.ready (.done result) : Slot σ ε β) (.ended result) where
  own := nofun
  lasts _ _ _ := Slot.lasts_ready.trans (lasts_done.trans Slot.lasts_ended.symm)
  prompt _ := trivial

theorem emit (site : Site) (event : Event) (rest : Unit → Process σ (Except ε β)) :
    Turn b [] (.ready (.emit site event rest)) (.ready (rest ())) where
  own := nofun
  lasts _ _ _ := Slot.lasts_ready.trans (lasts_emit.trans Slot.lasts_ready.symm)
  prompt := id

theorem call (site : Site) (request : Request) (answer : Answer)
    (rest : Answer → Process σ (Except ε β)) :
    Turn b [⟨b :: site, request, answer⟩] (.ready (.call site request rest)) (.ready (rest answer)) where
  own := by simp
  lasts _ _ _ := Slot.lasts_ready.trans (lasts_call.trans Slot.lasts_ready.symm)
  prompt h := h answer

theorem pause (seen : σ) (span : Duration) (rest : Unit → Process σ (Except ε β)) :
    Turn b [] (.ready (.pause seen span rest)) (.asleep span (rest ())) where
  own := nofun
  lasts _ _ _ := Slot.lasts_ready.trans lasts_pause
  prompt := id

end Turn

/-- What gathering comes to: turns of the first slot that is ready, and spans in which all wait. -/
inductive Gathers (k : Nat) (disc : Discipline) :
    List (Slot σ ε β) → List Exchange → Duration → Option (Except ε (List β)) → Prop where
  | verdict {slots : List (Slot σ ε β)} {result : Except ε (List β)}
      (h : disc.verdict slots = some result) : Gathers k disc slots [] 0 (some result)
  | stuck {before after : List (Slot σ ε β)}
      (hverdict : disc.verdict (before ++ .ready .stuck :: after) = none)
      (hbefore : ∀ s ∈ before, ∀ p, s ≠ .ready p) :
      Gathers k disc (before ++ .ready .stuck :: after) [] 0 none
  | turn {before after : List (Slot σ ε β)} {p : Process σ (Except ε β)} {s' : Slot σ ε β}
      {made log : List Exchange} {d : Duration} {r : Option (Except ε (List β))}
      (hverdict : disc.verdict (before ++ .ready p :: after) = none)
      (hbefore : ∀ s ∈ before, ∀ p, s ≠ .ready p) (hturn : Turn ⟨k, before.length⟩ made (.ready p) s')
      (h : Gathers k disc (before ++ s' :: after) log d r) :
      Gathers k disc (before ++ .ready p :: after) (made ++ log) d r
  | advance {slots : List (Slot σ ε β)} {span : Duration} {log : List Exchange} {d : Duration}
      {r : Option (Except ε (List β))} (hverdict : disc.verdict slots = none)
      (hwaits : ∀ s ∈ slots, s.Waits span) (h : Gathers k disc (advanceAll span slots) log d r) :
      Gathers k disc slots log (span + d) r

section
variable {slots before after : List (Slot σ ε β)} {p : Process σ (Except ε β)}

theorem not_ready_before {n : Nat} (h : firstReady n slots = some (before, p, after)) :
    ∀ s ∈ before, ∀ q, s ≠ .ready q := by
  fun_induction firstReady n slots generalizing before with
  | case1 | case2 => cases h
  | case3 =>
    cases h
    exact List.forall_mem_nil _
  | case4 n s rest hs ih =>
    obtain ⟨⟨before', p', after'⟩, hfirst, heq⟩ := Option.map_eq_some_iff.1 h
    cases heq
    exact List.forall_mem_cons.2 ⟨fun q hq => hs q hq, ih hfirst⟩

theorem not_ready_of_none {n : Nat} (hn : slots.length ≤ n) (h : firstReady n slots = none) :
    ∀ s ∈ slots, ∀ q, s ≠ .ready q := by
  fun_induction firstReady n slots with
  | case1 slots => simp [List.length_eq_zero_iff.1 (Nat.le_zero.1 hn)]
  | case2 => exact List.forall_mem_nil _
  | case3 => cases h
  | case4 n s rest hs ih =>
    exact List.forall_mem_cons.2 ⟨fun q hq => hs q hq,
      ih (Nat.le_of_succ_le_succ hn) (Option.map_eq_none_iff.1 h)⟩

theorem nextWaking_le {left : Nat} (h : .asleep left p ∈ slots) :
    ∃ span, nextWaking slots = some span ∧ span ≤ left := by
  induction slots with
  | nil => cases h
  | cons s rest ih =>
    rcases List.mem_cons.1 h with rfl | h
    · unfold nextWaking
      cases nextWaking rest with
      | none => exact ⟨left, rfl, Nat.le_refl _⟩
      | some other => exact ⟨min left other, rfl, Nat.min_le_left ..⟩
    · obtain ⟨span, hspan, hle⟩ := ih h
      cases s with
      | ready | ended => exact ⟨span, hspan, hle⟩
      | asleep left' q =>
        rw [nextWaking, hspan]
        exact ⟨min left' span, rfl, Nat.le_trans (Nat.min_le_right ..) hle⟩

theorem mem_of_nextWaking {span : Nat} (h : nextWaking slots = some span) :
    ∃ p, .asleep span p ∈ slots := by
  induction slots generalizing span with
  | nil => cases h
  | cons s rest ih =>
    cases s with
    | ready | ended =>
      obtain ⟨p, hp⟩ := ih h
      exact ⟨p, List.mem_cons_of_mem _ hp⟩
    | asleep left q =>
      cases hrest : nextWaking rest with
      | none =>
        rw [nextWaking, hrest] at h
        cases h
        exact ⟨q, List.mem_cons_self ..⟩
      | some other =>
        rw [nextWaking, hrest] at h
        cases h
        rcases Nat.le_total left other with hle | hle
        · rw [Nat.min_eq_left hle]
          exact ⟨q, List.mem_cons_self ..⟩
        · rw [Nat.min_eq_right hle]
          obtain ⟨p, hp⟩ := ih hrest
          exact ⟨p, List.mem_cons_of_mem _ hp⟩

/-- While no slot is ready, all wait until the first wakes. -/
theorem waits_of_nextWaking {span : Nat} (hready : ∀ s ∈ slots, ∀ p, s ≠ .ready p)
    (h : nextWaking slots = some span) : ∀ s ∈ slots, s.Waits span := by
  intro s hs
  cases s with
  | ready p => exact (hready _ hs p rfl).elim
  | asleep left p =>
    obtain ⟨span', hspan', hle⟩ := nextWaking_le hs
    cases h.symm.trans hspan'
    exact .asleep hle p
  | ended result => exact .ended result

theorem Discipline.StartsAll.started {disc : Discipline} (h : disc.StartsAll slots.length) :
    slots.length ≤ disc.started slots := by
  cases disc with
  | firstFailure => exact Nat.le_refl _
  | inOrder limit => exact Nat.le_trans (h limit rfl).2 (Nat.le_add_left ..)

theorem gathers_of_lasts {seen : σ} {k : Nat} {disc : Discipline} {log : List Exchange} {d : Duration}
    {r : Option (Except ε (List β))} (hstarts : disc.StartsAll slots.length)
    (h : (gather seen k disc slots).Lasts log d r) : Gathers k disc slots log d r := by
  revert log d
  fun_induction gather seen k disc slots with
  | case1 slots result hverdict =>
    intro log d h
    obtain ⟨rfl, rfl, rfl⟩ := lasts_done.1 h
    exact .verdict hverdict
  | case2 slots hverdict before after result hready _ ih =>
    intro log d h
    have hbefore := not_ready_before hready
    obtain rfl := firstReady_eq hready
    exact .turn hverdict hbefore (.done result) (ih (by simpa using hstarts) h)
  | case3 slots hverdict before after hready =>
    intro log d h
    have hbefore := not_ready_before hready
    obtain rfl := firstReady_eq hready
    cases h
    exact .stuck hverdict hbefore
  | case4 slots hverdict before after inside site event rest hready _ =>
    rename_i ih
    intro log d h
    have hbefore := not_ready_before hready
    obtain rfl := firstReady_eq hready
    exact .turn hverdict hbefore (.emit site event rest) (ih (by simpa using hstarts) (lasts_emit.1 h))
  | case5 slots hverdict before after inside site request rest hready _ =>
    rename_i ih
    intro log d h
    have hbefore := not_ready_before hready
    obtain rfl := firstReady_eq hready
    cases h with
    | call answer h =>
      exact .turn hverdict hbefore (.call site request answer rest) (ih answer (by simpa using hstarts) h)
  | case6 slots hverdict before after seen' span rest hready _ ih =>
    intro log d h
    have hbefore := not_ready_before hready
    obtain rfl := firstReady_eq hready
    exact .turn hverdict hbefore (.pause seen' span rest) (ih (by simpa using hstarts) h)
  | case7 slots hverdict hready span hwaking ih =>
    intro log d h
    obtain ⟨d, rfl, hlater⟩ := lasts_pause.1 h
    exact .advance hverdict (waits_of_nextWaking (not_ready_of_none hstarts.started hready) hwaking)
      (ih (by simpa [advanceAll] using hstarts) hlater)
  | case8 slots hverdict hready hwaking =>
    intro log d _
    exact (verdict_of_idle (fun limit hlimit => (hstarts limit hlimit).1) hready hwaking hverdict).elim

/-- Once the result is certain nothing else happens. -/
theorem Gathers.of_verdict {k : Nat} {disc : Discipline} {log : List Exchange} {d : Duration}
    {r : Option (Except ε (List β))} {result : Except ε (List β)} (hverdict : disc.verdict slots = some result)
    (h : Gathers k disc slots log d r) : log = [] ∧ d = 0 ∧ r = some result := by
  cases h with
  | verdict h =>
    cases hverdict.symm.trans h
    exact ⟨rfl, rfl, rfl⟩
  | stuck hnone | turn hnone | advance hnone => cases hverdict.symm.trans hnone

end

/-! ### Prompt slots -/

section
variable {slots : List (Slot σ ε β)}

theorem Slot.Prompt.advance (h : EverySlot (fun _ => Slot.Prompt) slots) (span : Nat) :
    EverySlot (fun _ => Slot.Prompt) (advanceAll span slots) := by
  refine EverySlot.advance h fun _ s hs => ?_
  cases s with
  | ready | ended => exact hs
  | asleep left p =>
    simp only [Slot.advance]
    split
    · exact hs.2
    · exact ⟨by omega, hs.2⟩

theorem Process.Prompt.gather {seen : σ} {k : Nat} {disc : Discipline}
    (h : EverySlot (fun _ => Slot.Prompt) slots) : (StepFlow.gather seen k disc slots).Prompt := by
  fun_induction StepFlow.gather seen k disc slots with
  | case1 | case3 | case8 => trivial
  | case2 slots hverdict before after result hready _ ih =>
    rw [firstReady_eq hready] at h
    exact ih (h.replace trivial)
  | case4 slots hverdict before after inside site event rest hready _ =>
    rename_i ih
    rw [firstReady_eq hready] at h
    exact ih (h.replace h.middle)
  | case5 slots hverdict before after inside site request rest hready _ =>
    rename_i ih
    rw [firstReady_eq hready] at h
    exact fun answer => ih answer (h.replace (h.middle answer))
  | case6 slots hverdict before after seen' span rest hready _ ih =>
    rw [firstReady_eq hready] at h
    exact ih (h.replace h.middle)
  | case7 slots hverdict hready span hwaking ih =>
    obtain ⟨p, hp⟩ := mem_of_nextWaking hwaking
    obtain ⟨i, hi⟩ := List.mem_iff_getElem?.1 hp
    exact ⟨(h i _ hi).1, ih (Slot.Prompt.advance h span)⟩

end
end StepFlow
