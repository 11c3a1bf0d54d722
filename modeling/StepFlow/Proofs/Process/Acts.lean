import StepFlow.Proofs.Process.InTurn

/-!
# What processes do

`p.Does acts e`: with some answers to its calls, the process `p` does `acts`, one after the other, and
then has come to the ending `e`: to its end, or to a sleep in which it is cut off. Every run that is not
stuck does something in this sense (`Does.of_run`), and what a process does that is put together or
gathered from others, is what its parts do (`Does.of_bind`, `does_of_gather`).
-/

namespace StepFlow

/-- Something that is told or asked, with its place. -/
inductive Act where
  | event (site : Site) (event : Event)
  | call (site : Site) (request : Request)

namespace Act

def site : Act → Site
  | event site _ => site
  | call site _ => site

/-- The event that is told, with its place. -/
def event? : Act → Option (Site × Event)
  | event site e => some (site, e)
  | call .. => none

/-- The request that is made, with its place. -/
def call? : Act → Option (Site × Request)
  | event .. => none
  | call site request => some (site, request)

/-- The event that an execution tells of itself. -/
def own? : Act → Option Event
  | event [] e => some e
  | _ => none

/-- The act as it is done in one of the nested executions. -/
def within? (b : Branch) : Act → Option Act
  | event (b' :: site) e => if b' = b then some (event site e) else none
  | call (b' :: site) request => if b' = b then some (call site request) else none
  | _ => none

end Act

/-- The events that an execution tells of itself. -/
def ownEvents (acts : List Act) : List Event := acts.filterMap Act.own?

theorem ownEvents_append (acts acts' : List Act) :
    ownEvents (acts ++ acts') = ownEvents acts ++ ownEvents acts' := List.filterMap_append ..

theorem ownEvents_cons_event (event : Event) (acts : List Act) :
    ownEvents (.event [] event :: acts) = event :: ownEvents acts := rfl

theorem ownEvents_map_event (events : List Event) : ownEvents (events.map (.event [])) = events := by
  induction events with
  | nil => rfl
  | cons event events ih => rw [List.map_cons, ownEvents_cons_event, ih]

/-- What is done in one of the nested executions. -/
def actsWithin (b : Branch) (acts : List Act) : List Act := acts.filterMap (Act.within? b)

theorem actsWithin_event_self (b : Branch) (site : Site) (event : Event) (acts : List Act) :
    actsWithin b (.event (b :: site) event :: acts) = .event site event :: actsWithin b acts := by
  simp [actsWithin, Act.within?]

theorem actsWithin_call_self (b : Branch) (site : Site) (request : Request) (acts : List Act) :
    actsWithin b (.call (b :: site) request :: acts) = .call site request :: actsWithin b acts := by
  simp [actsWithin, Act.within?]

theorem actsWithin_event_of_ne {b b' : Branch} (h : b' ≠ b) (site : Site) (event : Event)
    (acts : List Act) : actsWithin b (.event (b' :: site) event :: acts) = actsWithin b acts := by
  simp [actsWithin, Act.within?, h]

theorem actsWithin_call_of_ne {b b' : Branch} (h : b' ≠ b) (site : Site) (request : Request)
    (acts : List Act) : actsWithin b (.call (b' :: site) request :: acts) = actsWithin b acts := by
  simp [actsWithin, Act.within?, h]

theorem actsWithin_eq_nil {b : Branch} {acts : List Act} (h : ∀ act ∈ acts, act.site.head? ≠ some b) :
    actsWithin b acts = [] := by
  refine List.filterMap_eq_nil_iff.2 fun act hact => ?_
  have hb := h act hact
  cases act with
  | event site e =>
    cases site with
    | nil => rfl
    | cons b' site => simpa [Act.within?, Act.site] using hb
  | call site request =>
    cases site with
    | nil => rfl
    | cons b' site => simpa [Act.within?, Act.site] using hb

/-- The timeline `t'` is `t` with `acts` done on it. -/
structure Timeline.Records {ω : Type} (t : Timeline ω) (acts : List Act) (t' : Timeline ω) : Prop where
  events : ∃ more, t'.events = t.events ++ more ∧
    more.map (fun l => (l.site, l.what)) = acts.filterMap Act.event?
  calls : ∃ more, t'.calls = t.calls ++ more ∧
    more.map (fun l => (l.site, l.what)) = acts.filterMap Act.call?

namespace Timeline.Records

variable {ω : Type} {t t' t'' : Timeline ω} {acts acts' : List Act}

theorem of_eq (hevents : t'.events = t.events) (hcalls : t'.calls = t.calls) : t.Records [] t' :=
  ⟨⟨[], by simp [hevents]⟩, ⟨[], by simp [hcalls]⟩⟩

theorem logEvent (t : Timeline ω) (site : Site) (event : Event) :
    t.Records [.event site event] (t.logEvent site event) :=
  ⟨⟨_, rfl, rfl⟩, [], by simp [Timeline.logEvent, Act.call?]⟩

theorem logCall (t : Timeline ω) (site : Site) (request : Request) (world : ω) :
    t.Records [.call site request] (t.logCall site request world) :=
  ⟨⟨[], by simp [Timeline.logCall, Act.event?]⟩, _, rfl, rfl⟩

theorem trans (h : t.Records acts t') (h' : t'.Records acts' t'') : t.Records (acts ++ acts') t'' := by
  obtain ⟨events, hevents, hmore⟩ := h.events
  obtain ⟨events', hevents', hmore'⟩ := h'.events
  obtain ⟨calls, hcalls, hasked⟩ := h.calls
  obtain ⟨calls', hcalls', hasked'⟩ := h'.calls
  refine ⟨⟨events ++ events', by rw [hevents', hevents, List.append_assoc], ?_⟩,
    calls ++ calls', by rw [hcalls', hcalls, List.append_assoc], ?_⟩
  · rw [List.map_append, hmore, hmore', List.filterMap_append]
  · rw [List.map_append, hasked, hasked', List.filterMap_append]

theorem mem_events (h : t.Records acts t') {l : Logged Event} (hl : l ∈ t'.events) :
    l ∈ t.events ∨ .event l.site l.what ∈ acts := by
  obtain ⟨more, hevents, hmore⟩ := h.events
  rw [hevents, List.mem_append] at hl
  refine hl.imp_right fun hl => ?_
  have hmem : (l.site, l.what) ∈ acts.filterMap Act.event? :=
    hmore ▸ List.mem_map_of_mem (f := fun l => (l.site, l.what)) hl
  obtain ⟨act, hact, heq⟩ := List.mem_filterMap.1 hmem
  cases act with
  | event site e =>
    cases heq
    exact hact
  | call => cases heq

/-- The events that an execution has told of itself on the way. -/
theorem own (h : t.Records acts t') :
    t'.events.filterMap (fun l => (Act.event l.site l.what).own?) =
      t.events.filterMap (fun l => (Act.event l.site l.what).own?) ++ ownEvents acts := by
  obtain ⟨more, hevents, hmore⟩ := h.events
  let own (e : Site × Event) : Option Event := (Act.event e.1 e.2).own?
  have hacts (act : Act) : act.event?.bind own = act.own? := by
    cases act <;> rfl
  have hown : more.filterMap (fun l => own (l.site, l.what)) = ownEvents acts := by
    have hmap : (more.map fun l => (l.site, l.what)).filterMap own =
        more.filterMap fun l => own (l.site, l.what) := List.filterMap_map
    rw [hmore, List.filterMap_filterMap, funext hacts] at hmap
    exact hmap.symm
  rw [hevents, List.filterMap_append]
  exact congrArg _ hown

end Timeline.Records

namespace Process

variable {ω σ α β ε : Type} {p : Process σ α} {f : α → Process σ β} {acts : List Act}

inductive Does : Process σ α → List Act → Ending σ α → Prop where
  | done (a : α) : Does (.done a) [] (.finished a)
  | cut (seen : σ) (span : Duration) (rest : Unit → Process σ α) :
      Does (.pause seen span rest) [] (.cut seen)
  | emit {site : Site} {event : Event} {rest : Unit → Process σ α} {acts : List Act} {e : Ending σ α}
      (h : Does (rest ()) acts e) : Does (.emit site event rest) (.event site event :: acts) e
  | call {site : Site} {request : Request} {rest : Answer → Process σ α} {acts : List Act}
      {e : Ending σ α} (answer : Answer) (h : Does (rest answer) acts e) :
      Does (.call site request rest) (.call site request :: acts) e
  | pause {seen : σ} {span : Duration} {rest : Unit → Process σ α} {acts : List Act} {e : Ending σ α}
      (h : Does (rest ()) acts e) : Does (.pause seen span rest) acts e

namespace Does

/-- What a run has done, to its end or to its deadline. -/
theorem of_run {runners : Runners ω} {deadline : Option Duration} {t t' : Timeline ω} {e : Ending σ α}
    (h : p.run runners deadline t = (e, t')) (he : e ≠ .stuck) :
    ∃ acts, p.Does acts e ∧ t.Records acts t' := by
  induction p generalizing t with
  | done a =>
    cases h
    exact ⟨[], .done a, .of_eq rfl rfl⟩
  | stuck =>
    cases h
    exact (he rfl).elim
  | emit site event rest ih =>
    obtain ⟨acts, hacts, hrecords⟩ := ih () h
    exact ⟨_, .emit hacts, (Timeline.Records.logEvent t site event).trans hrecords⟩
  | call site request rest ih =>
    obtain ⟨acts, hacts, hrecords⟩ := ih _ h
    exact ⟨_, .call _ hacts, (Timeline.Records.logCall t site request _).trans hrecords⟩
  | pause seen span rest ih =>
    simp only [run] at h
    split at h
    · cases h
      exact ⟨[], .cut seen span rest, .of_eq rfl rfl⟩
    · obtain ⟨acts, hacts, hrecords⟩ := ih () h
      exact ⟨acts, .pause hacts, hrecords.events, hrecords.calls⟩

/-- The first part comes to its end and the second goes on from there, or the first is cut off. -/
theorem of_bind {e : Ending σ β} (h : (Process.bind f p).Does acts e) :
    (∃ acts₁ acts₂ a, acts = acts₁ ++ acts₂ ∧ p.Does acts₁ (.finished a) ∧ (f a).Does acts₂ e) ∨
      ∃ seen, e = .cut seen ∧ p.Does acts (.cut seen) := by
  induction p generalizing acts with
  | done a => exact .inl ⟨[], acts, a, rfl, .done a, h⟩
  | stuck => cases h
  | emit site event rest ih =>
    cases h with
    | emit h =>
      rcases ih () h with ⟨acts₁, acts₂, a, rfl, h₁, h₂⟩ | ⟨seen, rfl, h₁⟩
      · exact .inl ⟨_ :: acts₁, acts₂, a, rfl, .emit h₁, h₂⟩
      · exact .inr ⟨seen, rfl, .emit h₁⟩
  | call site request rest ih =>
    cases h with
    | call answer h =>
      rcases ih answer h with ⟨acts₁, acts₂, a, rfl, h₁, h₂⟩ | ⟨seen, rfl, h₁⟩
      · exact .inl ⟨_ :: acts₁, acts₂, a, rfl, .call answer h₁, h₂⟩
      · exact .inr ⟨seen, rfl, .call answer h₁⟩
  | pause seen span rest ih =>
    cases h with
    | cut => exact .inr ⟨seen, rfl, .cut seen span rest⟩
    | pause h =>
      rcases ih () h with ⟨acts₁, acts₂, a, rfl, h₁, h₂⟩ | ⟨seen', rfl, h₁⟩
      · exact .inl ⟨acts₁, acts₂, a, rfl, .pause h₁, h₂⟩
      · exact .inr ⟨seen', rfl, .pause h₁⟩

theorem of_tell {event : Event} {rest : Unit → Process σ β} {e : Ending σ β}
    (h : (Process.bind rest (tell event)).Does acts e) :
    ∃ acts', acts = .event [] event :: acts' ∧ (rest ()).Does acts' e := by
  cases h with
  | emit h => exact ⟨_, rfl, h⟩

theorem of_sleep {seen : σ} {span : Duration} {rest : Unit → Process σ β} {e : Ending σ β}
    (h : (Process.bind rest (sleep seen span)).Does acts e) :
    (rest ()).Does acts e ∨ acts = [] ∧ e = .cut seen := by
  unfold sleep at h
  split at h
  · exact .inl h
  · cases h with
    | cut => exact .inr ⟨rfl, rfl⟩
    | pause h => exact .inl h

/-- What a contract permits is all that is done. -/
theorem keeps {c : Contract σ α} {e : Ending σ α} (h : p.Does acts e) (hp : p.Keeps c) :
    e.Meets c ∧ (∀ site event, .event site event ∈ acts → c.tells site event) ∧
      ∀ site request, .call site request ∈ acts → c.asks site request := by
  induction h with
  | done => exact ⟨hp, nofun, nofun⟩
  | cut => exact ⟨hp.1, nofun, nofun⟩
  | emit _ ih =>
    obtain ⟨hmeets, htells, hasks⟩ := ih hp.2
    refine ⟨hmeets, fun s ev hmem => ?_, fun s r hmem => ?_⟩
    · rcases List.mem_cons.1 hmem with heq | hmem
      · cases heq
        exact hp.1
      · exact htells s ev hmem
    · rcases List.mem_cons.1 hmem with heq | hmem
      · cases heq
      · exact hasks s r hmem
  | call answer _ ih =>
    obtain ⟨hmeets, htells, hasks⟩ := ih (hp.2 answer)
    refine ⟨hmeets, fun s ev hmem => ?_, fun s r hmem => ?_⟩
    · rcases List.mem_cons.1 hmem with heq | hmem
      · cases heq
      · exact htells s ev hmem
    · rcases List.mem_cons.1 hmem with heq | hmem
      · cases heq
        exact hp.1
      · exact hasks s r hmem
  | pause _ ih => exact ih hp.2

end Does

end Process

/-! ### Gathered processes -/

section
variable {σ ε β : Type} {slots before after : List (Slot σ ε β)} {p q : Process σ (Except ε β)}

theorem mem_of_failure? {err : ε} (h : failure? slots = some err) : .ended (.error err) ∈ slots := by
  fun_induction failure? slots with
  | case1 => cases h
  | case2 e rest =>
    cases h
    exact List.mem_cons_self ..
  | case3 s rest _ ih => exact List.mem_cons_of_mem _ (ih h)

theorem mem_of_nextFailure? {err : ε} (h : nextFailure? slots = some err) :
    .ended (.error err) ∈ slots := by
  fun_induction nextFailure? slots with
  | case1 b rest ih => exact List.mem_cons_of_mem _ (ih h)
  | case2 e rest =>
    cases h
    exact List.mem_cons_self ..
  | case3 => cases h

theorem mem_of_verdict {d : Discipline} {err : ε} (h : d.verdict slots = some (.error err)) :
    .ended (.error err) ∈ slots := by
  rcases verdict_cases h with ⟨-, e, hfailure, ⟨⟩⟩ | ⟨-, e, hfailure, ⟨⟩⟩ | ⟨-, hok⟩
  · exact mem_of_failure? hfailure
  · exact mem_of_nextFailure? hfailure
  · cases hok

/-- Neither of the verdict nor of the number of processes started does it matter what is left of a
process that has not ended. -/
theorem sim_ready (before after : List (Slot σ ε β)) (p q : Process σ (Except ε β)) :
    ∃ slots, Slots.Sim True Eq slots (before ++ .ready p :: after) ∧
      Slots.Sim True Eq slots (before ++ .ready q :: after) := by
  have hrefl (slots : List (Slot σ ε β)) : Slots.Sim True Eq slots slots := by
    refine List.forall₂_same.2 fun s _ => ?_
    cases s with
    | ready p => exact .ready (.refl (fun _ => rfl) p)
    | asleep left p => exact .asleep left (.refl (fun _ => rfl) p)
    | ended result => exact .ended result
  exact ⟨before ++ .ready .stuck :: after,
    (hrefl before).middle (.ready (.further trivial p)) (hrefl after),
    (hrefl before).middle (.ready (.further trivial q)) (hrefl after)⟩

theorem verdict_ready (d : Discipline) (p q : Process σ (Except ε β)) :
    d.verdict (before ++ .ready p :: after) = d.verdict (before ++ .ready q :: after) := by
  obtain ⟨slots, hp, hq⟩ := sim_ready before after p q
  rw [hp.verdict_eq, hq.verdict_eq]

theorem started_ready (d : Discipline) (p q : Process σ (Except ε β)) :
    d.started (before ++ .ready p :: after) = d.started (before ++ .ready q :: after) := by
  obtain ⟨slots, hp, hq⟩ := sim_ready before after p q
  rw [hp.started_eq, hq.started_eq]

/-- The first process that is ready stays so as it goes on. -/
theorem firstReady_ready {n : Nat} (h : firstReady n slots = some (before, p, after))
    (q : Process σ (Except ε β)) :
    firstReady n (before ++ .ready q :: after) = some (before, q, after) := by
  fun_induction firstReady n slots generalizing before with
  | case1 | case2 => cases h
  | case3 n p' rest hn =>
    cases h
    cases n with
    | zero => exact (hn rfl).elim
    | succ n => rfl
  | case4 n s rest hs ih =>
    obtain ⟨⟨before', p', after'⟩, hfirst, heq⟩ := Option.map_eq_some_iff.1 h
    cases heq
    have hlater := ih hfirst
    cases s with
    | ready p' => exact (hs p' rfl).elim
    | asleep left p' => simp [firstReady, hlater]
    | ended result => simp [firstReady, hlater]

end

theorem Slot.rest_advance {σ ε β : Type} (span : Nat) (s : Slot σ ε β) : (s.advance span).rest = s.rest := by
  cases s with
  | asleep left p =>
    simp only [Slot.advance]
    split <;> rfl
  | ready | ended => rfl

namespace EverySlot

variable {σ ε β : Type} {P P' : Nat → Slot σ ε β → Prop} {slots before after : List (Slot σ ε β)}
  {s s' : Slot σ ε β}

theorem of_advance {span : Nat} (h : EverySlot P' (advanceAll span slots))
    (hP : ∀ i s, P' i (s.advance span) → P i s) : EverySlot P slots := by
  intro i s hs
  refine hP i s (h i _ ?_)
  rw [advanceAll, List.getElem?_map, hs]
  rfl

/-- One slot is replaced, and of the others `P` holds where `P'` does. -/
theorem exchange (h : EverySlot P' (before ++ s' :: after)) (hs : P before.length s)
    (hothers : ∀ i s, i ≠ before.length → P' i s → P i s) : EverySlot P (before ++ s :: after) := by
  let Q (i : Nat) (u : Slot σ ε β) : Prop := i ≠ before.length → P i u
  have hQ' : EverySlot Q (before ++ s' :: after) := fun i u hu hi => hothers i u hi (h i u hu)
  have hQ : EverySlot Q (before ++ s :: after) := hQ'.replace fun hi => (hi rfl).elim
  intro i u hu
  by_cases hi : i = before.length
  · subst hi
    have heq : s = u := by simpa using hu
    exact heq ▸ hs
  · exact hQ i u hu hi

end EverySlot

namespace Process

variable {σ ε β : Type} {slots : List (Slot σ ε β)} {seen : σ} {attempt : Nat} {d : Discipline}
  {acts : List Act} {e : Ending σ (Except ε (List β))}

/-- What is done of the slot's process: nothing, if it has not been started or has just been woken, or
all up to its end or to a sleep. -/
def SlotDoes (acts : List Act) (s : Slot σ ε β) : Prop := acts = [] ∨ ∃ e, s.rest.Does acts e

/-- What every process does that is gathered. The one that goes on first does something, be it that it
sleeps at once. -/
theorem does_of_gather (h : (gather seen attempt d slots).Does acts e) :
    EverySlot (fun i => SlotDoes (actsWithin ⟨attempt, i⟩ acts)) slots ∧
      ∀ before p after, d.verdict slots = none →
        firstReady (d.started slots) slots = some (before, p, after) →
        ∃ e', p.Does (actsWithin ⟨attempt, before.length⟩ acts) e' := by
  -- One of the processes goes on, of which it is known what it does; the others have done the same before.
  have ready {before after : List (Slot σ ε β)} {p : Process σ (Except ε β)} {s : Slot σ ε β}
      {acts acts' : List Act}
      (hready : firstReady (d.started (before ++ .ready p :: after)) (before ++ .ready p :: after) =
        some (before, p, after))
      (hslots : EverySlot (fun i => SlotDoes (actsWithin ⟨attempt, i⟩ acts')) (before ++ s :: after))
      (hothers : ∀ i, i ≠ before.length →
        actsWithin ⟨attempt, i⟩ acts = actsWithin ⟨attempt, i⟩ acts')
      (hp : ∃ e', p.Does (actsWithin ⟨attempt, before.length⟩ acts) e') :
      EverySlot (fun i => SlotDoes (actsWithin ⟨attempt, i⟩ acts)) (before ++ .ready p :: after) ∧
        ∀ before' p' after', d.verdict (before ++ .ready p :: after) = none →
          firstReady (d.started (before ++ .ready p :: after)) (before ++ .ready p :: after) =
            some (before', p', after') →
          ∃ e', p'.Does (actsWithin ⟨attempt, before'.length⟩ acts) e' := by
    refine ⟨hslots.exchange (.inr hp) fun i u hi hu => ?_, fun before' p' after' _ hready' => ?_⟩
    · rw [hothers i hi]
      exact hu
    · rw [hready] at hready'
      cases hready'
      exact hp
  have hne {i j : Nat} (hij : i ≠ j) : (⟨attempt, j⟩ : Branch) ≠ ⟨attempt, i⟩ :=
    fun heq => hij (congrArg Branch.index heq).symm
  revert acts
  fun_induction gather seen attempt d slots with
  | case1 slots result hverdict =>
    intro acts h
    cases h
    exact ⟨fun _ _ _ => .inl rfl, fun _ _ _ hnone =>
      (Option.some_ne_none _ (hverdict.symm.trans hnone)).elim⟩
  | case2 slots hverdict before after result hready _ ih =>
    intro acts h
    obtain rfl := firstReady_eq hready
    obtain ⟨hslots, -⟩ := ih h
    refine ready hready hslots (fun _ _ => rfl) ?_
    rcases hslots.middle with hnone | ⟨e', he'⟩
    · rw [hnone]
      exact ⟨_, .done result⟩
    · exact ⟨e', he'⟩
  | case3 =>
    intro acts h
    cases h
  | case4 slots hverdict before after inside site event rest hready _ =>
    rename_i ih
    intro acts h
    obtain rfl := firstReady_eq hready
    cases h with
    | emit h =>
      obtain ⟨hslots, hfirst⟩ := ih h
      obtain ⟨e', he'⟩ := hfirst _ _ _ ((verdict_ready d _ _).trans hverdict)
        (started_ready d _ _ ▸ firstReady_ready hready (rest ()))
      refine ready hready hslots (fun i hi => actsWithin_event_of_ne (hne hi) ..) ⟨e', ?_⟩
      rw [actsWithin_event_self]
      exact .emit he'
  | case5 slots hverdict before after inside site request rest hready _ =>
    rename_i ih
    intro acts h
    obtain rfl := firstReady_eq hready
    cases h with
    | call answer h =>
      obtain ⟨hslots, hfirst⟩ := ih answer h
      obtain ⟨e', he'⟩ := hfirst _ _ _ ((verdict_ready d _ _).trans hverdict)
        (started_ready d _ _ ▸ firstReady_ready hready (rest answer))
      refine ready hready hslots (fun i hi => actsWithin_call_of_ne (hne hi) ..) ⟨e', ?_⟩
      rw [actsWithin_call_self]
      exact .call answer he'
  | case6 slots hverdict before after seen' span rest hready _ ih =>
    intro acts h
    obtain rfl := firstReady_eq hready
    obtain ⟨hslots, -⟩ := ih h
    refine ready hready hslots (fun _ _ => rfl) ?_
    rcases hslots.middle with hnone | ⟨e', he'⟩
    · rw [hnone]
      exact ⟨_, .cut seen' span rest⟩
    · exact ⟨e', .pause he'⟩
  | case7 slots hverdict hready span hwaking ih =>
    intro acts h
    refine ⟨?_, fun _ _ _ _ hready' => (Option.some_ne_none _ (hready'.symm.trans hready)).elim⟩
    cases h with
    | cut => exact fun _ _ _ => .inl rfl
    | pause h =>
      obtain ⟨hslots, -⟩ := ih h
      refine hslots.of_advance fun i s hs => ?_
      rwa [SlotDoes, Slot.rest_advance] at hs
  | case8 =>
    intro acts h
    cases h

/-- All that is done is done by one of the processes. -/
theorem places_of_gather (h : (gather seen attempt d slots).Does acts e) :
    ∀ act ∈ acts, ∃ i rest, i < slots.length ∧ act.site = ⟨attempt, i⟩ :: rest := by
  let among (site : Site) : Prop := ∃ i rest, i < slots.length ∧ site = ⟨attempt, i⟩ :: rest
  let c : Contract σ (Except ε (List β)) :=
    { tells := fun site _ => among site, asks := fun site _ => among site }
  have hkeeps : (gather seen attempt d slots).Keeps c := by
    refine .gather trivial (fun _ => trivial) fun i s hs p _ => ?_
    have hi : i < slots.length := (List.getElem?_eq_some_iff.1 hs).1
    exact (Keeps.free p).mono (fun site _ _ => ⟨i, site, hi, rfl⟩) (fun site _ _ => ⟨i, site, hi, rfl⟩)
      (fun _ h => h) fun _ h => h
  obtain ⟨-, htells, hasks⟩ := h.keeps hkeeps
  intro act hact
  cases act with
  | event site event => exact htells site event hact
  | call site request => exact hasks site request hact

/-! ### Results -/

theorem mem_of_taken {b : β} (h : b ∈ taken slots) : .ended (.ok b) ∈ slots := by
  fun_induction taken slots with
  | case1 b' rest ih =>
    rcases List.mem_cons.1 h with rfl | h
    · exact List.mem_cons_self ..
    · exact List.mem_cons_of_mem _ (ih h)
  | case2 => cases h

/-- What holds of each result of the processes holds of all that are gathered. -/
theorem Keeps.gather_ok {P : β → Prop} (h : ∀ s ∈ slots, s.rest.Keeps { ends := IfOk P }) :
    (StepFlow.gather seen attempt d slots).Keeps { ends := IfOk fun bs => ∀ b ∈ bs, P b } := by
  -- A process that goes on keeps what it has kept.
  have ready {before after : List (Slot σ ε β)} {p : Process σ (Except ε β)} {s : Slot σ ε β}
      (h : ∀ u ∈ before ++ .ready p :: after, u.rest.Keeps { ends := IfOk P })
      (hs : p.Keeps { ends := IfOk P } → s.rest.Keeps { ends := IfOk P }) :
      ∀ u ∈ before ++ s :: after, u.rest.Keeps { ends := IfOk P } := by
    rw [List.forall_mem_append, List.forall_mem_cons] at h ⊢
    exact ⟨h.1, hs h.2.1, h.2.2⟩
  fun_induction StepFlow.gather seen attempt d slots with
  | case1 slots result hverdict =>
    rcases verdict_cases hverdict with ⟨-, e, -, rfl⟩ | ⟨-, e, -, rfl⟩ | ⟨-, rfl⟩
    · exact IfOk.error e
    · exact IfOk.error e
    · exact IfOk.ok fun b hb => h _ (mem_of_taken hb) b rfl
  | case2 slots hverdict before after result hready _ ih =>
    rw [firstReady_eq hready] at h
    exact ih (ready h id)
  | case3 | case8 => trivial
  | case4 slots hverdict before after inside site event rest hready _ ih =>
    rw [firstReady_eq hready] at h
    exact ⟨trivial, ih (ready h (·.2))⟩
  | case5 slots hverdict before after inside site request rest hready _ ih =>
    rw [firstReady_eq hready] at h
    exact ⟨trivial, fun answer => ih answer (ready h (·.2 answer))⟩
  | case6 slots hverdict before after seen' span rest hready _ ih =>
    rw [firstReady_eq hready] at h
    exact ih (ready h (·.2))
  | case7 slots hverdict hready span hwaking ih =>
    refine ⟨trivial, ih fun s hs => ?_⟩
    obtain ⟨u, hu, rfl⟩ := List.mem_map.1 hs
    rw [Slot.rest_advance]
    exact h u hu

end Process
end StepFlow
