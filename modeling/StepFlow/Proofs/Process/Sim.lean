import Mathlib.Data.List.Forall2
import StepFlow.Process.Timeline
import StepFlow.Proofs.Process.Gather

/-!
# Simulation of processes

`p.Sim S Q q`: the process `q` does what `p` does, with requests that `Q` relates to those of `p`. Where
`p` is stuck, so is `q`; only if `S` allows it, `q` may go on there. Processes that are put together or
gathered from similar ones are similar, and similar processes run alike against runners that answer
related requests alike (`Sim.run`).

`gatherWithin n` gathers for `n` turns and then is stuck. It goes by recursion on `n`, so that a run
with it can be computed, and `gather` does what it does.
-/

namespace StepFlow

variable {σ α β γ ε ω : Type} {S : Prop} {Q : Request → Request → Prop}

namespace Process

inductive Sim (S : Prop) (Q : Request → Request → Prop) : Process σ α → Process σ α → Prop where
  | done (a : α) : Sim S Q (.done a) (.done a)
  | stuck : Sim S Q .stuck .stuck
  | further (h : S) (q : Process σ α) : Sim S Q .stuck q
  | emit {site : Site} {event : Event} {rest rest' : Unit → Process σ α}
      (h : Sim S Q (rest ()) (rest' ())) : Sim S Q (.emit site event rest) (.emit site event rest')
  | call {site : Site} {request request' : Request} {rest rest' : Answer → Process σ α}
      (hrequest : Q request request') (h : ∀ answer, Sim S Q (rest answer) (rest' answer)) :
      Sim S Q (.call site request rest) (.call site request' rest')
  | pause {seen : σ} {span : Duration} {rest rest' : Unit → Process σ α}
      (h : Sim S Q (rest ()) (rest' ())) : Sim S Q (.pause seen span rest) (.pause seen span rest')

namespace Sim

variable {p q r : Process σ α} {f g : α → Process σ β}

theorem refl (hQ : ∀ r, Q r r) (p : Process σ α) : p.Sim S Q p := by
  induction p with
  | done a => exact .done a
  | stuck => exact .stuck
  | emit site event rest ih => exact .emit (ih ())
  | call site request rest ih => exact .call (hQ request) ih
  | pause seen span rest ih => exact .pause (ih ())

theorem of_eq_trans (h : p.Sim S Eq q) (h' : q.Sim S Q r) : p.Sim S Q r := by
  induction h generalizing r with
  | done a => exact h'
  | stuck => exact h'
  | further h q => exact .further h r
  | emit _ ih =>
    cases h' with
    | emit h' => exact .emit (ih h')
  | call hrequest _ ih =>
    cases h' with
    | call hrequest' h' => exact .call (hrequest ▸ hrequest') fun answer => ih answer (h' answer)
  | pause _ ih =>
    cases h' with
    | pause h' => exact .pause (ih h')

theorem bind (h : p.Sim S Q q) (hf : ∀ a, (f a).Sim S Q (g a)) :
    (Process.bind f p).Sim S Q (Process.bind g q) := by
  induction h with
  | done a => exact hf a
  | stuck => exact .stuck
  | further h q => exact .further h _
  | emit _ ih => exact .emit ih
  | call hrequest _ ih => exact .call hrequest ih
  | pause _ ih => exact .pause ih

theorem tell {event : Event} {rest rest' : Unit → Process σ β} (h : (rest ()).Sim S Q (rest' ())) :
    (Process.bind rest (Process.tell event)).Sim S Q (Process.bind rest' (Process.tell event)) :=
  .emit h

theorem sleep {seen : σ} {span : Duration} {rest rest' : Unit → Process σ β}
    (h : (rest ()).Sim S Q (rest' ())) :
    (Process.bind rest (Process.sleep seen span)).Sim S Q
      (Process.bind rest' (Process.sleep seen span)) := by
  unfold Process.sleep
  split
  · exact h
  · exact .pause h

theorem ask {seen : σ} {request request' : Request} (hrequest : Q request request')
    (rest : Except RunnerError Report → Process σ β)
    (hrest : ∀ result, (rest result).Sim S Q (rest result)) :
    (Process.bind rest (Process.ask seen request)).Sim S Q
      (Process.bind rest (Process.ask seen request')) := by
  refine .call hrequest fun answer => ?_
  dsimp only
  rw [bind_assoc]
  exact .sleep (hrest _)

end Sim
end Process

/-! ### Among others -/

inductive Slot.Sim (S : Prop) (Q : Request → Request → Prop) : Slot σ ε β → Slot σ ε β → Prop where
  | ready {p q : Process σ (Except ε β)} (h : p.Sim S Q q) : Sim S Q (.ready p) (.ready q)
  | asleep (left : Nat) {p q : Process σ (Except ε β)} (h : p.Sim S Q q) :
      Sim S Q (.asleep left p) (.asleep left q)
  | ended (result : Except ε β) : Sim S Q (.ended result) (.ended result)

/-- Slots that are similar one by one. -/
abbrev Slots.Sim (S : Prop) (Q : Request → Request → Prop) :
    List (Slot σ ε β) → List (Slot σ ε β) → Prop :=
  List.Forall₂ (Slot.Sim S Q)

namespace Slots.Sim

variable {slots slots' : List (Slot σ ε β)} (h : Slots.Sim S Q slots slots')
include h

theorem failure?_eq : failure? slots' = failure? slots := by
  induction h with
  | nil => rfl
  | cons hs _ ih =>
    cases hs with
    | ready | asleep => exact ih
    | ended result =>
      cases result with
      | ok b => exact ih
      | error e => rfl

theorem taken_eq : taken slots' = taken slots := by
  induction h with
  | nil => rfl
  | cons hs _ ih =>
    cases hs with
    | ready | asleep => rfl
    | ended result =>
      cases result with
      | ok b => exact congrArg (b :: ·) ih
      | error e => rfl

theorem nextFailure?_eq : nextFailure? slots' = nextFailure? slots := by
  induction h with
  | nil => rfl
  | cons hs _ ih =>
    cases hs with
    | ready | asleep => rfl
    | ended result =>
      cases result with
      | ok b => exact ih
      | error e => rfl

theorem nextWaking_eq : nextWaking slots' = nextWaking slots := by
  induction h with
  | nil => rfl
  | cons hs _ ih => cases hs <;> simp only [nextWaking, ih]

theorem verdict_eq (d : Discipline) : d.verdict slots' = d.verdict slots := by
  simp only [Discipline.verdict, failure?_eq h, nextFailure?_eq h, taken_eq h, h.length_eq]

theorem started_eq (d : Discipline) : d.started slots' = d.started slots := by
  simp only [Discipline.started, taken_eq h, h.length_eq]

theorem advance (span : Nat) : Slots.Sim S Q (advanceAll span slots) (advanceAll span slots') := by
  refine List.forall₂_map_left_iff.2 (List.forall₂_map_right_iff.2 (h.imp fun s s' hs => ?_))
  cases hs with
  | ready h => exact .ready h
  | ended result => exact .ended result
  | asleep left h =>
    simp only [Slot.advance]
    split
    · exact .ready h
    · exact .asleep _ h

theorem firstReady_none {n : Nat} (hready : firstReady n slots = none) : firstReady n slots' = none := by
  induction h generalizing n with
  | nil => cases n <;> rfl
  | cons hs _ ih =>
    cases n with
    | zero => rfl
    | succ n =>
      cases hs with
      | ready => simp [firstReady] at hready
      | asleep | ended =>
        simp only [firstReady, Option.map_eq_none_iff] at hready ⊢
        exact ih hready

theorem firstReady_some {n : Nat} {before after : List (Slot σ ε β)} {p : Process σ (Except ε β)}
    (hready : firstReady n slots = some (before, p, after)) :
    ∃ before' q after', firstReady n slots' = some (before', q, after') ∧
      Slots.Sim S Q before before' ∧ p.Sim S Q q ∧ Slots.Sim S Q after after' := by
  induction h generalizing n before with
  | nil => cases n <;> cases hready
  | @cons s s' rest rest' hs hrest ih =>
    cases n with
    | zero => cases hready
    | succ n =>
      cases hs with
      | ready hp =>
        cases hready
        exact ⟨[], _, _, rfl, .nil, hp, hrest⟩
      | asleep left hp =>
        obtain ⟨⟨b, p', a⟩, hb, heq⟩ := Option.map_eq_some_iff.1 hready
        cases heq
        obtain ⟨before', q, after', hready', h₁, h₂, h₃⟩ := ih hb
        refine ⟨_ :: before', q, after', ?_, .cons (.asleep left hp) h₁, h₂, h₃⟩
        simp only [firstReady, hready', Option.map_some]
      | ended result =>
        obtain ⟨⟨b, p', a⟩, hb, heq⟩ := Option.map_eq_some_iff.1 hready
        cases heq
        obtain ⟨before', q, after', hready', h₁, h₂, h₃⟩ := ih hb
        refine ⟨_ :: before', q, after', ?_, .cons (.ended result) h₁, h₂, h₃⟩
        simp only [firstReady, hready', Option.map_some]

end Slots.Sim

theorem Slots.Sim.middle {before before' after after' : List (Slot σ ε β)} {s s' : Slot σ ε β}
    (hbefore : Slots.Sim S Q before before') (hs : Slot.Sim S Q s s')
    (hafter : Slots.Sim S Q after after') :
    Slots.Sim S Q (before ++ s :: after) (before' ++ s' :: after') :=
  List.rel_append hbefore (.cons hs hafter)

theorem Process.Sim.gather {seen : σ} {attempt : Nat} {d : Discipline} {slots slots' : List (Slot σ ε β)}
    (h : Slots.Sim S Q slots slots') :
    (StepFlow.gather seen attempt d slots).Sim S Q (StepFlow.gather seen attempt d slots') := by
  revert slots'
  fun_induction StepFlow.gather seen attempt d slots with
  | case1 slots result hverdict =>
    intro slots' h
    rw [gather_verdict ((h.verdict_eq d).trans hverdict)]
    exact .done _
  | case2 slots hverdict before after result hready _ ih =>
    intro slots' h
    obtain ⟨before', q, after', hready', hbefore, hp, hafter⟩ := h.firstReady_some hready
    rw [gather_ready ((h.verdict_eq d).trans hverdict) ((h.started_eq d).symm ▸ hready')]
    cases hp
    exact ih (hbefore.middle (.ended result) hafter)
  | case3 slots hverdict before after hready =>
    intro slots' h
    obtain ⟨before', q, after', hready', hbefore, hp, hafter⟩ := h.firstReady_some hready
    rw [gather_ready ((h.verdict_eq d).trans hverdict) ((h.started_eq d).symm ▸ hready')]
    cases hp with
    | stuck => exact .stuck
    | further h => exact .further h _
  | case4 slots hverdict before after inside site event rest hready _ =>
    rename_i ih
    intro slots' h
    obtain ⟨before', q, after', hready', hbefore, hp, hafter⟩ := h.firstReady_some hready
    rw [gather_ready ((h.verdict_eq d).trans hverdict) ((h.started_eq d).symm ▸ hready')]
    cases hp with
    | emit hp =>
      rw [← hbefore.length_eq]
      exact .emit (ih (hbefore.middle (.ready hp) hafter))
  | case5 slots hverdict before after inside site request rest hready _ =>
    rename_i ih
    intro slots' h
    obtain ⟨before', q, after', hready', hbefore, hp, hafter⟩ := h.firstReady_some hready
    rw [gather_ready ((h.verdict_eq d).trans hverdict) ((h.started_eq d).symm ▸ hready')]
    cases hp with
    | call hrequest hp =>
      rw [← hbefore.length_eq]
      exact .call hrequest fun answer => ih answer (hbefore.middle (.ready (hp answer)) hafter)
  | case6 slots hverdict before after seen' span rest hready _ ih =>
    intro slots' h
    obtain ⟨before', q, after', hready', hbefore, hp, hafter⟩ := h.firstReady_some hready
    rw [gather_ready ((h.verdict_eq d).trans hverdict) ((h.started_eq d).symm ▸ hready')]
    cases hp with
    | pause hp => exact ih (hbefore.middle (.asleep span hp) hafter)
  | case7 slots hverdict hready span hwaking ih =>
    intro slots' h
    rw [gather_asleep ((h.verdict_eq d).trans hverdict)
      ((h.started_eq d).symm ▸ h.firstReady_none hready) (h.nextWaking_eq.trans hwaking)]
    exact .pause (ih (h.advance span))
  | case8 slots hverdict hready hwaking =>
    intro slots' h
    rw [gather_idle ((h.verdict_eq d).trans hverdict)
      ((h.started_eq d).symm ▸ h.firstReady_none hready) (h.nextWaking_eq.trans hwaking)]
    exact .stuck

/-! ### Gathering for some turns -/

/-- `gather`, for no more than `n` turns. -/
def gatherWithin (n : Nat) (seen : σ) (attempt : Nat) (d : Discipline) (slots : List (Slot σ ε β)) :
    Process σ (Except ε (List β)) :=
  match n with
  | 0 => .stuck
  | n + 1 =>
    match d.verdict slots with
    | some result => .done result
    | none =>
      match firstReady (d.started slots) slots with
      | some (before, p, after) =>
        match p with
        | .done result => gatherWithin n seen attempt d (before ++ .ended result :: after)
        | .stuck => .stuck
        | .emit site event rest =>
          .emit (⟨attempt, before.length⟩ :: site) event fun _ =>
            gatherWithin n seen attempt d (before ++ .ready (rest ()) :: after)
        | .call site request rest =>
          .call (⟨attempt, before.length⟩ :: site) request fun answer =>
            gatherWithin n seen attempt d (before ++ .ready (rest answer) :: after)
        | .pause _ span rest =>
          gatherWithin n seen attempt d (before ++ .asleep span (rest ()) :: after)
      | none =>
        match nextWaking slots with
        | some span => .pause seen span fun _ => gatherWithin n seen attempt d (advanceAll span slots)
        | none => .stuck

theorem gatherWithin_sim (hS : S) (n : Nat) (seen : σ) (attempt : Nat) (d : Discipline)
    (slots : List (Slot σ ε β)) :
    (gatherWithin n seen attempt d slots).Sim S Eq (gather seen attempt d slots) := by
  induction n generalizing slots with
  | zero => exact .further hS _
  | succ n ih =>
    unfold gatherWithin
    split
    · rename_i hverdict
      rw [gather_verdict hverdict]
      exact .done _
    · rename_i hverdict
      split
      · rename_i before p after hready
        rw [gather_ready hverdict hready]
        cases p with
        | done result => exact ih _
        | stuck => exact .stuck
        | emit site event rest => exact .emit (ih _)
        | call site request rest => exact .call rfl fun answer => ih _
        | pause seen' span rest => exact ih _
      · rename_i hready
        split
        · rename_i hwaking
          rw [gather_asleep hverdict hready hwaking]
          exact .pause (ih _)
        · exact .further hS _

/-! ### Runs -/

/-- Timelines on which the same has happened, up to `Q` of the requests, with runners in related
states. -/
structure Timeline.Alike (Q : Request → Request → Prop) (R : ω → ω → Prop) (t t' : Timeline ω) :
    Prop where
  clock : t.clock = t'.clock
  world : R t.world t'.world
  events : t.events = t'.events
  calls : List.Forall₂ (fun l l' => l.time = l'.time ∧ l.site = l'.site ∧ Q l.what l'.what) t.calls
    t'.calls

/-- Runners that answer related requests alike. They may write down the requests themselves: `R` says
which of their states they answer alike from. -/
def Runners.Blind (Q : Request → Request → Prop) (R : ω → ω → Prop) (runners : Runners ω) : Prop :=
  ∀ w w' r r', R w w' → Q r r' →
    R (runners w r).1 (runners w' r').1 ∧ (runners w r).2 = (runners w' r').2

theorem Runners.blind_eq (runners : Runners ω) : runners.Blind Eq Eq := by
  rintro w _ r _ rfl rfl
  exact ⟨rfl, rfl⟩

namespace Timeline.Alike

variable {R : ω → ω → Prop} {t t' : Timeline ω}

theorem refl (t : Timeline ω) : t.Alike Eq Eq t :=
  ⟨rfl, rfl, rfl, List.forall₂_same.2 fun _ _ => ⟨rfl, rfl, rfl⟩⟩

theorem eq (h : t.Alike Eq Eq t') : t = t' := by
  obtain ⟨clock, world, events, calls⟩ := t
  obtain ⟨clock', world', events', calls'⟩ := t'
  obtain ⟨rfl, rfl, rfl, hcalls⟩ := h
  have hcalls : calls = calls' := by
    refine List.forall₂_eq_eq_eq ▸ hcalls.imp ?_
    rintro ⟨time, site, r⟩ ⟨time', site', r'⟩ ⟨rfl, rfl, rfl⟩
    rfl
  rw [hcalls]

theorem logEvent (h : t.Alike Q R t') (site : Site) (event : Event) :
    (t.logEvent site event).Alike Q R (t'.logEvent site event) :=
  ⟨h.clock, h.world, by simp only [Timeline.logEvent, h.events, h.clock], h.calls⟩

theorem logCall (h : t.Alike Q R t') (site : Site) {r r' : Request} (hr : Q r r') {w w' : ω}
    (hw : R w w') : (t.logCall site r w).Alike Q R (t'.logCall site r' w') :=
  ⟨h.clock, hw, h.events, List.rel_append h.calls (.cons ⟨h.clock, rfl, hr⟩ .nil)⟩

theorem atTime (h : t.Alike Q R t') (time : Duration) :
    { t with clock := time }.Alike Q R { t' with clock := time } :=
  ⟨rfl, h.world, h.events, h.calls⟩

end Timeline.Alike

/-- Similar processes run alike, unless the first is stuck where the second may go on. -/
theorem Process.Sim.run {p q : Process σ α} (h : p.Sim S Q q) {R : ω → ω → Prop}
    {runners : Runners ω} (hblind : runners.Blind Q R) {t t' : Timeline ω} (ht : t.Alike Q R t')
    (deadline : Option Duration) :
    (S ∧ (p.run runners deadline t).1 = .stuck) ∨
      ((p.run runners deadline t).1 = (q.run runners deadline t').1 ∧
        (p.run runners deadline t).2.Alike Q R (q.run runners deadline t').2) := by
  induction h generalizing t t' with
  | done a => exact .inr ⟨rfl, ht⟩
  | stuck => exact .inr ⟨rfl, ht⟩
  | further h q => exact .inl ⟨h, rfl⟩
  | emit _ ih => exact ih (ht.logEvent _ _)
  | @call site request request' rest rest' hrequest _ ih =>
    obtain ⟨hworld, hanswer⟩ := hblind _ _ _ _ ht.world hrequest
    simp only [Process.run, ← hanswer]
    exact ih _ (ht.logCall _ hrequest hworld)
  | pause _ ih =>
    simp only [Process.run, ht.clock]
    split
    · exact .inr ⟨rfl, ht.atTime _⟩
    · exact ih (ht.atTime _)

/-- What a run comes to, a process that goes further comes to. -/
theorem Process.Sim.run_eq {p q : Process σ α} (h : p.Sim S Eq q) {runners : Runners ω}
    {deadline : Option Duration} {t : Timeline ω} (hend : (p.run runners deadline t).1 ≠ .stuck) :
    q.run runners deadline t = p.run runners deadline t := by
  rcases h.run runners.blind_eq (.refl t) deadline with ⟨-, hstuck⟩ | ⟨hending, htimeline⟩
  · exact (hend hstuck).elim
  · exact Prod.ext hending.symm htimeline.eq.symm

end StepFlow
