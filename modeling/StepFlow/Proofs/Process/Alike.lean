import StepFlow.Proofs.Process.Lasts
import StepFlow.Proofs.Process.Sim

/-!
# Processes that go alike

`p.Alike R q`: as long as they are answered alike, `p` and `q` ask and sleep at the same times, and what
they come to is related by `R`. What they tell, what they ask for and where they do it are left open, and
so is what happens once one of them is stuck. Of equal answers comes then what `R` relates, in equal time
(`Alike.lasts`).

Gathering keeps processes alike, whatever the numbers of the attempts: which of them goes on depends on
nothing but how long they sleep and what they have come to (`Slot.bare`).
-/

namespace StepFlow

variable {σ α β ε : Type}

namespace Process

inductive Alike (R : α → α → Prop) : Process σ α → Process σ α → Prop where
  | done {a b : α} (h : R a b) : Alike R (.done a) (.done b)
  | stuckLeft (q : Process σ α) : Alike R .stuck q
  | stuckRight (p : Process σ α) : Alike R p .stuck
  | emit {site site' : Site} {event event' : Event} {rest rest' : Unit → Process σ α}
      (h : Alike R (rest ()) (rest' ())) : Alike R (.emit site event rest) (.emit site' event' rest')
  | call {site site' : Site} {request request' : Request} {rest rest' : Answer → Process σ α}
      (h : ∀ answer, Alike R (rest answer) (rest' answer)) :
      Alike R (.call site request rest) (.call site' request' rest')
  | pause {seen seen' : σ} {span : Duration} {rest rest' : Unit → Process σ α}
      (h : Alike R (rest ()) (rest' ())) : Alike R (.pause seen span rest) (.pause seen' span rest')

namespace Alike

variable {R : α → α → Prop} {S : β → β → Prop} {p q : Process σ α} {f g : α → Process σ β}

theorem bind (h : p.Alike R q) (hf : ∀ a b, R a b → (f a).Alike S (g b)) :
    (Process.bind f p).Alike S (Process.bind g q) := by
  induction h with
  | done h => exact hf _ _ h
  | stuckLeft q => exact .stuckLeft _
  | stuckRight p => exact .stuckRight _
  | emit _ ih => exact .emit ih
  | call _ ih => exact .call ih
  | pause _ ih => exact .pause ih

theorem tell {event event' : Event} {rest rest' : Unit → Process σ β} (h : (rest ()).Alike S (rest' ())) :
    (Process.bind rest (Process.tell event)).Alike S (Process.bind rest' (Process.tell event')) :=
  .emit h

theorem sleep {seen seen' : σ} {span : Duration} {rest rest' : Unit → Process σ β}
    (h : (rest ()).Alike S (rest' ())) :
    (Process.bind rest (Process.sleep seen span)).Alike S (Process.bind rest' (Process.sleep seen' span)) := by
  unfold Process.sleep
  split
  · exact h
  · exact .pause h

theorem ask {seen seen' : σ} {request request' : Request} {rest rest' : Except RunnerError Report → Process σ β}
    (h : ∀ result, (rest result).Alike S (rest' result)) :
    (Process.bind rest (Process.ask seen request)).Alike S (Process.bind rest' (Process.ask seen' request')) := by
  refine .call fun answer => ?_
  dsimp only
  rw [bind_assoc, bind_assoc]
  exact .sleep (h _)

/-- What each of two processes keeps by itself holds of what they come to. -/
theorem keeps {c d : Contract σ α} (h : p.Alike R q) (hp : p.Keeps c) (hq : q.Keeps d) :
    p.Alike (fun a b => R a b ∧ c.ends a ∧ d.ends b) q := by
  induction h with
  | done h => exact .done ⟨h, hp, hq⟩
  | stuckLeft q => exact .stuckLeft _
  | stuckRight p => exact .stuckRight _
  | emit _ ih => exact .emit (ih hp.2 hq.2)
  | call _ ih => exact .call fun answer => ih answer (hp.2 answer) (hq.2 answer)
  | pause _ ih => exact .pause (ih hp.2 hq.2)

/-- Of equal answers come related values, in equal time. -/
theorem lasts {log log' : List Exchange} {d d' : Duration} {a b : α} (h : p.Alike R q)
    (hp : p.Lasts log d (some a)) (hq : q.Lasts log' d' (some b))
    (hanswers : log.map (·.answer) = log'.map (·.answer)) : d = d' ∧ R a b := by
  induction h generalizing log log' d d' with
  | done h =>
    obtain ⟨-, rfl, ha⟩ := lasts_done.1 hp
    obtain ⟨-, rfl, hb⟩ := lasts_done.1 hq
    cases ha
    cases hb
    exact ⟨rfl, h⟩
  | stuckLeft q => cases hp
  | stuckRight p => cases hq
  | emit _ ih => exact ih (lasts_emit.1 hp) (lasts_emit.1 hq) hanswers
  | call _ ih =>
    cases hp with
    | call answer hp =>
      cases hq with
      | call answer' hq =>
        obtain ⟨rfl, hrest⟩ := List.cons.inj hanswers
        exact ih answer hp hq hrest
  | pause _ ih =>
    obtain ⟨d₁, rfl, hp'⟩ := lasts_pause.1 hp
    obtain ⟨d₂, rfl, hq'⟩ := lasts_pause.1 hq
    obtain ⟨rfl, hR⟩ := ih hp' hq' hanswers
    exact ⟨rfl, hR⟩

end Alike
end Process

/-! ### Among others -/

open Process

inductive Slot.Alike : Slot σ ε β → Slot σ ε β → Prop where
  | ready {p q : Process σ (Except ε β)} (h : p.Alike Eq q) : Alike (.ready p) (.ready q)
  | asleep (left : Nat) {p q : Process σ (Except ε β)} (h : p.Alike Eq q) :
      Alike (.asleep left p) (.asleep left q)
  | ended (result : Except ε β) : Alike (.ended result) (.ended result)

/-- The slot without its process. -/
def Slot.bare : Slot σ ε β → Slot σ ε β
  | ready _ => ready .stuck
  | asleep left _ => asleep left .stuck
  | ended result => ended result

theorem Slots.sim_bare (slots : List (Slot σ ε β)) : Slots.Sim True Eq (slots.map Slot.bare) slots := by
  refine List.forall₂_map_left_iff.2 (List.forall₂_same.2 fun s _ => ?_)
  cases s with
  | ready p => exact .ready (.further trivial p)
  | asleep left p => exact .asleep left (.further trivial p)
  | ended result => exact .ended result

/-- Slots that go alike one by one. -/
abbrev Slots.Alike : List (Slot σ ε β) → List (Slot σ ε β) → Prop := List.Forall₂ Slot.Alike

namespace Slots.Alike

variable {slots slots' : List (Slot σ ε β)} (h : Slots.Alike slots slots')
include h

theorem map_bare_eq : slots.map Slot.bare = slots'.map Slot.bare := by
  induction h with
  | nil => rfl
  | cons hs _ ih =>
    rw [List.map_cons, List.map_cons, ih]
    cases hs <;> rfl

theorem verdict_eq (d : Discipline) : d.verdict slots' = d.verdict slots := by
  rw [(sim_bare slots').verdict_eq, (sim_bare slots).verdict_eq, map_bare_eq h]

theorem started_eq (d : Discipline) : d.started slots' = d.started slots := by
  rw [(sim_bare slots').started_eq, (sim_bare slots).started_eq, map_bare_eq h]

theorem nextWaking_eq : nextWaking slots' = nextWaking slots := by
  rw [(sim_bare slots').nextWaking_eq, (sim_bare slots).nextWaking_eq, map_bare_eq h]

theorem firstReady_none {n : Nat} (hready : firstReady n slots = none) : firstReady n slots' = none := by
  cases hbare : firstReady n (slots.map Slot.bare) with
  | none =>
    rw [map_bare_eq h] at hbare
    exact (sim_bare slots').firstReady_none hbare
  | some found =>
    obtain ⟨_, _, _, hsome, -⟩ := (sim_bare slots).firstReady_some hbare
    exact absurd (hready.symm.trans hsome) nofun

theorem advance (span : Nat) : Slots.Alike (advanceAll span slots) (advanceAll span slots') := by
  refine List.forall₂_map_left_iff.2 (List.forall₂_map_right_iff.2 (h.imp fun s s' hs => ?_))
  cases hs with
  | ready h => exact .ready h
  | ended result => exact .ended result
  | asleep left h =>
    simp only [Slot.advance]
    split
    · exact .ready h
    · exact .asleep _ h

/-- Whatever slot is next among the one, the slot at its place is next among the others. -/
theorem firstReady_some {n : Nat} {before after : List (Slot σ ε β)} {p : Process σ (Except ε β)}
    (hready : firstReady n slots = some (before, p, after)) :
    ∃ before' q after', firstReady n slots' = some (before', q, after') ∧
      Slots.Alike before before' ∧ p.Alike Eq q ∧ Slots.Alike after after' := by
  cases hbare : firstReady n (slots.map Slot.bare) with
  | none => exact absurd (((sim_bare slots).firstReady_none hbare).symm.trans hready) nofun
  | some found =>
    obtain ⟨bare, r, rest⟩ := found
    obtain ⟨_, _, _, hsame, hbefore, -, -⟩ := (sim_bare slots).firstReady_some hbare
    cases hready.symm.trans hsame
    rw [map_bare_eq h] at hbare
    obtain ⟨before', q, after', hready', hbefore', -, -⟩ := (sim_bare slots').firstReady_some hbare
    have hlength : before.length = before'.length := hbefore.length_eq.symm.trans hbefore'.length_eq
    rw [firstReady_eq hready, firstReady_eq hready'] at h
    have hfront : Slots.Alike before before' := by
      simpa [hlength] using List.forall₂_take before'.length h
    have hback : Slots.Alike (.ready p :: after) (.ready q :: after') := by
      simpa [hlength] using List.forall₂_drop before'.length h
    obtain ⟨⟨hp⟩, hafter⟩ := List.forall₂_cons.1 hback
    exact ⟨before', q, after', hready', hfront, hp, hafter⟩

end Slots.Alike

theorem Slots.Alike.middle {before before' after after' : List (Slot σ ε β)} {s s' : Slot σ ε β}
    (hbefore : Slots.Alike before before') (hs : Slot.Alike s s') (hafter : Slots.Alike after after') :
    Slots.Alike (before ++ s :: after) (before' ++ s' :: after') :=
  List.rel_append hbefore (.cons hs hafter)

theorem Process.Alike.gather {seen seen' : σ} {attempt attempt' : Nat} {d : Discipline}
    {slots slots' : List (Slot σ ε β)} (h : Slots.Alike slots slots') :
    (StepFlow.gather seen attempt d slots).Alike Eq (StepFlow.gather seen' attempt' d slots') := by
  revert slots'
  fun_induction StepFlow.gather seen attempt d slots with
  | case1 slots result hverdict =>
    intro slots' h
    rw [gather_verdict ((h.verdict_eq d).trans hverdict)]
    exact .done rfl
  | case2 slots hverdict before after result hready _ ih =>
    intro slots' h
    obtain ⟨before', q, after', hready', hbefore, hp, hafter⟩ := h.firstReady_some hready
    rw [gather_ready ((h.verdict_eq d).trans hverdict) ((h.started_eq d).symm ▸ hready')]
    cases hp with
    | done hresult =>
      cases hresult
      exact ih (hbefore.middle (.ended result) hafter)
    | stuckRight => exact .stuckRight _
  | case3 => exact fun _ => .stuckLeft _
  | case4 slots hverdict before after inside site event rest hready _ =>
    rename_i ih
    intro slots' h
    obtain ⟨before', q, after', hready', hbefore, hp, hafter⟩ := h.firstReady_some hready
    rw [gather_ready ((h.verdict_eq d).trans hverdict) ((h.started_eq d).symm ▸ hready')]
    cases hp with
    | emit hp => exact .emit (ih (hbefore.middle (.ready hp) hafter))
    | stuckRight => exact .stuckRight _
  | case5 slots hverdict before after inside site request rest hready _ =>
    rename_i ih
    intro slots' h
    obtain ⟨before', q, after', hready', hbefore, hp, hafter⟩ := h.firstReady_some hready
    rw [gather_ready ((h.verdict_eq d).trans hverdict) ((h.started_eq d).symm ▸ hready')]
    cases hp with
    | call hp => exact .call fun answer => ih answer (hbefore.middle (.ready (hp answer)) hafter)
    | stuckRight => exact .stuckRight _
  | case6 slots hverdict before after seen'' span rest hready _ ih =>
    intro slots' h
    obtain ⟨before', q, after', hready', hbefore, hp, hafter⟩ := h.firstReady_some hready
    rw [gather_ready ((h.verdict_eq d).trans hverdict) ((h.started_eq d).symm ▸ hready')]
    cases hp with
    | pause hp => exact ih (hbefore.middle (.asleep span hp) hafter)
    | stuckRight => exact .stuckRight _
  | case7 slots hverdict hready span hwaking ih =>
    intro slots' h
    rw [gather_asleep ((h.verdict_eq d).trans hverdict)
      ((h.started_eq d).symm ▸ h.firstReady_none hready) (h.nextWaking_eq.trans hwaking)]
    exact .pause (ih (h.advance span))
  | case8 => exact fun _ => .stuckLeft _

end StepFlow
