import StepFlow.Process.Gather
import StepFlow.Proofs.Process.Contract

/-!
# Gathered processes

`gather` unfolded turn by turn, and its contracts: processes that are gathered tell and ask what each
of them tells and asks, marked with its place among them; what they show while they sleep is not seen.
-/

namespace StepFlow

variable {σ ε β : Type}

/-! ### One turn -/

section
variable {seen : σ} {attempt : Nat} {d : Discipline} {slots before after : List (Slot σ ε β)}

theorem gather_verdict {result : Except ε (List β)} (h : d.verdict slots = some result) :
    gather seen attempt d slots = .done result := by
  rw [gather, h]

theorem gather_ready {p : Process σ (Except ε β)} (hverdict : d.verdict slots = none)
    (hready : firstReady (d.started slots) slots = some (before, p, after)) :
    gather seen attempt d slots =
      match p with
      | .done result => gather seen attempt d (before ++ .ended result :: after)
      | .stuck => .stuck
      | .emit site event rest =>
        .emit (⟨attempt, before.length⟩ :: site) event fun _ =>
          gather seen attempt d (before ++ .ready (rest ()) :: after)
      | .call site request rest =>
        .call (⟨attempt, before.length⟩ :: site) request fun answer =>
          gather seen attempt d (before ++ .ready (rest answer) :: after)
      | .pause _ span rest => gather seen attempt d (before ++ .asleep span (rest ()) :: after) := by
  rw [gather, hverdict]
  dsimp only
  split
  · rename_i before' p' after' h
    rw [hready] at h
    cases h
    rfl
  · rename_i h
    rw [hready] at h
    cases h

theorem gather_asleep {span : Nat} (hverdict : d.verdict slots = none)
    (hready : firstReady (d.started slots) slots = none) (hwaking : nextWaking slots = some span) :
    gather seen attempt d slots =
      .pause seen span fun _ => gather seen attempt d (advanceAll span slots) := by
  rw [gather, hverdict]
  dsimp only
  split
  · rename_i h
    rw [hready] at h
    cases h
  · split
    · rename_i h
      rw [hwaking] at h
      cases h
      rfl
    · rename_i h
      rw [hwaking] at h
      cases h

theorem gather_idle (hverdict : d.verdict slots = none)
    (hready : firstReady (d.started slots) slots = none) (hwaking : nextWaking slots = none) :
    gather seen attempt d slots = .stuck := by
  rw [gather, hverdict]
  dsimp only
  split
  · rename_i h
    rw [hready] at h
    cases h
  · split
    · rename_i h
      rw [hwaking] at h
      cases h
    · rfl

end

/-! ### Never stuck -/

theorem process?_of_idle {n : Nat} {slots : List (Slot σ ε β)} (hready : firstReady n slots = none)
    (hwaking : nextWaking slots = none) : ∀ s ∈ slots.take n, s.process? = none := by
  induction slots generalizing n with
  | nil => simp
  | cons s rest ih =>
    cases n with
    | zero => simp
    | succ n =>
      cases s with
      | ready p => simp [firstReady] at hready
      | asleep left p =>
        simp only [nextWaking] at hwaking
        split at hwaking <;> cases hwaking
      | ended result =>
        have hrest : firstReady n rest = none := by simpa [firstReady] using hready
        rw [List.take_succ_cons, List.forall_mem_cons]
        exact ⟨rfl, ih hrest hwaking⟩

theorem taken_of_ended {slots : List (Slot σ ε β)}
    (h : ∀ s ∈ slots.take ((taken slots).length + 1), s.process? = none)
    (hfailure : nextFailure? slots = none) : (taken slots).length = slots.length := by
  induction slots with
  | nil => rfl
  | cons s rest ih =>
    rw [List.take_succ_cons, List.forall_mem_cons] at h
    cases s with
    | ready | asleep => cases h.1
    | ended result =>
      cases result with
      | error e => cases hfailure
      | ok b => exact congrArg (· + 1) (ih h.2 hfailure)

theorem nextFailure?_of_failure? {slots : List (Slot σ ε β)} (h : failure? slots = none) :
    nextFailure? slots = none := by
  fun_induction nextFailure? slots with
  | case1 b rest ih => exact ih h
  | case2 => exact h
  | case3 => rfl

/-- The result is a failure that counts under the discipline, or all that is taken. -/
theorem verdict_cases {d : Discipline} {slots : List (Slot σ ε β)} {r : Except ε (List β)}
    (h : d.verdict slots = some r) :
    (d = .firstFailure ∧ ∃ e, failure? slots = some e ∧ r = .error e) ∨
      ((∃ limit, d = .inOrder limit) ∧ ∃ e, nextFailure? slots = some e ∧ r = .error e) ∨
      (taken slots).length = slots.length ∧ r = .ok (taken slots) := by
  unfold Discipline.verdict at h
  dsimp only at h
  split at h
  · rename_i e hfailure
    cases h
    cases d with
    | firstFailure => exact .inl ⟨rfl, e, hfailure, rfl⟩
    | inOrder limit => exact .inr (.inl ⟨⟨limit, rfl⟩, e, hfailure, rfl⟩)
  · split at h
    · rename_i htaken
      cases h
      exact .inr (.inr ⟨htaken, rfl⟩)
    · cases h

theorem of_verdict_eq_none {d : Discipline} {slots : List (Slot σ ε β)} (h : d.verdict slots = none) :
    nextFailure? slots = none ∧ (taken slots).length ≠ slots.length := by
  unfold Discipline.verdict at h
  dsimp only at h
  split at h
  · cases h
  · rename_i hfailure
    have hnext : nextFailure? slots = none := by
      cases d with
      | firstFailure => exact nextFailure?_of_failure? hfailure
      | inOrder limit => exact hfailure
    refine ⟨hnext, fun htaken => ?_⟩
    rw [if_pos htaken] at h
    cases h

/-- Where no process can go on and none will wake, the result is certain. -/
theorem verdict_of_idle {d : Discipline} {slots : List (Slot σ ε β)}
    (hd : ∀ limit, d = .inOrder limit → 0 < limit) (hready : firstReady (d.started slots) slots = none)
    (hwaking : nextWaking slots = none) : d.verdict slots ≠ none := by
  intro hverdict
  obtain ⟨hfailure, hlength⟩ := of_verdict_eq_none hverdict
  refine hlength (taken_of_ended (fun s hs => process?_of_idle hready hwaking s ?_) hfailure)
  cases d with
  | firstFailure =>
    rw [Discipline.started, List.take_length]
    exact List.mem_of_mem_take hs
  | inOrder limit =>
    have hlimit := hd limit rfl
    have hle : (taken slots).length + 1 ≤ (taken slots).length + limit := by omega
    exact List.take_subset_take_left slots hle hs

/-! ### Contracts -/

/-- The contract of the process number `index` among those gathered in an attempt. -/
def Contract.inside {α γ : Type} (c : Contract σ α) (attempt index : Nat) : Contract σ γ where
  tells site event := c.tells (⟨attempt, index⟩ :: site) event
  asks site request := c.asks (⟨attempt, index⟩ :: site) request

/-- Every slot satisfies `P` at its place. -/
def EverySlot (P : Nat → Slot σ ε β → Prop) (slots : List (Slot σ ε β)) : Prop :=
  ∀ i s, slots[i]? = some s → P i s

namespace EverySlot

variable {P : Nat → Slot σ ε β → Prop} {slots before after : List (Slot σ ε β)} {s s' : Slot σ ε β}

theorem middle (h : EverySlot P (before ++ s :: after)) : P before.length s :=
  h before.length s (by simp)

/-- One slot is replaced. -/
theorem replace (h : EverySlot P (before ++ s :: after)) (hs : P before.length s') :
    EverySlot P (before ++ s' :: after) := by
  intro i u hu
  rcases Nat.lt_trichotomy i before.length with hi | rfl | hi
  · refine h i u ?_
    rw [List.getElem?_append_left hi] at hu ⊢
    exact hu
  · have : s' = u := by simpa using hu
    exact this ▸ hs
  · refine h i u ?_
    obtain ⟨j, rfl⟩ := Nat.exists_eq_add_of_lt hi
    rw [List.getElem?_append_right (by omega)] at hu ⊢
    have hj : before.length + j + 1 - before.length = j + 1 := by omega
    rw [hj] at hu ⊢
    exact hu

theorem advance (h : EverySlot P slots) {span : Nat} (hP : ∀ i s, P i s → P i (s.advance span)) :
    EverySlot P (advanceAll span slots) := by
  intro i u hu
  rw [advanceAll, List.getElem?_map] at hu
  obtain ⟨s, hs, rfl⟩ := Option.map_eq_some_iff.1 hu
  exact hP i s (h i s hs)

end EverySlot

namespace Process

/-- What is left of the slot's process keeps the contract. -/
def SlotKeeps (c : Contract σ (Except ε β)) (s : Slot σ ε β) : Prop :=
  ∀ p, s.process? = some p → p.Keeps c

theorem SlotKeeps.advance {c : Contract σ (Except ε β)} {s : Slot σ ε β} (h : SlotKeeps c s)
    (span : Nat) : SlotKeeps c (s.advance span) := by
  intro p hp
  rw [process?_advance] at hp
  exact h p hp

theorem Keeps.gather {c : Contract σ (Except ε (List β))} {seen : σ} {attempt : Nat} {d : Discipline}
    {slots : List (Slot σ ε β)} (hseen : c.shows seen) (hends : ∀ result, c.ends result)
    (h : EverySlot (fun i => SlotKeeps (c.inside attempt i)) slots) :
    (StepFlow.gather seen attempt d slots).Keeps c := by
  fun_induction StepFlow.gather seen attempt d slots with
  | case1 slots result hverdict => exact hends result
  | case2 slots hverdict before after result hready _ ih =>
    rw [firstReady_eq hready] at h
    exact ih (h.replace (by intro p hp; cases hp))
  | case3 => trivial
  | case4 slots hverdict before after inside site event rest hready _ ih =>
    rw [firstReady_eq hready] at h
    obtain ⟨htells, hrest⟩ := h.middle _ rfl
    exact ⟨htells, ih (h.replace (by intro p hp; cases hp; exact hrest))⟩
  | case5 slots hverdict before after inside site request rest hready _ ih =>
    rw [firstReady_eq hready] at h
    obtain ⟨hasks, hrest⟩ := h.middle _ rfl
    exact ⟨hasks, fun answer => ih answer (h.replace (by intro p hp; cases hp; exact hrest answer))⟩
  | case6 slots hverdict before after seen' span rest hready _ ih =>
    rw [firstReady_eq hready] at h
    obtain ⟨-, hrest⟩ := h.middle _ rfl
    exact ih (h.replace (by intro p hp; cases hp; exact hrest))
  | case7 slots hverdict hready span hwaking ih =>
    exact ⟨hseen, ih (h.advance fun i s hs => hs.advance span)⟩
  | case8 => trivial

end Process

end StepFlow
