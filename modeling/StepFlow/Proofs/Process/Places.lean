import Mathlib.Algebra.BigOperators.Intervals
import Mathlib.Order.Interval.Finset.Nat
import Mathlib.Order.Lattice.Nat
import Mathlib.Order.PartialSups
import StepFlow.Proofs.Process.Timed

/-!
# A limited number of places

When processes are gathered in order on `m` places, the process number `j` is started as soon as the
result of the process `j - m` is taken, and its own result is taken when it has ended and the result
before it has been taken (`startAt`, `takenAt`; `schedule_of_gather`). A process that has ended keeps its
place until its result is taken, so that a slow process holds up the places of quicker ones after it.
-/

namespace StepFlow

/-! ### The times -/

/-- When the result of the process number `j` is taken, if the process `i` takes `d i`. -/
def takenAt (m : Nat) (d : Nat → Duration) (j : Nat) : Duration :=
  max (if j = 0 then 0 else takenAt m d (j - 1)) ((if 0 < m ∧ m ≤ j then takenAt m d (j - m) else 0) + d j)

/-- When the process number `j` is started. -/
def startAt (m : Nat) (d : Nat → Duration) (j : Nat) : Duration :=
  if j < m then 0 else takenAt m d (j - m)

section
variable {m : Nat} {d : Nat → Duration} {i j n : Nat}

theorem startAt_of_lt (h : j < m) : startAt m d j = 0 := if_pos h

theorem startAt_of_le (h : m ≤ j) : startAt m d j = takenAt m d (j - m) := if_neg (Nat.not_lt.2 h)

theorem place_eq (hm : 0 < m) :
    (if 0 < m ∧ m ≤ j then takenAt m d (j - m) else 0) = startAt m d j := by
  unfold startAt
  by_cases h : j < m
  · rw [if_pos h, if_neg fun hle => absurd hle.2 (Nat.not_le.2 h)]
  · rw [if_neg h, if_pos ⟨hm, Nat.not_lt.1 h⟩]

theorem takenAt_zero (hm : 0 < m) : takenAt m d 0 = startAt m d 0 + d 0 := by
  rw [takenAt, place_eq hm, if_pos rfl, Nat.zero_max]

theorem takenAt_succ (hm : 0 < m) :
    takenAt m d (j + 1) = max (takenAt m d j) (startAt m d (j + 1) + d (j + 1)) := by
  rw [takenAt, place_eq hm, if_neg j.succ_ne_zero, Nat.add_sub_cancel]

theorem end_le_takenAt (hm : 0 < m) : startAt m d j + d j ≤ takenAt m d j := by
  cases j with
  | zero => exact (takenAt_zero hm).ge
  | succ j => exact (Nat.le_max_right ..).trans (takenAt_succ hm).ge

theorem takenAt_mono (hm : 0 < m) (h : i ≤ j) : takenAt m d i ≤ takenAt m d j := by
  induction h with
  | refl => exact Nat.le_refl _
  | step _ ih => exact ih.trans ((Nat.le_max_left ..).trans (takenAt_succ hm).ge)

theorem startAt_mono (hm : 0 < m) (h : i ≤ j) : startAt m d i ≤ startAt m d j := by
  by_cases hi : i < m
  · rw [startAt_of_lt hi]; exact Nat.zero_le _
  · have hi := Nat.not_lt.1 hi
    rw [startAt_of_le hi, startAt_of_le (hi.trans h)]
    exact takenAt_mono hm (Nat.sub_le_sub_right h m)

/-- At any time at most `m` processes hold a place. -/
theorem card_held_le (hm : 0 < m) (t : Duration) :
    ((Finset.range n).filter fun j => startAt m d j ≤ t ∧ t < takenAt m d j).card ≤ m := by
  set held := (Finset.range n).filter fun j => startAt m d j ≤ t ∧ t < takenAt m d j with hheld
  rcases held.eq_empty_or_nonempty with hempty | hsome
  · rw [hempty]; exact Nat.zero_le m
  -- the result of a process that is `m` or more before the last of them has been taken
  set last := held.max' hsome
  have hlast := (Finset.mem_filter.1 (held.max'_mem hsome)).2
  have hsub : held ⊆ Finset.Icc (last + 1 - m) last := by
    intro j hj
    have hj' := (Finset.mem_filter.1 hj).2
    refine Finset.mem_Icc.2 ⟨?_, held.le_max' j hj⟩
    by_contra hbefore
    have hle : m ≤ last := by omega
    have htaken : takenAt m d j ≤ takenAt m d (last - m) := takenAt_mono hm (by omega)
    have hstart := hlast.1
    rw [startAt_of_le hle] at hstart
    exact absurd (htaken.trans hstart) (Nat.not_le.2 hj'.2)
  calc held.card ≤ (Finset.Icc (last + 1 - m) last).card := Finset.card_le_card hsub
    _ ≤ m := by rw [Nat.card_Icc]; omega

/-- On a single place one process follows the other. -/
theorem takenAt_one (d : Nat → Duration) (j : Nat) :
    takenAt 1 d j = ∑ i ∈ Finset.range (j + 1), d i := by
  induction j with
  | zero => rw [takenAt_zero one_pos, startAt_of_lt one_pos, Nat.zero_add, Finset.sum_range_one]
  | succ j ih =>
    rw [takenAt_succ one_pos, startAt_of_le (Nat.le_add_left ..), Nat.add_sub_cancel,
      Finset.sum_range_succ, ← ih]
    exact Nat.max_eq_right (Nat.le_add_right ..)

theorem end_le_startAt_one (h : i < j) : startAt 1 d i + d i ≤ startAt 1 d j := by
  have hj : 1 ≤ j := (Nat.zero_lt_of_lt h)
  rw [startAt_of_le hj]
  exact (end_le_takenAt one_pos).trans (takenAt_mono one_pos (Nat.le_sub_one_of_lt h))

/-- With a place for each of them all are started at once. -/
theorem takenAt_of_lt (hm : 0 < m) (h : j < m) : takenAt m d j = (Finset.range (j + 1)).sup d := by
  induction j with
  | zero => rw [takenAt_zero hm, startAt_of_lt h, Nat.zero_add]; simp
  | succ j ih =>
    rw [takenAt_succ hm, startAt_of_lt h, Nat.zero_add, ih (Nat.lt_of_succ_lt h), Finset.range_add_one (n := j + 1),
      Finset.sup_insert, sup_comm]

/-- The times are those of any ends that are reached in this way. -/
theorem partialSups_eq_takenAt (hm : 0 < m) {now : Duration} {f : Nat → Duration}
    (h : ∀ j < n, f j = (if j < m then now else partialSups f (j - m)) + d j) :
    ∀ j < n, (if j < m then now else partialSups f (j - m)) = now + startAt m d j ∧
      partialSups f j = now + takenAt m d j := by
  intro j
  induction j using Nat.strong_induction_on with
  | _ j ih =>
    intro hj
    have hstart : (if j < m then now else partialSups f (j - m)) = now + startAt m d j := by
      by_cases hjm : j < m
      · rw [if_pos hjm, startAt_of_lt hjm, Nat.add_zero]
      · rw [if_neg hjm, startAt_of_le (Nat.not_lt.1 hjm)]
        exact (ih (j - m) (by omega) (by omega)).2
    refine ⟨hstart, ?_⟩
    have hend : f j = now + (startAt m d j + d j) := by rw [h j hj, hstart, Nat.add_assoc]
    cases j with
    | zero => rw [partialSups_zero, hend, takenAt_zero hm]
    | succ j =>
      have hbefore := (ih j j.lt_succ_self (by omega)).2
      have hsucc : partialSups f (j + 1) = partialSups f j ⊔ f (j + 1) := partialSups_succ f j
      rw [hsucc, hbefore, hend, takenAt_succ hm]
      exact (Nat.add_max_add_left ..)

end

/-! ### Slots and places -/

variable {σ ε β : Type}

section
variable {slots before after : List (Slot σ ε β)} {p : Process σ (Except ε β)} {s s' : Slot σ ε β}
  {n span : Nat}

theorem ended_of_lt_taken {i : Nat} (h : i < (taken slots).length) :
    ∃ v, slots[i]? = some (.ended (.ok v)) ∧ (taken slots)[i]? = some v := by
  fun_induction taken slots generalizing i with
  | case1 v rest ih =>
    cases i with
    | zero => exact ⟨v, rfl, rfl⟩
    | succ i => exact ih (Nat.lt_of_succ_lt_succ h)
  | case2 => cases h

/-- As long as the whole has no result, the process whose result comes next is under way. -/
theorem underWay_at_taken (h : nextFailure? slots = none) (hlength : (taken slots).length ≠ slots.length) :
    ∃ s, slots[(taken slots).length]? = some s ∧ s.process?.isSome := by
  fun_induction taken slots with
  | case1 v rest ih => exact ih h fun heq => hlength (congrArg (· + 1) heq)
  | case2 slots hnot =>
    cases slots with
    | nil => exact absurd rfl hlength
    | cons s rest =>
      cases s with
      | ready p => exact ⟨_, rfl, rfl⟩
      | asleep left p => exact ⟨_, rfl, rfl⟩
      | ended result =>
        cases result with
        | ok v => exact (hnot v rest rfl).elim
        | error e => cases h

theorem getElem?_replace {i : Nat} (hi : i ≠ before.length) :
    (before ++ s :: after)[i]? = (before ++ s' :: after)[i]? := by
  rcases Nat.lt_or_ge i before.length with hlt | hge
  · rw [List.getElem?_append_left hlt, List.getElem?_append_left hlt]
  · obtain ⟨j, hj⟩ : ∃ j, i - before.length = j + 1 := ⟨i - before.length - 1, by omega⟩
    rw [List.getElem?_append_right hge, List.getElem?_append_right hge, hj]
    rfl

theorem length_taken_le (slots : List (Slot σ ε β)) : (taken slots).length ≤ slots.length := by
  fun_induction taken slots with
  | case1 v rest ih => exact Nat.succ_le_succ ih
  | case2 => exact Nat.zero_le _

theorem taken_replace_le :
    (taken (before ++ .ready p :: after)).length ≤ (taken (before ++ s :: after)).length := by
  induction before with
  | nil => exact Nat.zero_le _
  | cons u before ih =>
    cases u with
    | ended result =>
      cases result with
      | ok v => exact Nat.succ_le_succ ih
      | error e => exact Nat.zero_le _
    | ready | asleep => exact Nat.zero_le _

theorem taken_replace_eq (hs : s.process?.isSome) :
    taken (before ++ .ready p :: after) = taken (before ++ s :: after) := by
  induction before with
  | nil =>
    cases s with
    | ready | asleep => rfl
    | ended => nomatch hs
  | cons u before ih =>
    cases u with
    | ended result =>
      cases result with
      | ok v => exact congrArg (v :: ·) ih
      | error e => rfl
    | ready | asleep => rfl

theorem taken_advance (span : Nat) (slots : List (Slot σ ε β)) :
    taken (advanceAll span slots) = taken slots := by
  induction slots with
  | nil => rfl
  | cons s rest ih =>
    cases s with
    | ready p => rfl
    | asleep left p =>
      simp only [advanceAll, List.map_cons, Slot.advance]
      split <;> rfl
    | ended result =>
      cases result with
      | ok v => exact congrArg (v :: ·) ih
      | error e => rfl

theorem firstReady_lt (h : firstReady n slots = some (before, p, after)) : before.length < n := by
  fun_induction firstReady n slots generalizing before with
  | case1 | case2 => cases h
  | case3 n =>
    cases h
    exact Nat.pos_of_ne_zero ‹_›
  | case4 n s rest _ ih =>
    obtain ⟨⟨b, q, a⟩, hq, he⟩ := Option.map_eq_some_iff.1 h
    cases he
    exact Nat.succ_lt_succ (ih hq)

theorem not_ready_of_firstReady (h : firstReady n slots = none) {i : Nat} (hi : i < n)
    (hs : slots[i]? = some s) : ∀ p, s ≠ .ready p := by
  fun_induction firstReady n slots generalizing i with
  | case1 => exact absurd hi (Nat.not_lt_zero _)
  | case2 => cases hs
  | case3 => cases h
  | case4 n u rest hu ih =>
    cases i with
    | zero =>
      cases hs
      exact fun p hp => hu p hp
    | succ i => exact ih (Option.map_eq_none_iff.1 h) (Nat.lt_of_succ_lt_succ hi) hs

end

open Process

/-- What is left of the slot's process, which is the one at `b`, goes on at `start`, does `trace` and ends
at `stop` with `v`; of one that has ended nothing is left. -/
inductive Slot.Ends (b : Branch) (trace : Trace) (start stop : Duration) (v : β) : Slot σ ε β → Prop where
  | ready {p : Process σ (Except ε β)} (h : (p.inside b).Runs start trace stop (some (.ok v))) :
      Ends b trace start stop v (.ready p)
  | asleep {left : Nat} {p : Process σ (Except ε β)}
      (h : (p.inside b).Runs (start + left) trace stop (some (.ok v))) :
      Ends b trace start stop v (.asleep left p)
  | ended (h : trace = []) : Ends b trace start stop v (.ended (.ok v))

theorem Slot.Ends.le {b : Branch} {trace : Trace} {start stop : Duration} {v : β} {s : Slot σ ε β}
    (h : s.Ends b trace start stop v) (hs : s.process?.isSome) : start ≤ stop := by
  cases h with
  | ready h => exact h.le
  | asleep h => exact (Nat.le_add_right ..).trans h.le
  | ended => nomatch hs

/-- How slots go on that are gathered in order on `m` places: the process number `i` ends at `f i` (at
`past i`, if it has ended), with the value number `i`. Those that have a place go on now, the others when
the result of the process that has the place before them is taken. -/
structure Scheduled (k m : Nat) (past : Nat → Duration) (slots : List (Slot σ ε β)) (now : Duration)
    (trace : Trace) (stop : Duration) (f : Nat → Duration) (vs : List β) : Prop where
  length : vs.length = slots.length
  past : ∀ i r, slots[i]? = some (.ended r) → f i = past i
  ends : EverySlot (fun i s => ∃ v, vs[i]? = some v ∧ s.Ends ⟨k, i⟩ (trace.within ⟨k, i⟩)
    (if i < (taken slots).length + m then now else partialSups f (i - m)) (f i) v) slots
  stop : (taken slots).length < slots.length → stop = partialSups f (slots.length - 1)

section
variable {k m : Nat} {past f : Nat → Duration} {slots before after : List (Slot σ ε β)}
  {p : Process σ (Except ε β)} {s s' : Slot σ ε β} {now stop : Duration} {trace made : Trace}
  {vs : List β} {span : Nat}

theorem Trace.within_append_of_own {b : Branch} (h : ∀ l ∈ made, l.site.head? = some b) :
    (made ++ trace).within b = made ++ trace.within b := by
  rw [within, List.filter_append, List.filter_eq_self.2 fun l hl => decide_eq_true (h l hl)]
  rfl

theorem Trace.within_append_of_others {b b' : Branch} (hne : b ≠ b')
    (h : ∀ l ∈ made, l.site.head? = some b) : (made ++ trace).within b' = trace.within b' := by
  rw [within, List.filter_append, List.filter_eq_nil_iff.2 fun l hl => ?_, List.nil_append]
  · rfl
  · simp [h l hl, hne]

namespace Scheduled

/-- The slot that goes on does something, and does not end. -/
theorem turn (made : Trace) (h : Scheduled k m past (before ++ s' :: after) now trace stop f vs)
    (hway : s'.process?.isSome) (hplace : before.length < (taken (before ++ .ready p :: after)).length + m)
    (hown : ∀ l ∈ made, l.site.head? = some ⟨k, before.length⟩)
    (hstep : ∀ trace stop v, s'.Ends ⟨k, before.length⟩ trace now stop v →
      (Slot.ready p).Ends ⟨k, before.length⟩ (made ++ trace) now stop v) :
    Scheduled k m past (before ++ .ready p :: after) now (made ++ trace) stop f vs := by
  have htaken : taken (before ++ s' :: after) = taken (before ++ .ready p :: after) :=
    (taken_replace_eq hway).symm
  have hlength : (before ++ s' :: after).length = (before ++ .ready p :: after).length := by simp
  refine ⟨h.length.trans hlength, fun i r hr => ?_, h.ends.exchange ?_ fun i s hi hs => ?_, fun hlt => ?_⟩
  · have hpast : EverySlot (fun i s => ∀ r, s = .ended r → f i = past i) (before ++ s' :: after) :=
      fun i s hs r hr => h.past i r (hr ▸ hs)
    have hends : EverySlot (fun i s => ∀ r, s = .ended r → f i = past i) (before ++ .ready p :: after) :=
      hpast.exchange nofun fun i s _ hs => hs
    exact hends i _ hr r rfl
  · obtain ⟨v, hv, hends⟩ := h.ends.middle
    rw [htaken, if_pos hplace] at hends
    refine ⟨v, hv, ?_⟩
    rw [if_pos hplace, Trace.within_append_of_own hown]
    exact hstep _ _ _ hends
  · rw [htaken] at hs
    rw [Trace.within_append_of_others (fun heq => hi (congrArg Branch.index heq).symm) hown]
    exact hs
  · rw [← hlength]
    exact h.stop (by rw [htaken, hlength]; exact hlt)

/-- The slot that goes on ends. If its result is the next to be taken, all that can be taken is taken
at once, and processes are started on the places that become free. -/
theorem finish {v : β}
    (h : Scheduled k m (Function.update past before.length now) (before ++ .ended (.ok v) :: after) now
      trace stop f vs)
    (hplace : before.length < (taken (before ++ .ready (.done (.ok v)) :: after)).length + m)
    (hpast : ∀ i r, (before ++ .ready (.done (.ok v)) :: after)[i]? = some (.ended r) → past i ≤ now)
    (hnext : ∃ s, (before ++ .ready (.done (.ok v)) :: after)[
      (taken (before ++ .ready (.done (.ok v)) :: after)).length]? = some s ∧ s.process?.isSome)
    (hlast : (taken (before ++ .ended (.ok v) :: after)).length =
      (before ++ .ended (.ok v) :: after).length → stop = now) :
    Scheduled k m past (before ++ .ready (.done (.ok v)) :: after) now trace stop f vs := by
  have hmono : (taken (before ++ .ready (.done (.ok v)) :: after)).length ≤
      (taken (before ++ .ended (.ok v) :: after)).length := taken_replace_le
  have hlength : (before ++ .ended (.ok v) :: after).length =
      (before ++ .ready (.done (.ok v)) :: after).length := by simp
  have hsame {i : Nat} (hi : i ≠ before.length) :
      (before ++ .ended (.ok v) :: after)[i]? = (before ++ .ready (.done (.ok v)) :: after)[i]? :=
    getElem?_replace hi
  have hself : f before.length = now := by
    rw [h.past before.length (.ok v) (by simp), Function.update_self]
  -- what has ended has ended by now, and the result that was next before ends just now
  have hsups {c : Nat} (hc : (taken (before ++ .ready (.done (.ok v)) :: after)).length ≤ c)
      (hc' : c < (taken (before ++ .ended (.ok v) :: after)).length) : partialSups f c = now := by
    refine Nat.le_antisymm (partialSups_le f c now fun j hj => ?_) ?_
    · obtain ⟨w, hw, -⟩ := ended_of_lt_taken (hj.trans_lt hc')
      by_cases hjself : j = before.length
      · rw [hjself, hself]
      · rw [h.past j _ hw, Function.update_of_ne hjself]
        exact hpast j _ (hsame hjself ▸ hw)
    · have hnow : (taken (before ++ .ready (.done (.ok v)) :: after)).length = before.length := by
        by_contra hne
        obtain ⟨w, hw, -⟩ := ended_of_lt_taken (hc.trans_lt hc')
        obtain ⟨s, hs, hway⟩ := hnext
        rw [← hsame hne, hw] at hs
        cases hs
        nomatch hway
      calc now = f before.length := hself.symm
        _ ≤ partialSups f c := le_partialSups_of_le f (hnow ▸ hc)
  refine ⟨h.length.trans hlength, fun i r hr => ?_, fun i s hs => ?_, fun hlt => ?_⟩
  · by_cases hi : i = before.length
    · subst hi
      simp at hr
    · rw [h.past i r (hsame hi ▸ hr), Function.update_of_ne hi]
  · rcases eq_or_ne i before.length with rfl | hi
    · obtain rfl : .ready (.done (.ok v)) = s := by simpa using hs
      obtain ⟨w, hw, hends⟩ := h.ends.middle
      rw [if_pos hplace]
      cases hends with
      | ended htrace =>
        refine ⟨v, hw, .ready ?_⟩
        rw [htrace, hself]
        exact .done _ now
    · obtain ⟨w, hw, hends⟩ := h.ends i s (hsame hi ▸ hs)
      refine ⟨w, hw, ?_⟩
      by_cases hheld : i < (taken (before ++ .ready (.done (.ok v)) :: after)).length + m
      · rw [if_pos (by omega)] at hends
        rwa [if_pos hheld]
      · rw [if_neg hheld]
        by_cases hfree : i < (taken (before ++ .ended (.ok v) :: after)).length + m
        · rw [if_pos hfree] at hends
          rwa [hsups (by omega) (by omega)]
        · rwa [if_neg hfree] at hends
  · by_cases hall : (taken (before ++ .ended (.ok v) :: after)).length =
        (before ++ .ended (.ok v) :: after).length
    · rw [hlast hall, hsups (by omega) (by omega)]
    · have hle := length_taken_le (before ++ .ended (.ok v) :: after)
      rw [← hlength]
      exact h.stop (by omega)

/-- All that have a place are asleep or have ended, and nothing happens until the first of them wakes. -/
theorem advance (h : Scheduled k m past (advanceAll span slots) (now + span) trace stop f vs)
    (hidle : ∀ i s, i < (taken slots).length + m → slots[i]? = some s → ∀ p, s ≠ .ready p)
    (hfresh : ∀ i s, (taken slots).length + m ≤ i → slots[i]? = some s → ∃ p, s = .ready p)
    (hwait : ∀ left p, .asleep left p ∈ slots → span ≤ left) :
    Scheduled k m past slots now trace stop f vs := by
  have hlength : (advanceAll span slots).length = slots.length := List.length_map _
  have hget {i : Nat} {s : Slot σ ε β} (hs : slots[i]? = some s) :
      (advanceAll span slots)[i]? = some (s.advance span) := by
    rw [advanceAll, List.getElem?_map, hs]; rfl
  refine ⟨h.length.trans hlength, fun i r hr => h.past i r (hget hr), fun i s hs => ?_, fun hlt => ?_⟩
  · obtain ⟨v, hv, hends⟩ := h.ends i _ (hget hs)
    rw [taken_advance] at hends
    refine ⟨v, hv, ?_⟩
    by_cases hi : i < (taken slots).length + m
    · rw [if_pos hi] at hends ⊢
      cases s with
      | ready p => exact (hidle i _ hi hs p rfl).elim
      | asleep left p =>
        have hle := hwait left p (List.mem_of_getElem? hs)
        simp only [Slot.advance] at hends
        split at hends <;> rename_i hleft
        · cases hends with
          | ready hruns =>
            rw [Nat.le_antisymm hle hleft] at hruns
            exact .asleep hruns
        · cases hends with
          | asleep hruns =>
            rw [Nat.add_assoc, Nat.add_sub_cancel' hle] at hruns
            exact .asleep hruns
      | ended result =>
        cases hends with
        | ended htrace => exact .ended htrace
    · rw [if_neg hi] at hends ⊢
      obtain ⟨p, rfl⟩ := hfresh i s (Nat.not_lt.1 hi) hs
      exact hends
  · rw [← hlength]
    exact h.stop (by rw [taken_advance, hlength]; exact hlt)

end Scheduled

/-- Every process has, with its part of the exchanges, come to a value. -/
def Succeeds (k : Nat) (log : List Exchange) (i : Nat) (s : Slot σ ε β) : Prop :=
  ∃ d v, s.Lasts ⟨k, i⟩ (ofBranch ⟨k, i⟩ log) d (some (.ok v))

theorem Succeeds.turn {exchanged log : List Exchange} (hturn : Turn ⟨k, before.length⟩ exchanged (.ready p) s')
    (h : EverySlot (Succeeds k (exchanged ++ log)) (before ++ .ready p :: after)) :
    EverySlot (Succeeds k log) (before ++ s' :: after) := by
  refine h.exchange ?_ fun i s hi hs => ?_
  · obtain ⟨d, v, hlasts⟩ := h.middle
    rw [ofBranch_append_of_own hturn.own] at hlasts
    exact ⟨d, v, (hturn.lasts _ _ _).1 hlasts⟩
  · obtain ⟨d, v, hlasts⟩ := hs
    rw [ofBranch_append_of_others (fun heq => hi (congrArg Branch.index heq).symm) hturn.own] at hlasts
    exact ⟨d, v, hlasts⟩

theorem Succeeds.advance {log : List Exchange} (h : EverySlot (Succeeds k log) slots)
    (hwait : ∀ left p, .asleep left p ∈ slots → span ≤ left) :
    EverySlot (Succeeds k log) (advanceAll span slots) := by
  intro i u hu
  rw [advanceAll, List.getElem?_map] at hu
  obtain ⟨s, hs, rfl⟩ := Option.map_eq_some_iff.1 hu
  obtain ⟨d, v, hlasts⟩ := h i s hs
  cases s with
  | ready | ended => exact ⟨d, v, hlasts⟩
  | asleep left p =>
    have hle := hwait left p (List.mem_of_getElem? hs)
    obtain ⟨d', rfl, hrest⟩ := hlasts
    have hd : left + d' = span + (left - span + d') := by omega
    refine ⟨left - span + d', v, (Slot.lasts_advance hle).1 ⟨d', ?_, hrest⟩⟩
    exact hd.symm

/-- The processes that have no place have not been started. -/
def Fresh (m : Nat) (slots : List (Slot σ ε β)) : Prop :=
  ∀ i s, (taken slots).length + m ≤ i → slots[i]? = some s → ∃ p, s = .ready p

theorem Fresh.replace (h : Fresh m (before ++ .ready p :: after))
    (hplace : before.length < (taken (before ++ .ready p :: after)).length + m) :
    Fresh m (before ++ s' :: after) := by
  intro i s hi hs
  have hle : (taken (before ++ .ready p :: after)).length ≤ (taken (before ++ s' :: after)).length :=
    taken_replace_le
  have hne : i ≠ before.length := by omega
  exact h i s (by omega) (getElem?_replace hne ▸ hs)

theorem Fresh.advance (h : Fresh m slots) (span : Nat) : Fresh m (advanceAll span slots) := by
  intro i u hi hu
  rw [taken_advance] at hi
  rw [advanceAll, List.getElem?_map] at hu
  obtain ⟨s, hs, rfl⟩ := Option.map_eq_some_iff.1 hu
  obtain ⟨p, rfl⟩ := h i s hi hs
  exact ⟨p, rfl⟩

/-- What has ended has ended by now. -/
def EndedBy (past : Nat → Duration) (now : Duration) (slots : List (Slot σ ε β)) : Prop :=
  ∀ i r, slots[i]? = some (.ended r) → past i ≤ now

namespace EndedBy

theorem turn (h : EndedBy past now (before ++ .ready p :: after)) (hway : s'.process?.isSome) :
    EndedBy past now (before ++ s' :: after) := by
  intro i r hr
  rcases eq_or_ne i before.length with rfl | hi
  · obtain rfl : s' = .ended r := by simpa using hr
    nomatch hway
  · exact h i r (getElem?_replace hi ▸ hr)

theorem finish {result : Except ε β} (h : EndedBy past now (before ++ .ready p :: after)) :
    EndedBy (Function.update past before.length now) now (before ++ .ended result :: after) := by
  intro i r hr
  rcases eq_or_ne i before.length with rfl | hi
  · rw [Function.update_self]
  · rw [Function.update_of_ne hi]
    exact h i r (getElem?_replace hi ▸ hr)

theorem advance (h : EndedBy past now slots) (span : Nat) :
    EndedBy past (now + span) (advanceAll span slots) := by
  intro i r hr
  rw [advanceAll, List.getElem?_map] at hr
  obtain ⟨s, hs, heq⟩ := Option.map_eq_some_iff.1 hr
  cases s with
  | ready p => cases heq
  | asleep left p =>
    simp only [Slot.advance] at heq
    split at heq <;> cases heq
  | ended result => exact (h i result hs).trans (Nat.le_add_right ..)

end EndedBy

theorem not_lasts_stuck {α : Type} {log : List Exchange} {d : Duration} {a : α} :
    ¬ (Process.stuck : Process σ α).Lasts log d (some a) := nofun

/-- Processes that are gathered in order on `m` places, and that all succeed with what they are answered
among the others, end at some times that they have of each other. -/
theorem schedule_of_gather {seen : σ} {o : Option (Except ε (List β))} (hm : 0 < m)
    (h : (gather seen k (.inOrder m) slots).Runs now trace stop o) (hfresh : Fresh m slots)
    (hok : EverySlot (Succeeds k trace.exchanges) slots) (hpast : EndedBy past now slots) :
    ∃ f vs, o = some (.ok vs) ∧ Scheduled k m past slots now trace stop f vs ∧
      ((taken slots).length = slots.length → stop = now) := by
  generalize hdisc : Discipline.inOrder m = disc at h
  fun_induction gather seen k disc slots generalizing now trace past with
  | case1 slots result hverdict =>
    subst hdisc
    obtain ⟨rfl, rfl, rfl⟩ := runs_done.1 h
    rcases verdict_cases hverdict with ⟨hd, -⟩ | ⟨-, e, he, rfl⟩ | ⟨hall, rfl⟩
    · cases hd
    · obtain ⟨i, hi⟩ := List.mem_iff_getElem?.1 (mem_of_nextFailure? he)
      obtain ⟨d, v, hlasts⟩ := hok i _ hi
      cases (Slot.lasts_ended.1 hlasts).2.2
    · refine ⟨past, taken slots, rfl, ⟨hall, fun _ _ _ => rfl, fun i s hs => ?_, fun hlt => ?_⟩,
        fun _ => rfl⟩
      · have hi : i < (taken slots).length := hall ▸ (List.getElem?_eq_some_iff.1 hs).1
        obtain ⟨v, hv, htaken⟩ := ended_of_lt_taken hi
        obtain rfl : .ended (.ok v) = s := Option.some.inj (hv.symm.trans hs)
        exact ⟨v, htaken, .ended rfl⟩
      · omega
  | case2 slots hverdict before after result hready _ ih =>
    subst hdisc
    have hplace := firstReady_lt hready
    obtain rfl := firstReady_eq hready
    obtain ⟨d, v, hlasts⟩ := hok.middle
    obtain rfl : result = .ok v :=
      (Option.some.inj (lasts_done.1 (Slot.lasts_ready.1 hlasts)).2.2).symm
    obtain ⟨hfailure, hall⟩ := of_verdict_eq_none hverdict
    obtain ⟨f, vs, ho, hscheduled, hlast⟩ :=
      ih (hfresh.replace hplace) (Succeeds.turn (.done _) hok) hpast.finish h
    exact ⟨f, vs, ho, hscheduled.finish hplace hpast (underWay_at_taken hfailure hall) hlast,
      fun heq => absurd heq hall⟩
  | case3 slots hverdict before after hready =>
    obtain rfl := firstReady_eq hready
    obtain ⟨d, v, hlasts⟩ := hok.middle
    exact (not_lasts_stuck (Slot.lasts_ready.1 hlasts)).elim
  | case4 slots hverdict before after inside site event rest hready _ =>
    rename_i ih
    subst hdisc
    have hplace := firstReady_lt hready
    obtain rfl := firstReady_eq hready
    cases h with
    | emit h =>
      obtain ⟨f, vs, ho, hscheduled, -⟩ := ih (hfresh.replace hplace)
        (Succeeds.turn (.emit site event rest) hok) (hpast.turn rfl) h
      refine ⟨f, vs, ho,
        hscheduled.turn [_] rfl hplace (List.forall_mem_singleton.2 rfl) fun trace stop v hends => ?_,
        fun heq => absurd heq (of_verdict_eq_none hverdict).2⟩
      cases hends with
      | ready hruns => exact .ready (.emit hruns)
  | case5 slots hverdict before after inside site request rest hready _ =>
    rename_i ih
    subst hdisc
    have hplace := firstReady_lt hready
    obtain rfl := firstReady_eq hready
    cases h with
    | call answer h =>
      obtain ⟨f, vs, ho, hscheduled, -⟩ := ih answer (hfresh.replace hplace)
        (Succeeds.turn (.call site request answer rest) hok) (hpast.turn rfl) h
      refine ⟨f, vs, ho,
        hscheduled.turn [_] rfl hplace (List.forall_mem_singleton.2 rfl) fun trace stop v hends => ?_,
        fun heq => absurd heq (of_verdict_eq_none hverdict).2⟩
      cases hends with
      | ready hruns => exact .ready (.call answer hruns)
  | case6 slots hverdict before after seen' span rest hready _ ih =>
    subst hdisc
    have hplace := firstReady_lt hready
    obtain rfl := firstReady_eq hready
    obtain ⟨f, vs, ho, hscheduled, -⟩ := ih (hfresh.replace hplace)
      (Succeeds.turn (.pause seen' span rest) hok) (hpast.turn rfl) h
    refine ⟨f, vs, ho, hscheduled.turn [] rfl hplace (List.forall_mem_nil _) fun trace stop v hends => ?_,
      fun heq => absurd heq (of_verdict_eq_none hverdict).2⟩
    cases hends with
    | asleep hruns => exact .ready (.pause hruns)
  | case7 slots hverdict hready span hwaking ih =>
    subst hdisc
    have hwait (left : Nat) (p : Process σ (Except ε β)) (hmem : .asleep left p ∈ slots) :
        span ≤ left := by
      obtain ⟨span', hspan', hle⟩ := nextWaking_le hmem
      cases hwaking.symm.trans hspan'
      exact hle
    obtain ⟨f, vs, ho, hscheduled, -⟩ := ih (hfresh.advance span) (Succeeds.advance hok hwait)
      (hpast.advance span) (runs_pause.1 h)
    exact ⟨f, vs, ho, hscheduled.advance (fun i s hi hs => not_ready_of_firstReady hready hi hs) hfresh
      hwait, fun heq => absurd heq (of_verdict_eq_none hverdict).2⟩
  | case8 slots hverdict hready hwaking =>
    subst hdisc
    exact (verdict_of_idle (fun limit hlimit => by cases hlimit; exact hm) hready hwaking hverdict).elim

theorem taken_ready (ps : List (Process σ (Except ε β))) : taken (ps.map .ready) = [] := by
  cases ps <;> rfl

/-- Processes that are gathered in order on `m` places, and of which the one number `j` takes `d j` and
succeeds with `v j`, start and end at the times of the schedule. -/
theorem runs_of_gather {seen : σ} {ps : List (Process σ (Except ε β))} {o : Option (Except ε (List β))}
    {d : Nat → Duration} {v : Nat → β} (hm : 0 < m)
    (h : (gather seen k (.inOrder m) (ps.map .ready)).Runs now trace stop o)
    (hd : ∀ j (p : Process σ (Except ε β)), ps[j]? = some p →
      (p.inside ⟨k, j⟩).Lasts (ofBranch ⟨k, j⟩ trace.exchanges) (d j) (some (.ok (v j)))) :
    o = some (.ok ((List.range ps.length).map v)) ∧
      (0 < ps.length → stop = now + takenAt m d (ps.length - 1)) ∧
      ∀ j (p : Process σ (Except ε β)), ps[j]? = some p →
        (p.inside ⟨k, j⟩).Runs (now + startAt m d j) (trace.within ⟨k, j⟩)
        (now + startAt m d j + d j) (some (.ok (v j))) := by
  have hready {j : Nat} {s : Slot σ ε β} (hs : (ps.map Slot.ready)[j]? = some s) :
      ∃ p, ps[j]? = some p ∧ s = .ready p := by
    rw [List.getElem?_map] at hs
    obtain ⟨p, hp, rfl⟩ := Option.map_eq_some_iff.1 hs
    exact ⟨p, hp, rfl⟩
  have hfresh : Fresh m (ps.map Slot.ready) := fun j s _ hs => by
    obtain ⟨p, -, rfl⟩ := hready hs
    exact ⟨p, rfl⟩
  have hok : EverySlot (Succeeds k trace.exchanges) (ps.map Slot.ready) := fun j s hs => by
    obtain ⟨p, hp, rfl⟩ := hready hs
    exact ⟨d j, v j, Slot.lasts_ready.2 (hd j p hp)⟩
  have hpast : EndedBy (fun _ => 0) now (ps.map Slot.ready) := fun j r hr => by
    obtain ⟨p, -, heq⟩ := hready hr
    nomatch heq
  obtain ⟨f, vs, rfl, hscheduled, -⟩ := schedule_of_gather hm h hfresh hok hpast
  have hlength : vs.length = ps.length := hscheduled.length.trans (List.length_map _)
  -- each process goes on from its start, and takes as long as it takes
  have hruns {j : Nat} {p : Process σ (Except ε β)} (hp : ps[j]? = some p) :
      vs[j]? = some (v j) ∧ f j = (if j < m then now else partialSups f (j - m)) + d j ∧
        (p.inside ⟨k, j⟩).Runs (if j < m then now else partialSups f (j - m)) (trace.within ⟨k, j⟩) (f j)
          (some (.ok (v j))) := by
    have hs : (ps.map Slot.ready)[j]? = some (.ready p) := by rw [List.getElem?_map, hp]; rfl
    obtain ⟨w, hw, hends⟩ := hscheduled.ends j _ hs
    rw [taken_ready, List.length_nil, Nat.zero_add] at hends
    cases hends with
    | ready hruns =>
      obtain ⟨d', hd', hlasts⟩ := hruns.lasts
      rw [Trace.exchanges_within, ← List.append_nil (ofBranch _ _)] at hlasts
      obtain ⟨-, rfl, heq⟩ := (hd j p hp).unique hlasts
      cases heq
      exact ⟨hw, hd', hruns⟩
  have hends : ∀ j < ps.length, f j = (if j < m then now else partialSups f (j - m)) + d j :=
    fun j hj => (hruns (List.getElem?_eq_getElem hj)).2.1
  have htimes := partialSups_eq_takenAt hm hends
  refine ⟨?_, fun hsome => ?_, fun j p hp => ?_⟩
  · refine congrArg (fun vs => some (Except.ok vs)) (List.ext_getElem? fun j => ?_)
    rcases Nat.lt_or_ge j ps.length with hj | hj
    · rw [(hruns (List.getElem?_eq_getElem hj)).1, List.getElem?_map, List.getElem?_range hj]
      rfl
    · rw [List.getElem?_eq_none (hlength ▸ hj), List.getElem?_eq_none (by simpa using hj)]
  · rw [← (htimes (ps.length - 1) (by omega)).2]
    have hstop := hscheduled.stop (by rw [taken_ready, List.length_map]; exact hsome)
    rwa [List.length_map] at hstop
  · have hj : j < ps.length := (List.getElem?_eq_some_iff.1 hp).1
    obtain ⟨-, hend, hruns⟩ := hruns hp
    rw [hend, (htimes j hj).1] at hruns
    exact hruns

/-- Nothing is done by a later process before an earlier one has begun, if that begins with something to
tell of. -/
theorem begins_before {seen : σ} {disc : Discipline} {o : Option (Except ε (List β))} {i j : Nat}
    (hij : i < j) {site : Site}
    {event : Event} {rest : Unit → Process σ (Except ε β)}
    (hi : slots[i]? = some (.ready (.emit site event rest)))
    (h : (gather seen k disc slots).Runs now trace stop o) :
    ∀ l ∈ trace.takeWhile (fun l => l.site.head? ≠ some ⟨k, i⟩), l.site.head? ≠ some ⟨k, j⟩ := by
  -- the process that goes on is the first that is ready
  have hfirst {n : Nat} {slots before after : List (Slot σ ε β)} {p : Process σ (Except ε β)}
      (hready : firstReady n slots = some (before, p, after))
      (hi : slots[i]? = some (.ready (.emit site event rest))) : before.length ≤ i := by
    by_contra hlt
    have hlt := Nat.lt_of_not_le hlt
    rw [firstReady_eq hready, List.getElem?_append_left hlt] at hi
    exact not_ready_before hready _ (List.mem_of_getElem? hi) _ rfl
  have hne {before after : List (Slot σ ε β)} {p : Process σ (Except ε β)}
      (hi : (before ++ .ready p :: after)[i]? = some (.ready (.emit site event rest)))
      (hp : ∀ site event rest, p ≠ .emit site event rest) : i ≠ before.length := by
    rintro rfl
    obtain rfl : p = .emit site event rest := by simpa using hi
    exact hp _ _ _ rfl
  fun_induction gather seen k disc slots generalizing now trace with
  | case1 slots result hverdict =>
    obtain ⟨rfl, -⟩ := runs_done.1 h
    exact List.forall_mem_nil _
  | case2 slots hverdict before after result hready _ ih =>
    obtain rfl := firstReady_eq hready
    exact ih ((getElem?_replace (hne hi (by simp))).trans hi) h
  | case3 =>
    cases h
    exact List.forall_mem_nil _
  | case4 slots hverdict before after inside site' event' rest' hready _ =>
    rename_i ih
    have hle := hfirst hready hi
    obtain rfl := firstReady_eq hready
    cases h with
    | emit h =>
      rcases hle.lt_or_eq with hlt | rfl
      · rw [List.takeWhile_cons_of_pos (by simp [inside]; omega), List.forall_mem_cons]
        exact ⟨by simp [inside]; omega, ih ((getElem?_replace hlt.ne').trans hi) h⟩
      · rw [List.takeWhile_cons_of_neg (by simp [inside])]
        exact List.forall_mem_nil _
  | case5 slots hverdict before after inside site' request rest' hready _ =>
    rename_i ih
    have hle := hfirst hready hi
    obtain rfl := firstReady_eq hready
    have hother := hne hi (by simp)
    cases h with
    | call answer h =>
      rw [List.takeWhile_cons_of_pos (by simp [inside]; omega), List.forall_mem_cons]
      exact ⟨by simp [inside]; omega, ih answer ((getElem?_replace hother).trans hi) h⟩
  | case6 slots hverdict before after seen' span rest' hready _ ih =>
    obtain rfl := firstReady_eq hready
    exact ih ((getElem?_replace (hne hi (by simp))).trans hi) h
  | case7 slots hverdict hready span hwaking ih =>
    refine ih ?_ (runs_pause.1 h)
    rw [advanceAll, List.getElem?_map, hi]
    rfl
  | case8 slots hverdict hready hwaking =>
    cases h
    exact List.forall_mem_nil _

end
end StepFlow
