import StepFlow.Proofs.Process.Lasts

/-!
# Failures in time and in order

What gathering processes comes to, and when, if all of them are started at once. Under `firstFailure` the
whole fails with the process that is the first in time to fail, of those at one instant with the one that
has the lowest number, at the time at which it fails (`first_of_gathers`). Under `inOrder` it fails with the
process that has the lowest number of those that fail, and not before those with lower numbers have ended
(`taken_of_gathers`). What is said of a process is said of it with the answers that it gets among the others.
-/

namespace StepFlow
open Process

variable {σ ε β : Type}

/-! ### The first failure in time -/

/-- An outcome of one of the processes that is one of the whole: a failure, or being stuck. -/
inductive Breaks {α γ : Type} : Option (Except ε α) → Option (Except ε γ) → Prop where
  | stuck : Breaks none none
  | failed (e : ε) : Breaks (some (.error e)) (some (.error e))

/-- The process number `i` takes the time `d` to what is an outcome `r` of the whole, and however the
process number `j` goes on with the answers that it has got, it does not come to such an outcome before, nor
at the same time if its number is lower. -/
def Foremost (k : Nat) (log : List Exchange) (d : Duration) (r : Option (Except ε (List β))) (i j : Nat)
    (s : Slot σ ε β) : Prop :=
  (j = i → ∃ o, Breaks o r ∧ s.Lasts ⟨k, j⟩ (ofBranch ⟨k, j⟩ log) d o) ∧
    ∀ more d' o, (∀ v, o ≠ some (.ok v)) → s.Lasts ⟨k, j⟩ (ofBranch ⟨k, j⟩ log ++ more) d' o →
      d < d' ∨ d = d' ∧ i ≤ j

theorem ofBranch_append_of_own {b : Branch} {made log : List Exchange}
    (h : ∀ e ∈ made, e.site.head? = some b) : ofBranch b (made ++ log) = made ++ ofBranch b log := by
  rw [ofBranch, List.filter_append, List.filter_eq_self.2 fun e he => decide_eq_true (h e he)]
  rfl

theorem ofBranch_append_of_others {b b' : Branch} {made log : List Exchange} (hne : b ≠ b')
    (h : ∀ e ∈ made, e.site.head? = some b) : ofBranch b' (made ++ log) = ofBranch b' log := by
  rw [ofBranch, List.filter_append, List.filter_eq_nil_iff.2 fun e he => ?_, List.nil_append]
  · rfl
  · simp [h e he, hne]

section
variable {slots before after : List (Slot σ ε β)} {p : Process σ (Except ε β)} {s' : Slot σ ε β}
  {k i : Nat} {made log : List Exchange} {d span : Duration} {r : Option (Except ε (List β))}

theorem failure?_eq_none_iff : failure? slots = none ↔ ∀ e, .ended (.error e) ∉ slots := by
  refine ⟨fun h e => ?_, fun h => ?_⟩
  · fun_induction failure? slots with
    | case1 => exact List.not_mem_nil
    | case2 => cases h
    | case3 s rest hs ih =>
      rintro (_ | ⟨_, hmem⟩)
      · exact hs e rfl
      · exact ih h hmem
  · cases hfailure : failure? slots with
    | none => rfl
    | some e => exact (h e (mem_of_failure? hfailure)).elim

theorem failure?_advance (h : failure? slots = none) (span : Nat) : failure? (advanceAll span slots) = none := by
  rw [failure?_eq_none_iff] at h ⊢
  intro e hmem
  obtain ⟨s, hs, heq⟩ := List.mem_map.1 hmem
  cases s with
  | ready => cases heq
  | asleep =>
    simp only [Slot.advance] at heq
    split at heq <;> cases heq
  | ended result => exact h e (heq ▸ hs)

/-- The first process that is ready comes to an outcome of the whole without a sleep. -/
theorem foremost_now (hbefore : ∀ s ∈ before, ∀ q, s ≠ .ready q)
    (hprompt : EverySlot (fun _ => Slot.Prompt) (before ++ .ready p :: after))
    (hfailure : failure? (before ++ .ready p :: after) = none)
    (hmade : ∀ e ∈ made, e.site.head? = some ⟨k, before.length⟩) {o : Option (Except ε β)} (ho : Breaks o r)
    (hp : (Slot.ready p).Lasts ⟨k, before.length⟩ made 0 o) :
    EverySlot (Foremost k made 0 r before.length) (before ++ .ready p :: after) := by
  intro j s hs
  refine ⟨?_, fun more d' o hnot hlasts => ?_⟩
  · rintro rfl
    obtain rfl : .ready p = s := by simpa using hs
    refine ⟨o, ho, ?_⟩
    rw [← List.append_nil made, ofBranch_append_of_own hmade, ofBranch, List.filter_nil, List.append_nil]
    exact hp
  rcases Nat.eq_zero_or_pos d' with rfl | hd'
  · refine .inr ⟨rfl, Nat.le_of_not_lt fun hj => ?_⟩
    -- the slots before sleep or have ended, and not with a failure
    rw [List.getElem?_append_left hj] at hs
    have hmem := List.mem_of_getElem? hs
    cases s with
    | ready q => exact hbefore _ hmem q rfl
    | asleep left q =>
      have hleft : 0 < left := (hprompt j _ ((List.getElem?_append_left hj).trans hs)).1
      obtain ⟨d₁, hd₁, -⟩ := hlasts
      have hdue : 0 = left + d₁ := hd₁
      omega
    | ended result =>
      obtain ⟨-, -, rfl⟩ := Slot.lasts_ended.1 hlasts
      cases result with
      | ok v => exact hnot v rfl
      | error e => exact failure?_eq_none_iff.1 hfailure e (List.mem_append_left _ hmem)
  · exact .inl hd'

theorem Foremost.turn (hturn : Turn ⟨k, before.length⟩ made (.ready p) s')
    (h : EverySlot (Foremost k log d r i) (before ++ s' :: after)) :
    EverySlot (Foremost k (made ++ log) d r i) (before ++ .ready p :: after) := by
  refine h.exchange ?_ fun j s hj hs => ?_
  · obtain ⟨hi, hfirst⟩ := h.middle
    unfold Foremost
    rw [ofBranch_append_of_own hturn.own]
    refine ⟨fun heq => ?_, fun more d' o hnot hlasts => ?_⟩
    · obtain ⟨o, ho, hlasts⟩ := hi heq
      exact ⟨o, ho, (hturn.lasts _ _ _).2 hlasts⟩
    · rw [List.append_assoc] at hlasts
      exact hfirst more d' o hnot ((hturn.lasts _ _ _).1 hlasts)
  · unfold Foremost
    rw [ofBranch_append_of_others (fun heq => hj (congrArg Branch.index heq).symm) hturn.own]
    exact hs

theorem Foremost.advance (hwaits : ∀ s ∈ slots, s.Waits span) (hfailure : failure? slots = none)
    (h : EverySlot (Foremost k log d r i) (advanceAll span slots)) :
    EverySlot (Foremost k log (span + d) r i) slots := by
  intro j s hs
  have hmem := List.mem_of_getElem? hs
  obtain ⟨hi, hfirst⟩ := h j (s.advance span) (by rw [advanceAll, List.getElem?_map, hs]; rfl)
  cases hwaits s hmem with
  | @asleep left hleft p =>
    refine ⟨fun heq => ?_, fun more d' o hnot hlasts => ?_⟩
    · obtain ⟨o, ho, hlasts⟩ := hi heq
      exact ⟨o, ho, (Slot.lasts_advance hleft).2 hlasts⟩
    · obtain ⟨d₁, hd₁, -⟩ := id hlasts
      obtain ⟨d₂, rfl⟩ : ∃ d₂, d' = span + d₂ :=
        ⟨d' - span, (Nat.add_sub_cancel' (hd₁ ▸ Nat.le_trans hleft (Nat.le_add_right ..))).symm⟩
      rcases hfirst more d₂ o hnot ((Slot.lasts_advance hleft).1 hlasts) with hlt | ⟨rfl, hle⟩
      · exact .inl (Nat.add_lt_add_left hlt span)
      · exact .inr ⟨rfl, hle⟩
  | ended result =>
    have hok {o : Option (Except ε β)} {log' : List Exchange} {d' : Duration}
        (hlasts : (Slot.ended result : Slot σ ε β).Lasts ⟨k, j⟩ log' d' o) : ∃ v, o = some (.ok v) := by
      obtain ⟨-, -, rfl⟩ := Slot.lasts_ended.1 hlasts
      cases result with
      | ok v => exact ⟨v, rfl⟩
      | error e => exact (failure?_eq_none_iff.1 hfailure e hmem).elim
    refine ⟨fun heq => ?_, fun more d' o hnot hlasts => ?_⟩
    · obtain ⟨o, ho, hlasts⟩ := hi heq
      obtain ⟨v, rfl⟩ := hok hlasts
      cases ho
    · obtain ⟨v, rfl⟩ := hok hlasts
      exact (hnot v rfl).elim

theorem first_of_gathers (h : Gathers k .firstFailure slots log d r)
    (hprompt : EverySlot (fun _ => Slot.Prompt) slots) (hfailure : failure? slots = none) :
    (∃ vs, r = some (.ok vs)) ∨ ∃ i < slots.length, EverySlot (Foremost k log d r i) slots := by
  induction h with
  | @verdict slots result hverdict =>
    cases result with
    | ok vs => exact .inl ⟨vs, rfl⟩
    | error e => exact (failure?_eq_none_iff.1 hfailure e (mem_of_verdict hverdict)).elim
  | stuck _ hbefore =>
    exact .inr ⟨_, by simp, foremost_now hbefore hprompt hfailure nofun .stuck (Slot.lasts_ready.2 .stuck)⟩
  | @turn before after p s' made log d r _ hbefore hturn h ih =>
    cases hfailure' : failure? (before ++ s' :: after) with
    | none =>
      rcases ih (hprompt.replace (hturn.prompt hprompt.middle)) hfailure' with hok | ⟨i, hi, hfirst⟩
      · exact .inl hok
      · exact .inr ⟨i, by simpa using hi, .turn hturn hfirst⟩
    | some e =>
      -- The turn is the one in which the process ends; no other has failed before it.
      obtain rfl : .ended (.error e) = s' := by
        rcases List.mem_append.1 (mem_of_failure? hfailure') with hmem | hmem
        · exact (failure?_eq_none_iff.1 hfailure e (List.mem_append_left _ hmem)).elim
        · refine (List.mem_cons.1 hmem).resolve_right fun hmem => ?_
          exact failure?_eq_none_iff.1 hfailure e (List.mem_append_right _ (List.mem_cons_of_mem _ hmem))
      have hverdict : Discipline.firstFailure.verdict (before ++ .ended (.error e) :: after) =
          some (.error e) := by
        simp only [Discipline.verdict, hfailure']
      obtain ⟨rfl, rfl, rfl⟩ := h.of_verdict hverdict
      refine .inr ⟨before.length, by simp, ?_⟩
      rw [List.append_nil]
      refine foremost_now hbefore hprompt hfailure hturn.own (.failed e) ?_
      rw [← List.append_nil made, hturn.lasts, Slot.lasts_ended]
      exact ⟨rfl, rfl, rfl⟩
  | advance hverdict hwaits h ih =>
    rcases ih (Slot.Prompt.advance hprompt _) (failure?_advance hfailure _) with hok | ⟨i, hi, hfirst⟩
    · exact .inl hok
    · exact .inr ⟨i, by simpa [advanceAll] using hi, Foremost.advance hwaits hfailure hfirst⟩

end

/-! ### Results taken in order -/

/-- The results of processes, numbered from `i` on, are taken one after the other up to the first failure.
The whole takes as long as that one of them that takes the longest. -/
inductive Taken (k : Nat) (log : List Exchange) :
    Nat → List (Slot σ ε β) → Duration → Except ε (List β) → Prop where
  | nil (i : Nat) : Taken k log i [] 0 (.ok [])
  | error {i : Nat} {s : Slot σ ε β} {slots : List (Slot σ ε β)} {d : Duration} {e : ε}
      (h : s.Lasts ⟨k, i⟩ (ofBranch ⟨k, i⟩ log) d (some (.error e))) : Taken k log i (s :: slots) d (.error e)
  | ok {i : Nat} {s : Slot σ ε β} {slots : List (Slot σ ε β)} {d d' : Duration} {v : β}
      {r : Except ε (List β)} (h : s.Lasts ⟨k, i⟩ (ofBranch ⟨k, i⟩ log) d (some (.ok v)))
      (hr : Taken k log (i + 1) slots d' r) : Taken k log i (s :: slots) (max d d') (r.map (v :: ·))

section
variable {slots before after : List (Slot σ ε β)} {p : Process σ (Except ε β)} {s' : Slot σ ε β}
  {k i : Nat} {made log log' : List Exchange} {d span : Duration} {r : Except ε (List β)} {disc : Discipline}

namespace Taken

theorem of_nextFailure? {e : ε} (h : nextFailure? slots = some e) (i : Nat) :
    Taken k [] i slots 0 (.error e) := by
  fun_induction nextFailure? slots generalizing i with
  | case1 v rest ih => exact .ok (Slot.lasts_ended.2 ⟨rfl, rfl, rfl⟩) (ih h (i + 1))
  | case2 e' rest =>
    cases h
    exact .error (Slot.lasts_ended.2 ⟨rfl, rfl, rfl⟩)
  | case3 => cases h

theorem of_taken (h : (taken slots).length = slots.length) (i : Nat) :
    Taken k [] i slots 0 (.ok (taken slots)) := by
  fun_induction taken slots generalizing i with
  | case1 v rest ih =>
    simp only [List.length_cons, Nat.add_right_cancel_iff] at h
    exact .ok (Slot.lasts_ended.2 ⟨rfl, rfl, rfl⟩) (ih h (i + 1))
  | case2 slots =>
    rw [List.length_nil, eq_comm, List.length_eq_zero_iff] at h
    subst h
    exact .nil i

theorem mono (h : Taken k log i slots d r) (hlog : ∀ j, i ≤ j → ofBranch ⟨k, j⟩ log' = ofBranch ⟨k, j⟩ log) :
    Taken k log' i slots d r := by
  induction h with
  | nil i => exact .nil i
  | @error i _ _ _ _ h => exact .error (hlog i (Nat.le_refl i) ▸ h)
  | @ok i _ _ _ _ _ _ h _ ih =>
    exact .ok (hlog i (Nat.le_refl i) ▸ h) (ih fun j hj => hlog j (Nat.le_of_succ_le hj))

theorem turn (hturn : Turn ⟨k, i + before.length⟩ made (.ready p) s')
    (h : Taken k log i (before ++ s' :: after) d r) :
    Taken k (made ++ log) i (before ++ .ready p :: after) d r := by
  have hothers {j : Nat} (hj : i + before.length ≠ j) :
      ofBranch ⟨k, j⟩ (made ++ log) = ofBranch ⟨k, j⟩ log :=
    ofBranch_append_of_others (fun heq => hj (congrArg Branch.index heq)) hturn.own
  have hown : ofBranch ⟨k, i + before.length⟩ (made ++ log) = made ++ ofBranch ⟨k, i + before.length⟩ log :=
    ofBranch_append_of_own hturn.own
  induction before generalizing i d r with
  | nil =>
    have hown : ofBranch ⟨k, i⟩ (made ++ log) = made ++ ofBranch ⟨k, i⟩ log := hown
    cases h with
    | error h => exact .error (hown ▸ (hturn.lasts _ _ _).2 h)
    | ok h hr =>
      refine .ok (hown ▸ (hturn.lasts _ _ _).2 h) (hr.mono fun j hj => hothers ?_)
      simp only [List.length_nil]
      omega
  | cons s before ih =>
    have hlength : i + (s :: before).length = i + 1 + before.length := by
      simp only [List.length_cons]
      omega
    rw [hlength] at hturn hothers hown
    cases h with
    | error h => exact .error ((hothers (j := i) (by omega)).symm ▸ h)
    | ok h hr => exact .ok ((hothers (j := i) (by omega)).symm ▸ h) (ih hturn hr hothers hown)

/-- Time passes for the results that are still to come; if there are none of them, the whole is decided. -/
theorem advance (hwaits : ∀ s ∈ slots, s.Waits span) (h : Taken k log i (advanceAll span slots) d r) :
    Taken k log i slots (span + d) r ∨
      d = 0 ∧ Taken k log i slots 0 r ∧ (nextFailure? slots = none → (taken slots).length = slots.length) := by
  induction slots generalizing i d r with
  | nil =>
    cases h
    exact .inr ⟨rfl, .nil i, fun _ => rfl⟩
  | cons s slots ih =>
    obtain ⟨hs, hslots⟩ := List.forall_mem_cons.1 hwaits
    -- A process that has ended takes no more time, and is never the one that takes the longest.
    cases hs with
    | @asleep left hleft p =>
      cases h with
      | error h => exact .inl (.error ((Slot.lasts_advance hleft).2 h))
      | @ok _ _ _ d₁ d₂ v r h hr =>
        have hv := (Slot.lasts_advance hleft).2 h
        rcases ih hslots hr with hlater | ⟨rfl, hnow, -⟩
        · rw [← Nat.add_max_add_left]
          exact .inl (.ok hv hlater)
        · refine .inl ?_
          rw [Nat.max_zero, ← Nat.max_zero (span + d₁)]
          exact .ok hv hnow
    | ended result =>
      cases h with
      | error h =>
        obtain ⟨-, rfl, heq⟩ := Slot.lasts_ended.1 h
        cases heq
        exact .inr ⟨rfl, .error h, nofun⟩
      | @ok _ _ _ d₁ d₂ v r h hr =>
        obtain ⟨-, rfl, heq⟩ := Slot.lasts_ended.1 h
        cases heq
        rcases ih hslots hr with hlater | ⟨rfl, hnow, hdecided⟩
        · refine .inl ?_
          rw [Nat.zero_max, ← Nat.zero_max (span + d₂)]
          exact .ok h hlater
        · exact .inr ⟨rfl, .ok h hnow, fun hnone => congrArg (· + 1) (hdecided hnone)⟩

/-- With all results taken, every process has ended with its own. -/
theorem of_ok {vs : List β} (h : Taken k log i slots d (.ok vs)) {j : Nat} {s : Slot σ ε β}
    (hs : slots[j]? = some s) : ∃ v d', vs[j]? = some v ∧ d' ≤ d ∧
      s.Lasts ⟨k, i + j⟩ (ofBranch ⟨k, i + j⟩ log) d' (some (.ok v)) := by
  induction slots generalizing i j d vs with
  | nil => cases hs
  | cons u slots ih =>
    generalize hr : Except.ok vs = r at h
    cases h with
    | error => cases hr
    | @ok _ _ _ d₁ d₂ v r h hlater =>
      cases r with
      | error => cases hr
      | ok ws =>
        cases hr
        cases j with
        | zero =>
          cases hs
          exact ⟨v, d₁, rfl, Nat.le_max_left .., h⟩
        | succ j =>
          obtain ⟨w, d', hw, hd', hlasts⟩ := ih hlater hs
          rw [Nat.add_right_comm i 1 j] at hlasts
          exact ⟨w, d', hw, Nat.le_trans hd' (Nat.le_max_right ..), hlasts⟩

end Taken

theorem taken_of_gathers (hdisc : ∀ e, r = .error e → disc ≠ .firstFailure)
    (h : Gathers k disc slots log d (some r)) : Taken k log 0 slots d r := by
  generalize ho : some r = o at h
  induction h with
  | @verdict slots result hverdict =>
    cases ho
    rcases verdict_cases hverdict with ⟨rfl, e, -, rfl⟩ | ⟨⟨limit, rfl⟩, e, hfailure, rfl⟩ | ⟨htaken, rfl⟩
    · exact (hdisc e rfl rfl).elim
    · exact .of_nextFailure? hfailure 0
    · exact .of_taken htaken 0
  | stuck => cases ho
  | turn _ hbefore hturn h ih =>
    refine .turn ?_ (ih ho)
    rw [Nat.zero_add]
    exact hturn
  | advance hverdict hwaits h ih =>
    refine ((ih ho).advance hwaits).resolve_right fun ⟨_, _, hdecided⟩ => ?_
    obtain ⟨hfailure, hlength⟩ := of_verdict_eq_none hverdict
    exact hlength (hdecided hfailure)

/-- The whole is stuck when one of the processes is. -/
theorem stuck_of_gathers (h : Gathers k disc slots log d none) :
    ∃ i < slots.length,
      EverySlot (fun j s => j = i → s.Lasts ⟨k, j⟩ (ofBranch ⟨k, j⟩ log) d none) slots := by
  generalize ho : (none : Option (Except ε (List β))) = o at h
  induction h with
  | verdict => cases ho
  | @stuck before after =>
    refine ⟨before.length, by simp, ?_⟩
    rintro j s hs rfl
    obtain rfl : .ready .stuck = s := by simpa using hs
    exact Slot.lasts_ready.2 .stuck
  | @turn before after p s' made log d r _ _ hturn h ih =>
    obtain ⟨i, hi, hstuck⟩ := ih ho
    refine ⟨i, by simpa using hi, hstuck.exchange (fun heq => ?_) fun j s hj hs => ?_⟩
    · rw [ofBranch_append_of_own hturn.own]
      exact (hturn.lasts _ _ _).2 (hstuck.middle heq)
    · rw [ofBranch_append_of_others (fun heq => hj (congrArg Branch.index heq).symm) hturn.own]
      exact hs
  | @advance slots span log d r _ hwaits h ih =>
    obtain ⟨i, hi, hstuck⟩ := ih ho
    refine ⟨i, by simpa [advanceAll] using hi, fun j s hs heq => ?_⟩
    have hlater := hstuck j (s.advance span) (by rw [advanceAll, List.getElem?_map, hs]; rfl) heq
    cases hwaits s (List.mem_of_getElem? hs) with
    | asleep hleft => exact (Slot.lasts_advance hleft).2 hlater
    | ended result => cases (Slot.lasts_ended.1 hlater).2.2

end

/-! ### Both -/

/-- With the answers that it gets among the others, the process number `i` takes the time `d` and gives
`o`. -/
def Comes (k : Nat) (log : List Exchange) (slots : List (Slot σ ε β)) (i : Nat) (d : Duration)
    (o : Option (Except ε β)) : Prop :=
  ∃ s, slots[i]? = some s ∧ s.Lasts ⟨k, i⟩ (ofBranch ⟨k, i⟩ log) d o

/-- So it may be if the process number `i` goes on, with more answers after those that it has got among the
others. -/
def MayCome (k : Nat) (log : List Exchange) (slots : List (Slot σ ε β)) (i : Nat) (d : Duration)
    (o : Option (Except ε β)) : Prop :=
  ∃ s more, slots[i]? = some s ∧ s.Lasts ⟨k, i⟩ (ofBranch ⟨k, i⟩ log ++ more) d o

/-- The first process, in time and at one instant by number, that fails or is stuck decides for the whole; if
there is none, all the results are taken. -/
inductive FirstDecides (k : Nat) (log : List Exchange) (slots : List (Slot σ ε β)) (d : Duration) :
    Option (Except ε (List β)) → Prop where
  | all {vs : List β} (h : Taken k log 0 slots d (.ok vs)) : FirstDecides k log slots d (some (.ok vs))
  | breaks {i : Nat} {o : Option (Except ε β)} {r : Option (Except ε (List β))} (ho : Breaks o r)
      (hi : Comes k log slots i d o)
      (hfirst : ∀ j d' o', (∀ v, o' ≠ some (.ok v)) → MayCome k log slots j d' o' → d < d' ∨ d = d' ∧ i ≤ j) :
      FirstDecides k log slots d r

section
variable {slots : List (Slot σ ε β)} {k i : Nat} {log : List Exchange} {d d' : Duration}
  {o : Option (Except ε β)} {r : Option (Except ε (List β))} {seen : σ}

theorem Comes.mayCome (h : Comes k log slots i d o) : MayCome k log slots i d o := by
  obtain ⟨s, hs, hlasts⟩ := h
  exact ⟨s, [], hs, by rwa [List.append_nil]⟩

theorem firstDecides_of_gather (hprompt : EverySlot (fun _ => Slot.Prompt) slots)
    (hfailure : failure? slots = none) (h : (gather seen k .firstFailure slots).Lasts log d r) :
    FirstDecides k log slots d r := by
  have hgathers := gathers_of_lasts (by nofun) h
  rcases first_of_gathers hgathers hprompt hfailure with ⟨vs, rfl⟩ | ⟨i, hi, hfirst⟩
  · exact .all (taken_of_gathers (by nofun) hgathers)
  · obtain ⟨o, ho, hlasts⟩ := (hfirst i slots[i] (List.getElem?_eq_getElem hi)).1 rfl
    refine .breaks ho ⟨_, List.getElem?_eq_getElem hi, hlasts⟩ ?_
    rintro j d' o' hnot ⟨s, more, hs, hmore⟩
    exact (hfirst j s hs).2 more d' o' hnot hmore

/-- If one of the processes fails, with none stuck up to then, so does the whole. -/
theorem FirstDecides.fails (h : FirstDecides k log slots d r) {e : ε}
    (hi : MayCome k log slots i d' (some (.error e)))
    (hstuck : ∀ j d'', MayCome k log slots j d'' none → d' < d'') : ∃ e', r = some (.error e') := by
  cases h with
  | all htaken =>
    obtain ⟨s, more, hs, hmore⟩ := hi
    obtain ⟨v, d₁, -, -, hlasts⟩ := htaken.of_ok hs
    rw [Nat.zero_add] at hlasts
    cases (hlasts.unique hmore).2.2
  | breaks ho hj hfirst =>
    cases ho with
    | failed e' => exact ⟨e', rfl⟩
    | stuck =>
      have hafter := hstuck _ _ hj.mayCome
      rcases hfirst _ _ _ (by nofun) hi with hbefore | ⟨rfl, -⟩
      · exact (Nat.lt_asymm hafter hbefore).elim
      · exact (Nat.lt_irrefl _ hafter).elim

theorem taken_of_gather {limit : Nat} {result : Except ε (List β)} (hlimit : 0 < limit)
    (hlength : slots.length ≤ limit) (h : (gather seen k (.inOrder limit) slots).Lasts log d (some result)) :
    Taken k log 0 slots d result := by
  have hstarts : (Discipline.inOrder limit).StartsAll slots.length := by
    rintro _ ⟨⟩
    exact ⟨hlimit, hlength⟩
  exact taken_of_gathers (by nofun) (gathers_of_lasts hstarts h)

theorem stuck_of_gather {limit : Nat} (hlimit : 0 < limit) (hlength : slots.length ≤ limit)
    (h : (gather seen k (.inOrder limit) slots).Lasts log d none) : ∃ i, Comes k log slots i d none := by
  have hstarts : (Discipline.inOrder limit).StartsAll slots.length := by
    rintro _ ⟨⟩
    exact ⟨hlimit, hlength⟩
  obtain ⟨i, hi, hstuck⟩ := stuck_of_gathers (gathers_of_lasts hstarts h)
  exact ⟨i, _, List.getElem?_eq_getElem hi, hstuck i _ (List.getElem?_eq_getElem hi) rfl⟩

end
end StepFlow
