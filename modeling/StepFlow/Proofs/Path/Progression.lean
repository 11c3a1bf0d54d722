import Mathlib.Tactic.Ring
import StepFlow.Proofs.Path.Slice
import StepFlow.Proofs.Path.Spelling

/-!
# Slices as progressions

A slice selects the places of an arithmetic progression: from its start by steps, as far as they lie before its
finish (`Slice.sliced_indices`). `Slice.Collects` is the loop that finds them, with nothing in it that would end
it early but a sum that is no signed word. The sums with the length never leave the signed words, and a sum with the
step leaves them only where it would lead past the finish.
-/

namespace StepFlow
namespace Slice

variable {n : Nat} {step stop i : Int} {places : List Nat}

/-! ### The ends of a slice -/

/-- Where a slice of `n` elements starts: at the place given, held against the ends, or at the end it comes from. -/
def start (n : Nat) (first : Option Int) (step : Int) : Int :=
  match first with
  | none => if 0 < step then 0 else n - 1
  | some i => if 0 < step then clamp 0 n (normalize n i) else clamp (-1) (n - 1) (normalize n i)

/-- The place that a slice of `n` elements ends before. -/
def finish (n : Nat) (stop : Option Int) (step : Int) : Int :=
  match stop with
  | none => if 0 < step then n else -1
  | some i => if 0 < step then clamp 0 n (normalize n i) else clamp (-1) (n - 1) (normalize n i)

/-- The place lies before the end, in the direction of the step. -/
def Before (step stop i : Int) : Prop := 0 < step ∧ i < stop ∨ step < 0 ∧ stop < i

/-- The place and the end lie where a slice of `n` elements has them. -/
structure Within (n : Nat) (step stop i : Int) : Prop where
  up : 0 < step → 0 ≤ i ∧ stop ≤ n
  down : step < 0 → i < n ∧ -1 ≤ stop

theorem start_eq (n : Nat) (first : Option Int) (step : Int) :
    start n first step = if 0 < step then clamp 0 n ((first.map (normalize n)).getD 0)
      else clamp (-1) (n - 1) ((first.map (normalize n)).getD (n - 1)) := by
  cases first with
  | none => simp only [start, clamp, Option.map_none, Option.getD_none]; omega
  | some i => rfl

theorem finish_eq (n : Nat) (stop : Option Int) (step : Int) :
    finish n stop step = if 0 < step then clamp 0 n ((stop.map (normalize n)).getD n)
      else clamp (-1) (n - 1) ((stop.map (normalize n)).getD (-1)) := by
  cases stop with
  | none => simp only [finish, clamp, Option.map_none, Option.getD_none]; omega
  | some i => rfl

namespace Within

theorem of_ends (n : Nat) (first stop : Option Int) (step : Int) :
    Within n step (finish n stop step) (start n first step) where
  up hstep := by
    rw [start_eq, finish_eq, if_pos hstep, if_pos hstep, clamp, clamp]
    omega
  down hstep := by
    have hup : ¬0 < step := by omega
    rw [start_eq, finish_eq, if_neg hup, if_neg hup, clamp, clamp]
    omega

/-- What lies before the end is the place of an element. -/
theorem bounds (h : Within n step stop i) (hi : Before step stop i) : 0 ≤ i ∧ i < n := by
  obtain ⟨hstep, hi⟩ | ⟨hstep, hi⟩ := hi
  · have := h.up hstep
    omega
  · have := h.down hstep
    omega

theorem add (h : Within n step stop i) : Within n step stop (i + step) where
  up hstep := by
    have := h.up hstep
    omega
  down hstep := by
    have := h.down hstep
    omega

/-- A sum that is no signed word leads past the end. -/
theorem not_before (h : Within n step stop i) (hn : IsWord n) (hsum : addWord i step = none) :
    ¬Before step stop (i + step) := by
  intro hbefore
  obtain ⟨hlow, hhigh⟩ := h.add.bounds hbefore
  have hword : minWord ≤ i + step ∧ i + step ≤ maxWord := by
    have := hn.2
    exact ⟨Int.le_trans (by decide) hlow, by omega⟩
  rw [addWord, if_pos hword] at hsum
  cases hsum

end Within

theorem not_before_of_eq_zero (h : step = 0) : ¬Before step stop i := by
  rintro (⟨hstep, -⟩ | ⟨hstep, -⟩) <;> omega

/-- What lies past the end stays past it. -/
theorem not_before_add (h : ¬Before step stop i) (k : Nat) : ¬Before step stop (i + k * step) := by
  rintro (⟨hstep, hi⟩ | ⟨hstep, hi⟩)
  · have hk : 0 ≤ (k : Int) * step := Int.mul_nonneg (Int.natCast_nonneg k) hstep.le
    exact h (.inl ⟨hstep, by omega⟩)
  · have hk : (k : Int) * step ≤ 0 := Int.mul_nonpos_of_nonneg_of_nonpos (Int.natCast_nonneg k) hstep.le
    exact h (.inr ⟨hstep, by omega⟩)

/-- The places are `i`, `i + step`, `i + 2 * step` and so on, as far as they lie before the end. -/
def Progression (step stop i : Int) (places : List Nat) : Prop :=
  ∃ m, places.map Int.ofNat = (List.range m).map (fun k : Nat => i + k * step) ∧
    ∀ k : Nat, k < m ↔ Before step stop (i + k * step)

namespace Progression

theorem nil (h : ¬Before step stop i) : Progression step stop i [] :=
  ⟨0, rfl, fun k => iff_of_false (Nat.not_lt_zero k) (not_before_add h k)⟩

theorem cons (hi : 0 ≤ i) (hbefore : Before step stop i) (h : Progression step stop (i + step) places) :
    Progression step stop i (i.toNat :: places) := by
  have hsum (k : Nat) : i + ((k : Int) + 1) * step = i + step + k * step := by ring
  obtain ⟨m, hplaces, hm⟩ := h
  refine ⟨m + 1, ?_, fun k => ?_⟩
  · rw [List.range_succ_eq_map, List.map_cons, List.map_cons, List.map_map, hplaces]
    simp [Function.comp_def, hsum, hi]
  · cases k with
    | zero => simpa using hbefore
    | succ k => rw [Nat.cast_succ, hsum, ← hm, Nat.succ_lt_succ_iff]

theorem ascending (h : Progression step stop i places) (hstep : 0 < step) : places.Pairwise (· < ·) := by
  obtain ⟨m, hplaces, -⟩ := h
  have hsums : ((List.range m).map fun k : Nat => i + k * step).Pairwise (· < ·) :=
    List.pairwise_lt_range.map _ fun k l hkl => by
      have := Int.mul_lt_mul_of_pos_right (Int.ofNat_lt.2 hkl) hstep
      omega
  rw [← hplaces, List.pairwise_map] at hsums
  exact hsums.imp Int.ofNat_lt.1

theorem descending (h : Progression step stop i places) (hstep : step < 0) : places.Pairwise (· > ·) := by
  obtain ⟨m, hplaces, -⟩ := h
  have hsums : ((List.range m).map fun k : Nat => i + k * step).Pairwise (· > ·) :=
    List.pairwise_lt_range.map _ fun k l hkl => by
      have := Int.mul_lt_mul_of_neg_right (Int.ofNat_lt.2 hkl) hstep
      omega
  rw [← hplaces, List.pairwise_map] at hsums
  exact hsums.imp Int.ofNat_lt.1

end Progression

/-! ### The loop -/

/-- What the loop of a slice collects from the place `i` on. -/
inductive Collects (step stop : Int) : Int → List Nat → Prop
  | done {i : Int} : ¬Before step stop i → Collects step stop i []
  /-- The next sum is no signed word. -/
  | cut {i : Int} : Before step stop i → addWord i step = none → Collects step stop i [i.toNat]
  | more {i next : Int} {places : List Nat} : Before step stop i → addWord i step = some next →
      Collects step stop next places → Collects step stop i (i.toNat :: places)

theorem collects_upward (hstep : 0 < step) (i : Int) : Collects step stop i (upward step stop i) := by
  induction i using upward.induct step stop with
  | case1 i hin ih =>
    have hi : Before step stop i := .inl ⟨hstep, hin.1⟩
    rw [upward, if_pos hin]
    cases hnext : addWord i step with
    | none => exact .cut hi hnext
    | some next =>
      have hlt : i < next := by
        rw [addWord_eq_some hnext]
        omega
      refine .more hi hnext ?_
      simp only [hlt, if_true]
      exact ih next hlt
  | case2 i hout =>
    rw [upward, if_neg hout]
    refine .done ?_
    rintro (⟨-, hi⟩ | ⟨hdown, -⟩)
    · exact hout ⟨hi, hstep⟩
    · omega

theorem collects_downward (hstep : step < 0) (i : Int) : Collects step stop i (downward step stop i) := by
  induction i using downward.induct step stop with
  | case1 i hin ih =>
    have hi : Before step stop i := .inr ⟨hstep, hin.1⟩
    rw [downward, if_pos hin]
    cases hnext : addWord i step with
    | none => exact .cut hi hnext
    | some next =>
      have hlt : next < i := by
        rw [addWord_eq_some hnext]
        omega
      refine .more hi hnext ?_
      simp only [hlt, if_true]
      exact ih next hlt
  | case2 i hout =>
    rw [downward, if_neg hout]
    refine .done ?_
    rintro (⟨hup, -⟩ | ⟨-, hi⟩)
    · omega
    · exact hout ⟨hi, hstep⟩

/-- The loop ends with the places of the slice. -/
theorem collects_indices (n : Nat) (first stop step : Option Int) :
    Collects (step.getD 1) (finish n stop (step.getD 1)) (start n first (step.getD 1))
      (indices n first stop step) := by
  rw [start_eq, finish_eq, indices]
  by_cases hup : 0 < step.getD 1
  · simp only [hup, if_true]
    exact collects_upward hup _
  · by_cases hdown : step.getD 1 < 0
    · simp only [hup, hdown, if_false, if_true]
      exact collects_downward hdown _
    · simp only [hup, hdown, if_false]
      exact .done fun h => h.elim (fun h => hup h.1) fun h => hdown h.1

namespace Collects

theorem eq_nil (h : Collects step stop i places) (hi : ¬Before step stop i) : places = [] := by
  cases h with
  | done _ => rfl
  | cut hi' _ => exact absurd hi' hi
  | more hi' _ _ => exact absurd hi' hi

/-- Every place lies before the end, among the elements. -/
theorem before (h : Collects step stop i places) (hi : Within n step stop i) :
    ∀ j ∈ places, Before step stop j ∧ Within n step stop j := by
  induction h with
  | done _ => exact List.forall_mem_nil _
  | cut hbefore _ =>
    rw [List.forall_mem_singleton, Int.toNat_of_nonneg (hi.bounds hbefore).1]
    exact ⟨hbefore, hi⟩
  | more hbefore hnext _ ih =>
    rw [List.forall_mem_cons, Int.toNat_of_nonneg (hi.bounds hbefore).1]
    exact ⟨⟨hbefore, hi⟩, ih (addWord_eq_some hnext ▸ hi.add)⟩

theorem progression (h : Collects step stop i places) (hi : Within n step stop i) (hn : IsWord n) :
    Progression step stop i places := by
  induction h with
  | done hpast => exact .nil hpast
  | cut hbefore hsum => exact .cons (hi.bounds hbefore).1 hbefore (.nil (hi.not_before hn hsum))
  | more hbefore hnext _ ih =>
    obtain rfl := addWord_eq_some hnext
    exact .cons (hi.bounds hbefore).1 hbefore (ih hi.add)

end Collects

/-! ### The places of a slice -/

theorem normalize_word (hn : IsWord n) (hi : IsWord i) : IsWord (normalize n i) := by
  obtain ⟨hlow, hhigh⟩ := hi
  have := hn.2
  unfold normalize IsWord
  split <;> omega

/-- What a slice of `n` elements selects, and what the loop that finds it computes with. -/
structure Sliced (n : Nat) (first stop : Option Int) (step : Int) (places : List Nat) : Prop where
  /-- The loop ends with these places. -/
  collects : Collects step (finish n stop step) (start n first step) places
  /-- No sum with the length leaves the signed words. -/
  words : IsWord (n - 1) ∧ (∀ i ∈ first, IsWord (normalize n i)) ∧ ∀ i ∈ stop, IsWord (normalize n i)
  /-- Where a sum with the step leaves them, it would lead past the end. -/
  cut : ∀ j ∈ places, addWord j step = none → ¬Before step (finish n stop step) (j + step)
  lt : ∀ j ∈ places, j < n
  ascending : 0 < step → places.Pairwise (· < ·)
  descending : step < 0 → places.Pairwise (· > ·)
  nothing : step = 0 → places = []
  progression : Progression step (finish n stop step) (start n first step) places

theorem pick_elements {n : Node} {items : List Document} (hitems : n.value = .arr items)
    (hplaces : ∀ j ∈ places, j < items.length) :
    List.Forall₂ (fun j m => ∃ h : j < items.length, m = n.child (.element j) items[j]) places (n.pick places) := by
  unfold Node.pick
  rw [hitems]
  induction places with
  | nil => exact .nil
  | cons j places ih =>
    obtain ⟨hj, hplaces⟩ := List.forall_mem_cons.1 hplaces
    simp only [List.filterMap_cons, List.getElem?_eq_getElem hj, Option.map_some]
    exact .cons ⟨hj, rfl⟩ (ih hplaces)

/-- A slice with any ends and any step, of as many elements as a signed word can count, selects the progression from
its start to its end, and at each place the element. -/
theorem sliced_indices {n : Nat} {first stop : Option Int} (hn : IsWord n) (hfirst : ∀ i ∈ first, IsWord i)
    (hstop : ∀ i ∈ stop, IsWord i) (step : Option Int) :
    Sliced n first stop (step.getD 1) (indices n first stop step) ∧
      ∀ (root : Document) (node : Node) (items : List Document), node.value = .arr items → items.length = n →
        List.Forall₂ (fun j m => ∃ h : j < items.length, m = node.child (.element j) items[j])
          (indices n first stop step) ((Selector.slice first stop step).select root node) := by
  have hcollects := collects_indices n first stop step
  have hwithin := Within.of_ends n first stop (step.getD 1)
  have hbefore := hcollects.before hwithin
  have hprogression := hcollects.progression hwithin hn
  have hlt : ∀ j ∈ indices n first stop step, j < n := fun j hj => by
    have := (hbefore j hj).2.bounds (hbefore j hj).1
    omega
  have hlength : IsWord (n - 1) := ⟨Int.le_trans (by decide) (Int.sub_le_sub_right (Int.natCast_nonneg n) 1), by
    have := hn.2
    omega⟩
  refine ⟨?_, fun root node items hitems hcount => ?_⟩
  · exact {
      collects := hcollects
      words := ⟨hlength, fun i hi => normalize_word hn (hfirst i hi), fun i hi => normalize_word hn (hstop i hi)⟩
      cut := fun j hj => (hbefore j hj).2.not_before hn
      lt := hlt
      ascending := hprogression.ascending
      descending := hprogression.descending
      nothing := fun hzero => hcollects.eq_nil (not_before_of_eq_zero hzero)
      progression := hprogression }
  · subst hcount
    rw [Selector.select, hitems]
    exact pick_elements hitems hlt

/-- Of three elements from the last but one on by the greatest step: the first sum is no signed word. -/
theorem sliced_indices_greatestStep :
    IsWord (3 : Nat) ∧ IsWord (-2) ∧ IsWord maxWord ∧ addWord 1 maxWord = none ∧
      Sliced 3 (some (-2)) (some maxWord) maxWord [1] := by
  have hn : IsWord (3 : Nat) := ⟨by decide, by decide⟩
  have hfirst : IsWord (-2) := ⟨by decide, by decide⟩
  have hstop : IsWord maxWord := ⟨by decide, by decide⟩
  have hplaces : indices 3 (some (-2)) (some maxWord) (some maxWord) = [1] := by decide +kernel
  have h := (sliced_indices hn (fun _ hi => Option.some.inj hi ▸ hfirst) (fun _ hi => Option.some.inj hi ▸ hstop)
    (some maxWord)).1
  rw [hplaces] at h
  exact ⟨hn, hfirst, hstop, by decide, h⟩

end Slice
end StepFlow
