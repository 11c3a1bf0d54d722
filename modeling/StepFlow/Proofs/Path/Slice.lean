import Mathlib.Data.List.Nodup
import StepFlow.Path.Query

/-!
# Slices

Going up a slice selects ever higher places and going down ever lower ones, so that it selects none twice
(`Slice.nodup_indices`).
-/

namespace StepFlow
namespace Slice

variable {step stop i : Int} {j : Nat}

theorem addWord_eq_some {next : Int} (h : addWord i step = some next) : next = i + step := by
  unfold addWord at h
  split at h <;> cases h
  rfl

/-! ### Going up -/

/-- Below the end a slice goes on from the next place, or ends where that is no signed word. -/
theorem upward_cons (hi : i < stop) (hstep : 0 < step) : ∃ rest, upward step stop i = i.toNat :: rest ∧
    (rest = [] ∨ rest = upward step stop (i + step)) := by
  rw [upward, if_pos ⟨hi, hstep⟩]
  refine ⟨_, rfl, ?_⟩
  split
  · rename_i next hnext
    obtain rfl := addWord_eq_some hnext
    rw [if_pos (by omega)]
    exact .inr rfl
  · exact .inl rfl

theorem le_of_mem_upward (hi : 0 ≤ i) (h : j ∈ upward step stop i) : i ≤ j := by
  induction i using upward.induct step stop with
  | case1 i hin ih =>
    obtain ⟨rest, heq, hrest⟩ := upward_cons hin.1 hin.2
    rw [heq] at h
    rcases List.mem_cons.1 h with rfl | h
    · omega
    · obtain rfl | rfl := hrest
      · cases h
      · have := ih (i + step) (by omega) (by omega) h
        omega
  | case2 i hout =>
    rw [upward, if_neg hout] at h
    cases h

theorem pairwise_upward (hi : 0 ≤ i) : (upward step stop i).Pairwise (· < ·) := by
  induction i using upward.induct step stop with
  | case1 i hin ih =>
    obtain ⟨rest, heq, rfl | rfl⟩ := upward_cons hin.1 hin.2
    · rw [heq]
      exact List.pairwise_singleton ..
    · rw [heq]
      refine .cons (fun j hj => ?_) (ih (i + step) (by omega) (by omega))
      have := le_of_mem_upward (by omega) hj
      omega
  | case2 i hout =>
    rw [upward, if_neg hout]
    exact .nil

/-! ### Going down -/

/-- Above the end a slice goes on from the next place, or ends where that is no signed word. -/
theorem downward_cons (hi : stop < i) (hstep : step < 0) : ∃ rest, downward step stop i = i.toNat :: rest ∧
    (rest = [] ∨ rest = downward step stop (i + step)) := by
  rw [downward, if_pos ⟨hi, hstep⟩]
  refine ⟨_, rfl, ?_⟩
  split
  · rename_i next hnext
    obtain rfl := addWord_eq_some hnext
    rw [if_pos (by omega)]
    exact .inr rfl
  · exact .inl rfl

theorem le_of_mem_downward (hstop : -1 ≤ stop) (h : j ∈ downward step stop i) : j ≤ i := by
  induction i using downward.induct step stop with
  | case1 i hin ih =>
    obtain ⟨rest, heq, hrest⟩ := downward_cons hin.1 hin.2
    rw [heq] at h
    rcases List.mem_cons.1 h with rfl | h
    · omega
    · obtain rfl | rfl := hrest
      · cases h
      · have := ih (i + step) (by omega) h
        omega
  | case2 i hout =>
    rw [downward, if_neg hout] at h
    cases h

theorem pairwise_downward (hstop : -1 ≤ stop) : (downward step stop i).Pairwise (· > ·) := by
  induction i using downward.induct step stop with
  | case1 i hin ih =>
    obtain ⟨rest, heq, rfl | rfl⟩ := downward_cons hin.1 hin.2
    · rw [heq]
      exact List.pairwise_singleton ..
    · rw [heq]
      refine .cons (fun j hj => ?_) (ih (i + step) (by omega))
      have := le_of_mem_downward hstop hj
      omega
  | case2 i hout =>
    rw [downward, if_neg hout]
    exact .nil

/-! ### All places -/

theorem le_clamp (lo hi i : Int) : lo ≤ clamp lo hi i := Int.le_max_left ..

theorem nodup_indices (n : Nat) (first stop step : Option Int) : (indices n first stop step).Nodup := by
  simp only [indices]
  split
  · exact (pairwise_upward (le_clamp ..)).imp Nat.ne_of_lt
  · split
    · exact (pairwise_downward (le_clamp ..)).imp Nat.ne_of_gt
    · exact List.nodup_nil

end Slice
end StepFlow
