import StepFlow.Proofs.Binary64.Round
import StepFlow.Proofs.Execution.Protocol

/-!
# How the delays of retries grow

As long as the product of interval, rate and count can be waited for, a later retry waits at least
as long as an earlier one. From the first count on whose product is out of range there is no wait
at all, so that this is where delays shrink.
-/

namespace StepFlow
namespace Retrier

open Binary64

variable {d : Definition.Retrier} {r : Retrier} {j k : Nat}

/-- The product of interval, rate and count, rounded twice; none beyond the largest double. -/
def seconds? (r : Retrier) (count : Nat) : Option Binary64 :=
  (r.intervalSeconds.mul r.backoffRate).bind (·.mul (.ofInt count))

/-- Can the product be waited for? -/
def Fits (r : Retrier) (count : Nat) : Prop := ∃ s, r.seconds? count = some s ∧ s.magnitude < 2 ^ 64

/-- The interval and the rate are not negative. -/
structure Forward (r : Retrier) : Prop where
  interval : r.intervalSeconds.Nonneg
  rate : r.backoffRate.Nonneg

theorem forward_of_ofDefinition (h : ofDefinition d = .ok r) : r.Forward := by
  unfold ofDefinition at h
  split at h
  · nomatch h
  dsimp only at h
  split at h <;> rename_i hunits
  · nomatch h
  obtain rfl := Except.ok.inj h
  obtain ⟨hinterval, hrate⟩ := not_or.1 hunits
  exact ⟨nonneg_of_units hinterval, nonneg_of_units hrate⟩

theorem ofDefinition_of_nonneg {patterns : List String} {interval rate : Binary64}
    (hne : patterns.isEmpty = false) (attempts : Nat) (hi : interval.Nonneg) (hb : rate.Nonneg) :
    ofDefinition ⟨patterns, some interval, some attempts, some rate⟩ =
      .ok ⟨patterns, interval, attempts, rate⟩ := by
  have hunits : ¬ (interval.units < 0 ∨ rate.units < 0) := by
    rw [units_eq hi, units_eq hb]; omega
  simp [ofDefinition, hne, hunits]

theorem Forward.of_seconds? (hr : r.Forward) {s : Binary64} (h : r.seconds? k = some s) :
    s.Nonneg ∧ minExp ≤ s.exp := by
  obtain ⟨step, hstep, hs⟩ := Option.bind_eq_some_iff.1 h
  exact ⟨nonneg_of_mul (nonneg_of_mul hr.interval hr.rate hstep) (ofNat_nonneg k) hs,
    (bounds_of_mul hs).1⟩

theorem delay_eq (r : Retrier) (k : Nat) :
    r.delay k = ((r.seconds? k).bind Binary64.toNanos).getD 0 := rfl

/-- The delay of a product that can be waited for is the product, in nanoseconds. -/
theorem Forward.delay_of_fits (hr : r.Forward) (h : r.Fits k) :
    ∃ s, r.seconds? k = some s ∧ s.toNanos = some (r.delay k) := by
  obtain ⟨s, hs, hlt⟩ := h
  obtain ⟨hnonneg, hexp⟩ := hr.of_seconds? hs
  refine ⟨s, hs, ?_⟩
  rw [delay_eq, hs, Option.bind_some, toNanos_eq hnonneg hexp, if_pos hlt, Option.getD_some]

theorem Forward.delay_of_not_fits (hr : r.Forward) (h : ¬ r.Fits k) : r.delay k = 0 := by
  rw [delay_eq]
  rcases hs : r.seconds? k with _ | s
  · rfl
  · obtain ⟨hnonneg, hexp⟩ := hr.of_seconds? hs
    rw [Option.bind_some, toNanos_eq hnonneg hexp, if_neg fun hlt => h ⟨s, hs, hlt⟩,
      Option.getD_none]

theorem seconds?_mono (hjk : j ≤ k) {t : Binary64} (h : r.seconds? k = some t) :
    ∃ s, r.seconds? j = some s ∧ s.magnitude ≤ t.magnitude := by
  obtain ⟨step, hstep, ht⟩ := Option.bind_eq_some_iff.1 h
  obtain ⟨s, hs, hle⟩ := mul_mono (magnitude_ofNat_mono hjk) ht
  exact ⟨s, by rw [seconds?, hstep, Option.bind_some, hs], hle⟩

theorem Fits.mono (h : r.Fits k) (hjk : j ≤ k) : r.Fits j := by
  obtain ⟨t, ht, hlt⟩ := h
  obtain ⟨s, hs, hle⟩ := seconds?_mono hjk ht
  exact ⟨s, hs, hle.trans_lt hlt⟩

theorem Forward.delay_mono (hr : r.Forward) (hjk : j ≤ k) (h : r.Fits k) :
    r.delay j ≤ r.delay k := by
  obtain ⟨t, ht, hnanos⟩ := hr.delay_of_fits h
  obtain ⟨s, hs, hle⟩ := seconds?_mono hjk ht
  obtain ⟨hsn, hse⟩ := hr.of_seconds? hs
  obtain ⟨htn, hte⟩ := hr.of_seconds? ht
  obtain ⟨a, ha, hab⟩ := toNanos_mono hsn hse htn hte hle hnanos
  rwa [delay_eq, hs, Option.bind_some, ha, Option.getD_some]

theorem Forward.delay_le_iff (hr : r.Forward) (hjk : j ≤ k) :
    r.delay j ≤ r.delay k ↔ r.Fits k ∨ r.delay j = 0 := by
  by_cases h : r.Fits k
  · exact iff_of_true (hr.delay_mono hjk h) (.inl h)
  · rw [hr.delay_of_not_fits h, Nat.le_zero]
    exact (or_iff_right h).symm

/-- The delays of an accepted retrier never shrink as long as their products can be waited for; from
the first product on that cannot, they are zero. In particular a failure that goes to the same
retrier as the one before it is retried no sooner than that one, unless its product is out of range. -/
theorem delay_grows (h : ofDefinition d = .ok r) :
    (∀ j k, j ≤ k → r.Fits k → r.Fits j ∧ r.delay j ≤ r.delay k) ∧
    (∀ k, ¬ r.Fits k → r.delay k = 0) ∧
    (∀ j k, j ≤ k → (r.delay j ≤ r.delay k ↔ r.Fits k ∨ r.delay j = 0)) ∧
    ∀ (R : Recovery) (f g : TaskFailure) (past : List TaskFailure) (a b : Duration),
      R.position? f = R.position? g → R.newest? (f :: g :: past) = some r →
      R.retryDelay? (g :: past) = some a → R.retryDelay? (f :: g :: past) = some b →
      (a ≤ b ↔ r.Fits (R.streak (f :: g :: past)) ∨ a = 0) := by
  have hr := forward_of_ofDefinition h
  refine ⟨fun j k hjk hk => ⟨hk.mono hjk, hr.delay_mono hjk hk⟩, fun k => hr.delay_of_not_fits,
    fun j k => hr.delay_le_iff, fun R f g past a b hfg hnewest ha hb => ?_⟩
  have hnewest' : R.newest? (g :: past) = some r := by
    rw [← hnewest, Recovery.newest?, Recovery.newest?, hfg]
  have hdelay {failures : List TaskFailure} {c : Duration} (hn : R.newest? failures = some r)
      (hc : R.retryDelay? failures = some c) : c = r.delay (R.streak failures) := by
    rw [Recovery.retryDelay?, hn] at hc
    by_cases hle : R.streak failures ≤ r.maxAttempts
    · simpa [hle] using hc.symm
    · simp [hle] at hc
  rw [hdelay hnewest' ha, hdelay hnewest hb, Recovery.streak_cons_of_eq hfg]
  exact hr.delay_le_iff (Nat.le_succ _)

/-- Retries after `10 ^ 19` seconds, then after twice that time, which is more than can be waited for. -/
def farApart : Definition.Retrier where
  errorEquals := [allErrors]
  intervalSeconds := some ⟨false, 4882812500000000, 11⟩
  maxAttempts := some 3
  backoffRate := some ⟨false, 4503599627370496, -52⟩

def farApartAccepted : Retrier :=
  ⟨[allErrors], ⟨false, 4882812500000000, 11⟩, 3, ⟨false, 4503599627370496, -52⟩⟩

theorem ofDefinition_farApart : ofDefinition farApart = .ok farApartAccepted :=
  ofDefinition_of_nonneg rfl 3 (fun h => nomatch h) (fun h => nomatch h)

theorem delay_grows_farApart :
    ofDefinition farApart = .ok farApartAccepted ∧
    (farApartAccepted.delay 1 ≤ farApartAccepted.delay 2 ↔
      farApartAccepted.Fits 2 ∨ farApartAccepted.delay 1 = 0) :=
  ⟨ofDefinition_farApart, (delay_grows ofDefinition_farApart).2.2.1 1 2 (by decide)⟩

theorem delay_shrinks : ∃ (d : Definition.Retrier) (r : Retrier), ofDefinition d = .ok r ∧
    r.delay 1 = 10000000000000000000 * 1000000000 ∧ r.delay 2 = 0 :=
  ⟨farApart, farApartAccepted, ofDefinition_farApart, by decide +kernel, by decide +kernel⟩

end Retrier

end StepFlow
