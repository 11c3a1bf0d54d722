import Mathlib.Algebra.Order.Field.Power
import Mathlib.Data.Int.Log
import Mathlib.Data.Rat.Floor
import Mathlib.Tactic.Linarith
import Mathlib.Tactic.Positivity
import Mathlib.Tactic.Ring
import StepFlow.Binary64

/-!
# Rounding keeps the order

A larger quotient is not rounded to a smaller double, and when the larger one can be rounded at
all, so can the smaller one. The exponents of both doubles are compared first: under the same
exponent the mantissas are rounded alike, and under different ones a full mantissa lies between.
-/

namespace StepFlow

variable {n d n' d' : Nat}

theorem roundDiv_mul_self (k : Nat) (hd : 0 < d) : roundDiv (k * d) d = k := by
  have hrem : k * d % d = 0 := Nat.mul_mod_left k d
  have hquot : k * d / d = k := Nat.mul_div_cancel k hd
  simp [roundDiv, hrem, hquot, hd]

theorem roundDiv_mono (hd : 0 < d) (hd' : 0 < d') (h : (n : ℚ) / d ≤ n' / d') :
    roundDiv n d ≤ roundDiv n' d' := by
  have hcross : n * d' ≤ n' * d := by
    rw [div_le_div_iff₀ (by exact_mod_cast hd) (by exact_mod_cast hd')] at h
    exact_mod_cast h
  have hquot : n / d ≤ n' / d' := by
    rw [Nat.le_div_iff_mul_le hd', ← Nat.mul_le_mul_right_iff hd]
    calc n / d * d' * d = n / d * d * d' := by ring
      _ ≤ n * d' := Nat.mul_le_mul_right d' (Nat.div_mul_le_self n d)
      _ ≤ n' * d := hcross
  rcases hquot.lt_or_eq with hlt | heq
  · have hup : roundDiv n d ≤ n / d + 1 := by unfold roundDiv; dsimp only; split <;> omega
    have hdown : n' / d' ≤ roundDiv n' d' := by unfold roundDiv; dsimp only; split <;> omega
    omega
  · -- with the same whole part the remainders decide, compared as fractions
    have hrem : n % d * d' ≤ n' % d' * d := by
      have hn := Nat.div_add_mod n d
      have hn' := Nat.div_add_mod n' d'
      rw [heq] at hn
      have hcross' : (d * (n' / d') + n % d) * d' ≤ (d' * (n' / d') + n' % d') * d := by
        rw [hn, hn']; exact hcross
      nlinarith
    have hdown : (2 * (n' % d') < d' ∨ 2 * (n' % d') = d' ∧ n' / d' % 2 = 0) →
        2 * (n % d) < d ∨ 2 * (n % d) = d ∧ n' / d' % 2 = 0 := by
      rintro (hlt | ⟨hhalf, heven⟩)
      · left
        by_contra hge
        have := Nat.mul_le_mul_right d' (Nat.le_of_not_lt hge)
        have := Nat.mul_lt_mul_of_pos_right hlt hd
        nlinarith
      · have hle : 2 * (n % d) ≤ d := by
          by_contra hgt
          have := Nat.mul_lt_mul_of_pos_right (Nat.lt_of_not_le hgt) hd'
          nlinarith
        exact hle.lt_or_eq.imp_right fun h => ⟨h, heven⟩
    unfold roundDiv
    dsimp only
    rw [heq]
    by_cases h' : 2 * (n' % d') < d' ∨ 2 * (n' % d') = d' ∧ n' / d' % 2 = 0
    · rw [if_pos h', if_pos (hdown h')]
    · rw [if_neg h']; split <;> omega

theorem le_roundDiv {k : Nat} (hd : 0 < d) (h : (k : ℚ) ≤ n / d) : k ≤ roundDiv n d := by
  have hk : ((k * d : Nat) : ℚ) / d ≤ n / d := by
    have : (d : ℚ) ≠ 0 := by exact_mod_cast hd.ne'
    push_cast; rw [mul_div_assoc, div_self this, mul_one]; exact h
  calc k = roundDiv (k * d) d := (roundDiv_mul_self k hd).symm
    _ ≤ roundDiv n d := roundDiv_mono hd hd hk

theorem roundDiv_le {k : Nat} (hd : 0 < d) (h : (n : ℚ) / d ≤ k) : roundDiv n d ≤ k := by
  have hk : (n : ℚ) / d ≤ ((k * d : Nat) : ℚ) / d := by
    have : (d : ℚ) ≠ 0 := by exact_mod_cast hd.ne'
    push_cast; rw [mul_div_assoc, div_self this, mul_one]; exact h
  calc roundDiv n d ≤ roundDiv (k * d) d := roundDiv_mono hd hd hk
    _ = k := roundDiv_mul_self k hd

theorem pos_of_div_le (hn : 0 < n) (hd : 0 < d) (h : (n : ℚ) / d ≤ n' / d') : 0 < n' := by
  have hr : (0 : ℚ) < (n : ℚ) / d := div_pos (by exact_mod_cast hn) (by exact_mod_cast hd)
  rcases n'.eq_zero_or_pos with rfl | hn'
  · rw [Nat.cast_zero, zero_div] at h
    exact absurd h (not_le.2 hr)
  · exact hn'

namespace Binary64

/-- The absolute value. -/
def magnitude (x : Binary64) : ℚ := x.mant * (2 : ℚ) ^ x.exp

theorem magnitude_nonneg (x : Binary64) : 0 ≤ x.magnitude := by unfold magnitude; positivity

/-- The two powers of two by which a quotient is scaled are one power of either sign. -/
theorem cast_two_pow_toNat (e : Int) :
    ((Nat.pow 2 e.toNat : Nat) : ℚ) = (2 : ℚ) ^ e * (Nat.pow 2 (-e).toNat : Nat) := by
  have h2 : (2 : ℚ) ≠ 0 := by norm_num
  have hpow (k : Nat) : ((Nat.pow 2 k : Nat) : ℚ) = (2 : ℚ) ^ (k : ℤ) := by
    rw [zpow_natCast]; exact_mod_cast rfl
  rw [hpow, hpow, ← zpow_add₀ h2]
  congr 1
  omega

theorem two_pow_pos (k : Nat) : 0 < Nat.pow 2 k := Nat.two_pow_pos k

theorem scaled_div (n d : Nat) (e : Int) :
    ((n * Nat.pow 2 (-e).toNat : Nat) : ℚ) / (d * Nat.pow 2 e.toNat : Nat)
      = (n : ℚ) / d / (2 : ℚ) ^ e := by
  have hpos : ((Nat.pow 2 (-e).toNat : Nat) : ℚ) ≠ 0 := by exact_mod_cast (two_pow_pos _).ne'
  have h2 : (2 : ℚ) ^ e ≠ 0 := zpow_ne_zero e (by norm_num)
  rw [Nat.cast_mul, Nat.cast_mul, cast_two_pow_toNat e, ← mul_assoc, mul_div_mul_right _ _ hpos,
    div_div]

theorem floorLog2_eq (hn : 0 < n) (hd : 0 < d) : floorLog2 n d = Int.log 2 ((n : ℚ) / d) := by
  have hn0 : (0 : ℚ) < n := by exact_mod_cast hn
  have hd0 : (0 : ℚ) < d := by exact_mod_cast hd
  have hr : (0 : ℚ) < (n : ℚ) / d := div_pos hn0 hd0
  -- the logarithms of both numbers leave the exponent open by one
  have hlog (k : Nat) (hk : 0 < k) :
      (2 : ℚ) ^ (k.log2 : ℤ) ≤ k ∧ (k : ℚ) < (2 : ℚ) ^ ((k.log2 : ℤ) + 1) := by
    have hle := Nat.log2_self_le hk.ne'
    have hlt := Nat.lt_log2_self (n := k)
    refine ⟨by rw [zpow_natCast]; exact_mod_cast hle, ?_⟩
    rw [show ((k.log2 : ℤ) + 1) = ((k.log2 + 1 : Nat) : ℤ) by push_cast; ring, zpow_natCast]
    exact_mod_cast hlt
  obtain ⟨hnle, hnlt⟩ := hlog n hn
  obtain ⟨hdle, hdlt⟩ := hlog d hd
  have h2 : (2 : ℚ) ≠ 0 := by norm_num
  set e : Int := (n.log2 : Int) - d.log2 with he
  have hbelow : (2 : ℚ) ^ (e - 1) ≤ (n : ℚ) / d := by
    rw [le_div_iff₀ hd0]
    calc (2 : ℚ) ^ (e - 1) * d ≤ (2 : ℚ) ^ (e - 1) * (2 : ℚ) ^ ((d.log2 : ℤ) + 1) := by gcongr
      _ = (2 : ℚ) ^ (n.log2 : ℤ) := by rw [← zpow_add₀ h2]; congr 1; omega
      _ ≤ n := hnle
  have habove : (n : ℚ) / d < (2 : ℚ) ^ (e + 1) := by
    rw [div_lt_iff₀ hd0]
    calc (n : ℚ) < (2 : ℚ) ^ ((n.log2 : ℤ) + 1) := hnlt
      _ = (2 : ℚ) ^ (e + 1) * (2 : ℚ) ^ (d.log2 : ℤ) := by rw [← zpow_add₀ h2]; congr 1; omega
      _ ≤ (2 : ℚ) ^ (e + 1) * d := by gcongr
  have htest : d * Nat.pow 2 e.toNat ≤ n * Nat.pow 2 (-e).toNat ↔ (2 : ℚ) ^ e ≤ (n : ℚ) / d := by
    have hpos : (0 : ℚ) < (Nat.pow 2 (-e).toNat : Nat) := by exact_mod_cast two_pow_pos _
    rw [← Nat.cast_le (α := ℚ), Nat.cast_mul, Nat.cast_mul, cast_two_pow_toNat e, ← mul_assoc,
      mul_le_mul_iff_left₀ hpos, le_div_iff₀ hd0, mul_comm]
  have hunder : Int.log 2 ((n : ℚ) / d) < e + 1 :=
    (Int.lt_zpow_iff_log_lt one_lt_two hr).1 (by exact_mod_cast habove)
  unfold floorLog2
  dsimp only
  rw [← he]
  by_cases h : d * Nat.pow 2 e.toNat ≤ n * Nat.pow 2 (-e).toNat
  · have hle : e ≤ Int.log 2 ((n : ℚ) / d) :=
      (Int.zpow_le_iff_le_log one_lt_two hr).1 (by exact_mod_cast htest.1 h)
    rw [if_pos h]; omega
  · have hle : e - 1 ≤ Int.log 2 ((n : ℚ) / d) :=
      (Int.zpow_le_iff_le_log one_lt_two hr).1 (by exact_mod_cast hbelow)
    have hlt : Int.log 2 ((n : ℚ) / d) < e :=
      (Int.lt_zpow_iff_log_lt one_lt_two hr).1
        (by exact_mod_cast not_le.1 fun hle => h (htest.2 hle))
    rw [if_neg h]; omega

/-- The exponent under which a positive quotient is rounded. -/
def roundExp (n d : Nat) : Int := max (floorLog2 n d - 52) minExp

/-- The quotient as a rounded number of steps of that exponent. -/
def roundMant (n d : Nat) : Nat :=
  roundDiv (n * Nat.pow 2 (-roundExp n d).toNat) (d * Nat.pow 2 (roundExp n d).toNat)

/-- A mantissa that is rounded up to the next power of two moves the exponent on. -/
def carry (n d : Nat) : Int := if roundMant n d = Nat.pow 2 53 then 1 else 0

theorem minExp_le_roundExp (n d : Nat) : minExp ≤ roundExp n d := le_max_right ..

theorem roundExp_mono (hn : 0 < n) (hd : 0 < d) (hd' : 0 < d') (h : (n : ℚ) / d ≤ n' / d') :
    roundExp n d ≤ roundExp n' d' := by
  have hr : (0 : ℚ) < (n : ℚ) / d := div_pos (by exact_mod_cast hn) (by exact_mod_cast hd)
  have hn' := pos_of_div_le hn hd h
  have hlog := Int.log_mono_right (b := 2) hr h
  unfold roundExp
  rw [floorLog2_eq hn hd, floorLog2_eq hn' hd']
  omega

theorem roundMant_le (hn : 0 < n) (hd : 0 < d) : roundMant n d ≤ Nat.pow 2 53 := by
  have h2 : (2 : ℚ) ≠ 0 := by norm_num
  refine roundDiv_le (Nat.mul_pos hd (two_pow_pos _)) ?_
  rw [scaled_div, div_le_iff₀ (by positivity)]
  have habove : (n : ℚ) / d < (2 : ℚ) ^ (floorLog2 n d + 1) := by
    rw [floorLog2_eq hn hd]; exact_mod_cast Int.lt_zpow_succ_log_self one_lt_two ((n : ℚ) / d)
  have hexp : floorLog2 n d + 1 ≤ 53 + roundExp n d := by unfold roundExp; omega
  calc (n : ℚ) / d ≤ (2 : ℚ) ^ (floorLog2 n d + 1) := habove.le
    _ ≤ (2 : ℚ) ^ (53 + roundExp n d) := zpow_le_zpow_right₀ (by norm_num) hexp
    _ = (Nat.pow 2 53 : Nat) * (2 : ℚ) ^ roundExp n d := by rw [zpow_add₀ h2]; norm_num

/-- Above the least exponent the mantissa is full. -/
theorem le_roundMant (hn : 0 < n) (hd : 0 < d) (h : minExp < roundExp n d) :
    Nat.pow 2 52 ≤ roundMant n d := by
  have h2 : (2 : ℚ) ≠ 0 := by norm_num
  have hr : (0 : ℚ) < (n : ℚ) / d := div_pos (by exact_mod_cast hn) (by exact_mod_cast hd)
  refine le_roundDiv (Nat.mul_pos hd (two_pow_pos _)) ?_
  rw [scaled_div, le_div_iff₀ (by positivity)]
  have hbelow : (2 : ℚ) ^ floorLog2 n d ≤ (n : ℚ) / d := by
    rw [floorLog2_eq hn hd]; exact_mod_cast Int.zpow_log_le_self one_lt_two hr
  have hexp : 52 + roundExp n d = floorLog2 n d := by unfold roundExp at h ⊢; omega
  calc ((Nat.pow 2 52 : Nat) : ℚ) * (2 : ℚ) ^ roundExp n d = (2 : ℚ) ^ (52 + roundExp n d) := by
        rw [zpow_add₀ h2]; norm_num
    _ ≤ (n : ℚ) / d := by rw [hexp]; exact hbelow

theorem roundMant_mono (hd : 0 < d) (hd' : 0 < d') (h : (n : ℚ) / d ≤ n' / d')
    (he : roundExp n d = roundExp n' d') : roundMant n d ≤ roundMant n' d' := by
  refine roundDiv_mono (Nat.mul_pos hd (two_pow_pos _)) (Nat.mul_pos hd' (two_pow_pos _)) ?_
  rw [scaled_div, scaled_div, he]
  exact div_le_div_of_nonneg_right h (by positivity)

theorem round_of_pos (neg : Bool) (hn : 0 < n) :
    round neg n d =
      if maxExp < roundExp n d + carry n d then none
      else if roundMant n d = Nat.pow 2 53 then some ⟨neg, Nat.pow 2 52, roundExp n d + 1⟩
      else some ⟨neg, roundMant n d, roundExp n d⟩ := by
  unfold round
  rw [if_neg hn.ne']
  simp only [← roundExp.eq_def, ← roundMant.eq_def, carry]
  by_cases hfull : roundMant n d = Nat.pow 2 53
  · simp only [hfull, ↓reduceIte]
  · simp only [hfull, ↓reduceIte, add_zero]

theorem round_eq_none_iff (neg : Bool) (hn : 0 < n) :
    round neg n d = none ↔ maxExp < roundExp n d + carry n d := by
  rw [round_of_pos neg hn]
  split <;> rename_i h
  · simp [h]
  · split <;> simp [h]

variable {neg neg' : Bool} {y y' : Binary64}

theorem magnitude_of_round (hn : 0 < n) (h : round neg n d = some y) :
    y.magnitude = roundMant n d * (2 : ℚ) ^ roundExp n d := by
  rw [round_of_pos neg hn] at h
  split at h
  · nomatch h
  split at h <;> rename_i hfull
  · obtain rfl := Option.some.inj h
    rw [hfull, magnitude, zpow_add₀ (by norm_num)]
    norm_num
    ring
  · obtain rfl := Option.some.inj h
    rfl

theorem round_zero (neg : Bool) (d : Nat) : round neg 0 d = some ⟨neg, 0, minExp⟩ := by
  unfold round; rw [if_pos rfl]

/-- What is rounded is stored with a mantissa and an exponent within their bounds. -/
theorem bounds_of_round (hd : 0 < d) (h : round neg n d = some y) :
    y.neg = neg ∧ y.mant < Nat.pow 2 53 ∧ minExp ≤ y.exp ∧ y.exp ≤ maxExp := by
  rcases n.eq_zero_or_pos with rfl | hn
  · obtain rfl := Option.some.inj ((round_zero neg d).symm.trans h)
    have hmax : minExp ≤ maxExp := by decide
    exact ⟨rfl, two_pow_pos 53, le_rfl, hmax⟩
  have hexp := minExp_le_roundExp n d
  have hmant := roundMant_le hn hd
  rw [round_of_pos neg hn] at h
  split at h <;> rename_i hmax
  · nomatch h
  split at h <;> rename_i hfull
  · obtain rfl := Option.some.inj h
    rw [carry, if_pos hfull] at hmax
    have hlt : Nat.pow 2 52 < Nat.pow 2 53 := by decide
    exact ⟨rfl, hlt, hexp.trans (lt_add_one _).le, not_lt.1 hmax⟩
  · obtain rfl := Option.some.inj h
    rw [carry, if_neg hfull, add_zero] at hmax
    exact ⟨rfl, lt_of_le_of_ne hmant hfull, hexp, not_lt.1 hmax⟩

theorem round_mono (hd : 0 < d) (hd' : 0 < d') (h : (n : ℚ) / d ≤ n' / d')
    (h' : round neg' n' d' = some y') :
    ∃ y, round neg n d = some y ∧ y.magnitude ≤ y'.magnitude := by
  rcases n.eq_zero_or_pos with rfl | hn
  · refine ⟨_, round_zero neg d, ?_⟩
    rw [magnitude, Nat.cast_zero, zero_mul]
    exact y'.magnitude_nonneg
  have hn' := pos_of_div_le hn hd h
  have hexp := roundExp_mono hn hd hd' h
  have hfull := roundMant_le hn hd
  have hfull' := roundMant_le hn' hd'
  have hcarry : roundExp n d + carry n d ≤ roundExp n' d' + carry n' d' := by
    rcases hexp.lt_or_eq with hlt | heq
    · unfold carry; split <;> split <;> omega
    · have hmant := roundMant_mono hd hd' h heq
      unfold carry; split <;> split <;> omega
  have hmag : (roundMant n d : ℚ) * (2 : ℚ) ^ roundExp n d
      ≤ roundMant n' d' * (2 : ℚ) ^ roundExp n' d' := by
    rcases hexp.lt_or_eq with hlt | heq
    · -- a full mantissa under the exponent after the smaller one lies between
      have hlow := le_roundMant hn' hd' (lt_of_le_of_lt (minExp_le_roundExp n d) hlt)
      calc (roundMant n d : ℚ) * (2 : ℚ) ^ roundExp n d
          ≤ (Nat.pow 2 53 : Nat) * (2 : ℚ) ^ roundExp n d := by
            gcongr
        _ = (Nat.pow 2 52 : Nat) * (2 : ℚ) ^ (roundExp n d + 1) := by
            rw [zpow_add₀ (by norm_num)]; norm_num; ring
        _ ≤ roundMant n' d' * (2 : ℚ) ^ roundExp n' d' := by
            gcongr
            · norm_num
            · omega
    · have hmant := roundMant_mono hd hd' h heq
      rw [heq]; gcongr
  have hsome : round neg n d ≠ none := by
    intro hnone
    rw [round_eq_none_iff neg hn] at hnone
    have hnone' := (round_eq_none_iff (d := d') neg' hn').2 (lt_of_lt_of_le hnone hcarry)
    rw [hnone'] at h'
    nomatch h'
  obtain ⟨y, hy⟩ := Option.ne_none_iff_exists'.1 hsome
  refine ⟨y, hy, ?_⟩
  rw [magnitude_of_round hn hy, magnitude_of_round hn' h']
  exact hmag

/-- Is the value at least zero? The negative zero is. -/
def Nonneg (x : Binary64) : Prop := x.neg = true → x.mant = 0

theorem nonneg_of_units {x : Binary64} (h : ¬ x.units < 0) : x.Nonneg := by
  intro hneg
  by_contra hmant
  apply h
  have hpos : 0 < x.mant * Nat.pow 2 (x.exp - minExp).toNat :=
    Nat.mul_pos (Nat.pos_of_ne_zero hmant) (two_pow_pos _)
  unfold units
  dsimp only
  rw [if_pos hneg]
  omega

theorem nonneg_of_round (hd : 0 < d) (h : round neg n d = some y) (hn : neg = true → n = 0) :
    y.Nonneg := by
  intro hneg
  rw [(bounds_of_round hd h).1] at hneg
  rw [hn hneg, round_zero] at h
  rw [← Option.some.inj h]

/-- The value in smallest steps, of a double that is not below zero. -/
theorem units_eq {x : Binary64} (h : x.Nonneg) :
    x.units = (x.mant * Nat.pow 2 (x.exp - minExp).toNat : Nat) := by
  unfold units
  dsimp only
  split <;> rename_i hneg
  · rw [h hneg, Nat.zero_mul]; rfl
  · rfl

theorem units_div {x : Binary64} (h : x.Nonneg) (hexp : minExp ≤ x.exp) :
    (x.units.toNat : ℚ) / (Nat.pow 2 (-minExp).toNat : Nat) = x.magnitude := by
  have h2 : (2 : ℚ) ≠ 0 := by norm_num
  have hpow (e : Int) (he : 0 ≤ e) : ((Nat.pow 2 e.toNat : Nat) : ℚ) = (2 : ℚ) ^ e := by
    rw [cast_two_pow_toNat, Int.toNat_of_nonpos (by omega)]; simp
  have hmin : (0 : Int) ≤ -minExp := by decide
  rw [units_eq h, Int.toNat_natCast, Nat.cast_mul, hpow _ (by omega), hpow _ hmin, magnitude,
    mul_div_assoc, ← zpow_sub₀ h2]
  congr 2
  omega

section Mul

variable {x x' z : Binary64}

theorem mul_ratio (x y : Binary64) :
    ((x.mant * y.mant * Nat.pow 2 (x.exp + y.exp).toNat : Nat) : ℚ)
      / (Nat.pow 2 (-(x.exp + y.exp)).toNat : Nat) = x.magnitude * y.magnitude := by
  have hpos : ((Nat.pow 2 (-(x.exp + y.exp)).toNat : Nat) : ℚ) ≠ 0 := by
    exact_mod_cast (two_pow_pos _).ne'
  rw [Nat.cast_mul, cast_two_pow_toNat, ← mul_assoc, mul_div_assoc, div_self hpos, mul_one,
    zpow_add₀ (by norm_num), magnitude, magnitude]
  push_cast
  ring

theorem bounds_of_mul (h : x.mul y = some z) : minExp ≤ z.exp ∧ z.exp ≤ maxExp :=
  (bounds_of_round (two_pow_pos _) h).2.2

theorem nonneg_of_mul (hx : x.Nonneg) (hy : y.Nonneg) (h : x.mul y = some z) : z.Nonneg := by
  refine nonneg_of_round (two_pow_pos _) h fun hneg => ?_
  have hzero : x.mant = 0 ∨ y.mant = 0 := by
    rcases hnx : x.neg with _ | _
    · rcases hny : y.neg with _ | _
      · rw [hnx, hny] at hneg; nomatch hneg
      · exact .inr (hy hny)
    · exact .inl (hx hnx)
  rcases hzero with hzero | hzero <;> simp [hzero]

theorem mul_mono (hy : y.magnitude ≤ y'.magnitude) (h : x.mul y' = some z) :
    ∃ w, x.mul y = some w ∧ w.magnitude ≤ z.magnitude := by
  refine round_mono (two_pow_pos _) (two_pow_pos _) ?_ h
  rw [mul_ratio, mul_ratio]
  exact mul_le_mul_of_nonneg_left hy x.magnitude_nonneg

end Mul

theorem ofNat_nonneg (k : Nat) : (ofInt k).Nonneg := by
  have hneg : decide ((k : Int) < 0) = false := by simp
  unfold ofInt
  dsimp only
  rw [hneg]
  rcases h : round false (k : Int).natAbs 1 with _ | y
  · exact fun h => nomatch h
  · exact nonneg_of_round one_pos h fun h => nomatch h

theorem magnitude_le_largest (hm : y.mant < Nat.pow 2 53) (he : y.exp ≤ maxExp) :
    y.magnitude ≤ (largest neg).magnitude := by
  have hmant : y.mant ≤ Nat.pow 2 53 - 1 := by omega
  unfold magnitude largest
  dsimp only
  gcongr
  norm_num

theorem magnitude_ofNat_mono {j k : Nat} (h : j ≤ k) :
    (ofInt j).magnitude ≤ (ofInt k).magnitude := by
  have hle : (((j : Int).natAbs : Nat) : ℚ) / (1 : Nat) ≤ ((k : Int).natAbs : Nat) / (1 : Nat) := by
    rw [Int.natAbs_natCast, Int.natAbs_natCast]
    gcongr
  unfold ofInt
  dsimp only
  rcases hk : round (decide ((k : Int) < 0)) (k : Int).natAbs 1 with _ | z
  · rcases hj : round (decide ((j : Int) < 0)) (j : Int).natAbs 1 with _ | y
    · exact le_of_eq rfl
    · obtain ⟨-, hm, -, he⟩ := bounds_of_round one_pos hj
      exact magnitude_le_largest hm he
  · obtain ⟨y, hj, hyz⟩ : ∃ y, round (decide ((j : Int) < 0)) (j : Int).natAbs 1 = some y ∧
        y.magnitude ≤ z.magnitude := round_mono one_pos one_pos hle hk
    rw [hj]
    exact hyz

/-- A time in seconds is one of billionths as long as it lies below `2 ^ 64`. -/
theorem toNanos_eq {x : Binary64} (h : x.Nonneg) (hexp : minExp ≤ x.exp) :
    x.toNanos = if x.magnitude < 2 ^ 64 then
      some (roundDiv (x.units.toNat * 1000000000) (Nat.pow 2 (-minExp).toNat)) else none := by
  have hunits : ¬ x.units < 0 := by rw [units_eq h]; omega
  have hunit : (0 : ℚ) < (Nat.pow 2 (-minExp).toNat : Nat) := by exact_mod_cast two_pow_pos _
  have hcast : ((Nat.pow 2 64 : Nat) : ℚ) = 2 ^ 64 := by norm_num
  have hiff : x.units.toNat < Nat.pow 2 64 * Nat.pow 2 (-minExp).toNat ↔ x.magnitude < 2 ^ 64 := by
    rw [← units_div h hexp, div_lt_iff₀ hunit, ← Nat.cast_lt (α := ℚ), Nat.cast_mul, hcast]
  unfold toNanos
  rw [if_neg hunits]
  dsimp only
  by_cases hlt : x.magnitude < 2 ^ 64
  · rw [if_pos (hiff.2 hlt), if_pos hlt]
  · rw [if_neg fun hu => hlt (hiff.1 hu), if_neg hlt]

theorem toNanos_mono {x : Binary64} (hx : x.Nonneg) (hxe : minExp ≤ x.exp) (hy : y.Nonneg)
    (hye : minExp ≤ y.exp) (hxy : x.magnitude ≤ y.magnitude) {b : Nat} (h : y.toNanos = some b) :
    ∃ a, x.toNanos = some a ∧ a ≤ b := by
  have hunit : (0 : ℚ) < (Nat.pow 2 (-minExp).toNat : Nat) := by exact_mod_cast two_pow_pos _
  rw [toNanos_eq hy hye] at h
  split at h <;> rename_i hlt
  · rw [toNanos_eq hx hxe, if_pos (hxy.trans_lt hlt)]
    refine ⟨_, rfl, ?_⟩
    rw [← Option.some.inj h]
    refine roundDiv_mono (two_pow_pos _) (two_pow_pos _) ?_
    rw [Nat.cast_mul, Nat.cast_mul, mul_div_right_comm, mul_div_right_comm, units_div hx hxe,
      units_div hy hye]
    gcongr
  · nomatch h

end Binary64

end StepFlow
