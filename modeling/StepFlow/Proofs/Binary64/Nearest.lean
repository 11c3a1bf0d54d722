import StepFlow.Proofs.Binary64.Round

/-!
# The double nearest to an integer

An integer is rounded to a double at the least possible distance, and of two doubles at that
distance to the one with the even mantissa. The step between the doubles around the integer is a power of
two that has at least `2 ^ 52` steps below the integer: doubles with a larger exponent are multiples of that step
too, and those with a smaller one lie below all candidates.
-/

namespace StepFlow

variable {n d : Nat}

theorem roundDiv_congr {n' d' : Nat} (hd : 0 < d) (hd' : 0 < d') (h : (n : ℚ) / d = n' / d') :
    roundDiv n d = roundDiv n' d' :=
  le_antisymm (roundDiv_mono hd hd' h.le) (roundDiv_mono hd' hd h.ge)

/-- No multiple of the divisor is closer, and another one is as close only if the quotient is even. -/
theorem roundDiv_closest (hd : 0 < d) (n j : Nat) :
    (((roundDiv n d * d : Nat) : Int) - n).natAbs ≤ (((j * d : Nat) : Int) - n).natAbs ∧
    (j ≠ roundDiv n d → (((j * d : Nat) : Int) - n).natAbs = (((roundDiv n d * d : Nat) : Int) - n).natAbs →
      roundDiv n d % 2 = 0) := by
  have hn := Nat.div_add_mod n d
  have hrem := Nat.mod_lt n hd
  have hnext : (n / d + 1) * d = n / d * d + d := Nat.succ_mul ..
  rw [Nat.mul_comm] at hn
  have hj : j = n / d ∨ j = n / d + 1 ∨ j * d + d ≤ n / d * d ∨ n / d * d + 2 * d ≤ j * d := by
    rcases lt_trichotomy j (n / d) with hlt | heq | hgt
    · have := Nat.mul_le_mul_right d (Nat.succ_le_of_lt hlt)
      rw [Nat.succ_mul] at this
      exact .inr (.inr (.inl this))
    · exact .inl heq
    · rcases Nat.eq_or_lt_of_le (Nat.succ_le_of_lt hgt) with heq | hgt'
      · exact .inr (.inl heq.symm)
      · have := Nat.mul_le_mul_right d (Nat.succ_le_of_lt hgt')
        rw [Nat.succ_mul, Nat.succ_mul] at this
        exact .inr (.inr (.inr (by omega)))
  unfold roundDiv
  dsimp only
  generalize n / d = q at *
  rcases hj with rfl | rfl | hj | hj <;> split <;> constructor <;> omega

/-- A rounded quotient is off by half a divisor at most. -/
theorem roundDiv_near (hd : 0 < d) (n : Nat) : 2 * (((roundDiv n d * d : Nat) : Int) - n).natAbs ≤ d := by
  have hn := Nat.div_add_mod n d
  have hrem := Nat.mod_lt n hd
  have hnext : (n / d + 1) * d = n / d * d + d := Nat.succ_mul ..
  rw [Nat.mul_comm] at hn
  unfold roundDiv
  dsimp only
  split <;> omega

namespace Binary64

/-- One is this power of two of the smallest steps. -/
def unitExp : Nat := (-minExp).toNat

/-- The smallest steps in one. -/
def unit : Nat := 2 ^ unitExp

/-- The absolute value in smallest steps. -/
def steps (x : Binary64) : Nat := x.mant * 2 ^ (x.exp - minExp).toNat

theorem units_eq_steps (x : Binary64) : x.units = if x.neg then -(x.steps : Int) else x.steps := rfl

/-- How far a double is from an integer, in smallest steps. -/
def distance (x : Binary64) (i : Int) : Nat := (x.units - i * unit).natAbs

/-- The double nearest to the integer, of two such doubles the one with the even mantissa. -/
structure Nearest (x : Binary64) (i : Int) : Prop where
  canonical : x.Canonical
  closest : ∀ y : Binary64, y.Canonical → x.distance i ≤ y.distance i
  even : ∀ y : Binary64, y.Canonical → y.units ≠ x.units → y.distance i = x.distance i → x.mant % 2 = 0

theorem unitExp_eq : (unitExp : Int) = -minExp := rfl

theorem unit_pos : 0 < unit := Nat.two_pow_pos _

/-! ### The step between the doubles around an integer -/

theorem floorLog2_one (hn : 0 < n) : floorLog2 n 1 = n.log2 := by
  have hlog : Nat.log2 1 = 0 := by decide
  have hle : Nat.pow 2 n.log2 ≤ n := Nat.log2_self_le hn.ne'
  have hpow : Nat.pow 2 (-(n.log2 : Int)).toNat = 1 := by
    rw [Int.toNat_of_nonpos (by omega), Nat.pow_eq, pow_zero]
  unfold floorLog2
  dsimp only
  rw [hlog, Int.natCast_zero, Int.sub_zero, Int.toNat_natCast, hpow, one_mul, mul_one, if_pos hle]

theorem roundExp_one (hn : 0 < n) : roundExp n 1 = n.log2 - 52 := by
  have hmin : minExp = -1074 := rfl
  rw [roundExp, floorLog2_one hn]
  omega

/-- The steps between doubles at an integer are this power of two of the smallest ones. -/
def stepExp (n : Nat) : Nat := (roundExp n 1 - minExp).toNat

def stepAt (n : Nat) : Nat := 2 ^ stepExp n

theorem stepAt_pos (n : Nat) : 0 < stepAt n := Nat.two_pow_pos _

theorem stepExp_eq (hn : 0 < n) : 52 + stepExp n = n.log2 + unitExp := by
  have hmin : minExp = -1074 := rfl
  have hunit := unitExp_eq
  rw [stepExp, roundExp_one hn]
  omega

theorem roundMant_one (n : Nat) : roundMant n 1 = roundDiv (n * unit) (stepAt n) := by
  refine roundDiv_congr (Nat.mul_pos one_pos (two_pow_pos _)) (stepAt_pos n) ?_
  have h2 : (2 : ℚ) ≠ 0 := by norm_num
  have hexp : ((stepExp n : Nat) : Int) = roundExp n 1 + unitExp := by
    have hmin := minExp_le_roundExp n 1
    rw [stepExp, unitExp_eq, Int.toNat_of_nonneg (by omega)]
    omega
  rw [scaled_div, unit, stepAt, Nat.cast_mul, Nat.cast_pow, Nat.cast_pow, Nat.cast_one, div_one,
    Nat.cast_ofNat, ← zpow_natCast, ← zpow_natCast (2 : ℚ) (stepExp n), hexp, zpow_add₀ h2,
    mul_div_mul_right _ _ (zpow_ne_zero _ h2)]

/-- At least `2 ^ 52` steps lie below the integer. -/
theorem le_mul_unit (hn : 0 < n) : 2 ^ 52 * stepAt n ≤ n * unit := by
  have hle : 2 ^ n.log2 ≤ n := Nat.log2_self_le hn.ne'
  calc 2 ^ 52 * stepAt n = 2 ^ n.log2 * unit := by
        rw [unit, stepAt, ← pow_add, ← pow_add, stepExp_eq hn]
    _ ≤ n * unit := Nat.mul_le_mul_right _ hle

theorem steps_of_round {neg : Bool} {y : Binary64} (hn : 0 < n) (h : round neg n 1 = some y) :
    y.steps = roundDiv (n * unit) (stepAt n) * stepAt n ∧
      (roundDiv (n * unit) (stepAt n) % 2 = 0 → y.mant % 2 = 0) := by
  rw [round_of_pos neg hn, roundMant_one n] at h
  split at h
  · nomatch h
  split at h <;> rename_i hfull
  · obtain rfl := Option.some.inj h
    have hnext : (roundExp n 1 + 1 - minExp).toNat = stepExp n + 1 := by
      have hmin := minExp_le_roundExp n 1
      rw [stepExp]; omega
    have heven : Nat.pow 2 52 % 2 = 0 := by decide
    refine ⟨?_, fun _ => heven⟩
    rw [steps, hnext, hfull, stepAt, pow_succ, ← mul_assoc, mul_right_comm]
    rfl
  · obtain rfl := Option.some.inj h
    exact ⟨rfl, id⟩

theorem canonical_of_round {neg : Bool} {y : Binary64} (hn : 0 < n) (h : round neg n 1 = some y) :
    y.Canonical := by
  obtain ⟨-, hmant, hmin, hmax⟩ := bounds_of_round one_pos h
  refine ⟨hmant, hmin, hmax, .inl ?_⟩
  have hexp : minExp < roundExp n 1 := by
    have : minExp = -1074 := rfl
    rw [roundExp_one hn]; omega
  have hfull := le_roundMant hn one_pos hexp
  rw [round_of_pos neg hn] at h
  split at h
  · nomatch h
  split at h
  · obtain rfl := Option.some.inj h
    exact le_rfl
  · obtain rfl := Option.some.inj h
    exact hfull

/-- Every double is a multiple of the step at the integer, or lies below all those around the integer. -/
theorem multiple_or_below {y : Binary64} (hy : y.mant < Nat.pow 2 53) (n : Nat) :
    (∃ j, y.steps = j * stepAt n) ∨ y.steps < 2 ^ 52 * stepAt n := by
  unfold steps stepAt
  rcases le_or_gt (stepExp n) (y.exp - minExp).toNat with hle | hlt
  · refine .inl ⟨y.mant * 2 ^ ((y.exp - minExp).toNat - stepExp n), ?_⟩
    rw [mul_assoc, ← pow_add, Nat.sub_add_cancel hle]
  · right
    calc y.mant * 2 ^ (y.exp - minExp).toNat < 2 ^ 53 * 2 ^ (y.exp - minExp).toNat :=
          Nat.mul_lt_mul_of_pos_right hy (Nat.two_pow_pos _)
      _ = 2 ^ (53 + (y.exp - minExp).toNat) := (pow_add ..).symm
      _ ≤ 2 ^ (52 + stepExp n) := Nat.pow_le_pow_right two_pos (by omega)
      _ = 2 ^ 52 * stepAt n := pow_add ..

/-- No double is closer in absolute value, and another one is as close only if the quotient is even. -/
theorem steps_closest (hn : 0 < n) {x y : Binary64}
    (hx : x.steps = roundDiv (n * unit) (stepAt n) * stepAt n) (hy : y.mant < Nat.pow 2 53) :
    ((x.steps : Int) - (n * unit : Nat)).natAbs ≤ ((y.steps : Int) - (n * unit : Nat)).natAbs ∧
    (y.steps ≠ x.steps →
      ((y.steps : Int) - (n * unit : Nat)).natAbs = ((x.steps : Int) - (n * unit : Nat)).natAbs →
        roundDiv (n * unit) (stepAt n) % 2 = 0) := by
  have hclosest := roundDiv_closest (stepAt_pos n) (n * unit)
  rw [← hx] at hclosest
  rcases multiple_or_below hy n with ⟨j, hj⟩ | hbelow
  · rw [hj]
    refine ⟨(hclosest j).1, fun hne heq => (hclosest j).2 (fun h => hne ?_) heq⟩
    rw [h, hx]
  · -- the least multiple around the integer lies between
    have hleast := (hclosest (2 ^ 52)).1
    have hle := le_mul_unit hn
    have hlt : ((x.steps : Int) - (n * unit : Nat)).natAbs < ((y.steps : Int) - (n * unit : Nat)).natAbs := by
      clear hclosest hx
      generalize n * unit = N at *
      generalize 2 ^ 52 * stepAt n = least at *
      omega
    exact ⟨hlt.le, fun _ heq => absurd heq hlt.ne'⟩

/-! ### Signs -/

/-- The distance from a double of the integer's own sign, and from one of the other. -/
theorem distance_eq (y : Binary64) (i : Int) : y.distance i =
    if y.neg = decide (i < 0) then ((y.steps : Int) - (i.natAbs * unit : Nat)).natAbs
    else y.steps + i.natAbs * unit := by
  unfold distance
  rw [units_eq_steps]
  rcases Int.lt_or_le i 0 with hi | hi
  · have hmul : i * unit = -((i.natAbs * unit : Nat) : Int) := by
      rw [Nat.cast_mul, Int.ofNat_natAbs_of_nonpos hi.le, Int.neg_mul, Int.neg_neg]
    rw [hmul, decide_eq_true hi]
    cases y.neg <;> simp only [Bool.false_eq_true, if_true, if_false] <;> omega
  · have hmul : i * unit = ((i.natAbs * unit : Nat) : Int) := by
      rw [Nat.cast_mul, Int.natAbs_of_nonneg hi]
    rw [hmul, decide_eq_false (Int.not_lt.2 hi)]
    cases y.neg <;> simp only [Bool.true_eq_false, Bool.false_eq_true, if_true, if_false]
    omega

/-! ### Integers of 64 bits -/

theorem log2_lt (hn : 0 < n) (h : n < 2 ^ 64) : n.log2 < 64 := (Nat.log2_lt hn.ne').2 h

theorem ofInt_eq (i : Int) (hi : i ≠ 0) (h : i.natAbs < 2 ^ 64) :
    round (decide (i < 0)) i.natAbs 1 = some (ofInt i) := by
  have hpos : 0 < i.natAbs := Int.natAbs_pos.2 hi
  have hlog := log2_lt hpos h
  have hcarry : carry i.natAbs 1 ≤ 1 := by unfold carry; split <;> omega
  have hmax : maxExp = 971 := rfl
  obtain ⟨y, hy⟩ : ∃ y, round (decide (i < 0)) i.natAbs 1 = some y := by
    rw [← Option.ne_none_iff_exists', ne_eq, round_eq_none_iff _ hpos, roundExp_one hpos]
    omega
  unfold ofInt
  dsimp only
  rw [hy]
  rfl

theorem distance_zero : (ofInt 0).distance 0 = 0 := by
  rw [distance, Int.zero_mul]
  rfl

theorem nearest_zero : (ofInt 0).Nearest 0 where
  canonical := by decide
  closest y _ := by
    rw [distance_zero]
    exact Nat.zero_le _
  even _ _ _ _ := rfl

theorem nearest_ofInt {i : Int} (h : i.natAbs < 2 ^ 64) : (ofInt i).Nearest i := by
  by_cases hi : i = 0
  · rw [hi]
    exact nearest_zero
  have hpos : 0 < i.natAbs := Int.natAbs_pos.2 hi
  have hround := ofInt_eq i hi h
  obtain ⟨hsteps, hmant⟩ := steps_of_round hpos hround
  have hunit : 0 < i.natAbs * unit := Nat.mul_pos hpos unit_pos
  have hneg := (bounds_of_round one_pos hround).1
  have hdist := distance_eq (ofInt i) i
  rw [if_pos hneg] at hdist
  refine ⟨canonical_of_round hpos hround, fun y hy => ?_, fun y hy hne heq => hmant ?_⟩
  · obtain ⟨hclosest, -⟩ := steps_closest hpos hsteps hy.1
    rw [hdist, distance_eq y i]
    split
    · exact hclosest
    · omega
  · obtain ⟨hclosest, heven⟩ := steps_closest hpos hsteps hy.1
    rw [hdist, distance_eq y i] at heq
    split at heq <;> rename_i hsign
    · refine heven (fun hsame => hne ?_) heq
      rw [units_eq_steps, units_eq_steps, hsame, hsign, hneg]
    · refine heven (fun hsame => hne ?_) (by omega)
      have hzero : y.steps = 0 := by omega
      rw [units_eq_steps, units_eq_steps, ← hsame, hzero]
      simp

/-! ### What follows of values and order -/

variable {x y : Binary64} {i j : Int}

/-- An integer that is a double is its own nearest double. -/
theorem Nearest.units_eq (h : x.Nearest i) (hy : y.Canonical) (hvalue : y.units = i * unit) :
    x.units = i * unit := by
  have hclosest := h.closest y hy
  unfold distance at hclosest
  rw [hvalue] at hclosest
  omega

/-- A larger integer has no smaller nearest double: both would lie in the middle between the two. -/
theorem Nearest.units_le (hx : x.Nearest i) (hy : y.Nearest j) (hij : i < j) : x.units ≤ y.units := by
  have hcloseX := hx.closest y hy.canonical
  have hcloseY := hy.closest x hx.canonical
  have hmul : i * unit < j * unit := Int.mul_lt_mul_of_pos_right hij (Int.natCast_pos.2 unit_pos)
  unfold distance at hcloseX hcloseY
  omega

/-- How far a nearest double is in terms of the step at the integer. -/
theorem distance_ofInt_eq (hi : i ≠ 0) (h : i.natAbs < 2 ^ 64) : (ofInt i).distance i =
    (((roundDiv (i.natAbs * unit) (stepAt i.natAbs) * stepAt i.natAbs : Nat) : Int)
      - (i.natAbs * unit : Nat)).natAbs := by
  have hround := ofInt_eq i hi h
  rw [distance_eq, if_pos (bounds_of_round one_pos hround).1,
    (steps_of_round (Int.natAbs_pos.2 hi) hround).1]

/-- Integers up to `2 ^ 53` are doubles. -/
theorem units_ofInt (h : i.natAbs ≤ 2 ^ 53) : (ofInt i).units = i * unit := by
  have hdist : (ofInt i).distance i = 0 := by
    by_cases hi : i = 0
    · rw [hi, distance_zero]
    have hpos : 0 < i.natAbs := Int.natAbs_pos.2 hi
    have hexp := stepExp_eq hpos
    have hdvd : stepAt i.natAbs ∣ i.natAbs * unit := by
      rcases h.lt_or_eq with hlt | heq
      · have hlog := (Nat.log2_lt hpos.ne').2 hlt
        exact Dvd.dvd.mul_left (pow_dvd_pow 2 (by omega)) _
      · have hlog : i.natAbs.log2 = 53 := by rw [heq, Nat.log2_two_pow]
        have hstep : stepExp i.natAbs = unitExp + 1 := by omega
        rw [stepAt, hstep, heq, unit, ← pow_add]
        exact pow_dvd_pow 2 (by omega)
    obtain ⟨k, hk⟩ := hdvd
    rw [distance_ofInt_eq hi (by omega), hk, Nat.mul_comm (stepAt _), roundDiv_mul_self k (stepAt_pos _)]
    omega
  unfold distance at hdist
  omega

/-- An integer of 64 bits is at most `2 ^ 10` away from its nearest double. -/
theorem distance_ofInt_le (h : i.natAbs < 2 ^ 64) : (ofInt i).distance i ≤ 2 ^ 10 * unit := by
  by_cases hi : i = 0
  · rw [hi, distance_zero]
    exact Nat.zero_le _
  have hpos : 0 < i.natAbs := Int.natAbs_pos.2 hi
  have hnear := roundDiv_near (stepAt_pos i.natAbs) (i.natAbs * unit)
  have hstep : stepAt i.natAbs ≤ 2 ^ 11 * unit := by
    have hexp := stepExp_eq hpos
    have hlog := log2_lt hpos h
    rw [unit, stepAt, ← pow_add]
    exact pow_le_pow_right₀ one_le_two (by omega)
  rw [distance_ofInt_eq hi h]
  omega

end Binary64

end StepFlow
