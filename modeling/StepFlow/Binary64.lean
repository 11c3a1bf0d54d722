/-!
# Finite binary64 numbers

A finite double is `±mant · 2 ^ exp`, kept in exact integers: every operation computes the exact
rational result and rounds it once, to the nearest double, an exact half to the even neighbour
(`round`). Comparison goes through `units`, the value counted in the smallest step `2 ^ -1074`, so
that order and equality of doubles are order and equality of integers.
-/

namespace StepFlow

/-- The nearest integer to `n / d`, an exact half going to the even neighbour. -/
def roundDiv (n d : Nat) : Nat :=
  let q := n / d
  if 2 * (n % d) < d ∨ (2 * (n % d) = d ∧ q % 2 = 0) then q else q + 1

/-- A finite double with value `±mant · 2 ^ exp`. -/
structure Binary64 where
  neg : Bool
  mant : Nat
  exp : Int
  deriving DecidableEq, Repr, Inhabited

namespace Binary64

/-- The exponent of the smallest step between doubles. -/
def minExp : Int := -1074

/-- The exponent of the largest doubles. -/
def maxExp : Int := 971

/-- The one form in which a double is stored: a full mantissa unless the exponent is the least. -/
def Canonical (x : Binary64) : Prop :=
  x.mant < Nat.pow 2 53 ∧ minExp ≤ x.exp ∧ x.exp ≤ maxExp ∧ (Nat.pow 2 52 ≤ x.mant ∨ x.exp = minExp)

instance (x : Binary64) : Decidable x.Canonical := by unfold Canonical; infer_instance

def zero : Binary64 := ⟨false, 0, minExp⟩

/-- The largest double of either sign. -/
def largest (neg : Bool) : Binary64 := ⟨neg, Nat.pow 2 53 - 1, maxExp⟩

def negate (x : Binary64) : Binary64 := { x with neg := !x.neg }

/-- The value as a whole number of steps of `2 ^ minExp`. -/
def units (x : Binary64) : Int :=
  let magnitude : Int := (x.mant * Nat.pow 2 (x.exp - minExp).toNat : Nat)
  if x.neg then -magnitude else magnitude

/-- The order of the values; the two zeros are equal. -/
def cmp (x y : Binary64) : Ordering := compare x.units y.units

/-- Equality of the values; the two zeros are equal. -/
def same (x y : Binary64) : Bool := x.units == y.units

/-- The largest `e` with `2 ^ e ≤ n / d`, for positive `n` and `d`. -/
def floorLog2 (n d : Nat) : Int :=
  let e : Int := (n.log2 : Int) - d.log2
  if d * Nat.pow 2 e.toNat ≤ n * Nat.pow 2 (-e).toNat then e else e - 1

/-- The double nearest to `±n / d`, ties to the even mantissa; `none` beyond the largest double. -/
def round (neg : Bool) (n d : Nat) : Option Binary64 :=
  if n = 0 then some ⟨neg, 0, minExp⟩
  else
    let e := max (floorLog2 n d - 52) minExp
    let m := roundDiv (n * Nat.pow 2 (-e).toNat) (d * Nat.pow 2 e.toNat)
    let (m, e) := if m = Nat.pow 2 53 then (Nat.pow 2 52, e + 1) else (m, e)
    if maxExp < e then none else some ⟨neg, m, e⟩

/-- The double nearest to an integer, stopping at the largest double. -/
def ofInt (i : Int) : Binary64 :=
  let neg := decide (i < 0)
  (round neg i.natAbs 1).getD (largest neg)

/-- The rounded product; `none` when it overflows. -/
def mul (x y : Binary64) : Option Binary64 :=
  let e := x.exp + y.exp
  round (x.neg != y.neg) (x.mant * y.mant * Nat.pow 2 e.toNat) (Nat.pow 2 (-e).toNat)

/-- The rounded quotient by a divisor other than zero; `none` when it overflows. -/
def div (x y : Binary64) : Option Binary64 :=
  let e := x.exp - y.exp
  round (x.neg != y.neg) (x.mant * Nat.pow 2 e.toNat) (y.mant * Nat.pow 2 (-e).toNat)

/-- The rounded sum; `none` when it overflows. -/
def add (x y : Binary64) : Option Binary64 :=
  let sum := x.units + y.units
  round (decide (sum < 0)) sum.natAbs (Nat.pow 2 (-minExp).toNat)

/-- The double nearest to `10 ^ k`, for `k ≤ 308`. -/
def tenPow (k : Nat) : Binary64 := (round false (Nat.pow 10 k) 1).getD (largest false)

/-- The value in billionths, rounded to the nearest whole number, a half to the even one; `none`
for values below zero and from `2 ^ 64` on. -/
def toNanos (x : Binary64) : Option Nat :=
  if x.units < 0 then none
  else
    let unit := Nat.pow 2 (-minExp).toNat
    let nanos := roundDiv (x.units.toNat * 1000000000) unit
    if x.units.toNat < Nat.pow 2 64 * unit then some nanos else none

end Binary64

end StepFlow
