import StepFlow.Document

/-!
# Numerals

The value of a number written in decimal. A numeral without fraction and exponent that fits a
64-bit word is an integer. Every other one is a double, computed from the longest run of leading
digits that fits an unsigned word: its double is multiplied or divided by a power of ten, so the
last bit may differ from that of the nearest double. A value beyond the largest double has none.
-/

namespace StepFlow

/-- A number as written: sign, digits before and after the point, power of ten. -/
structure Numeral where
  neg : Bool
  whole : List Nat
  fraction : List Nat
  exponent : Option Int
  deriving Repr, Inhabited

namespace Numeral

/-- The largest unsigned word. -/
def maxWord : Nat := Nat.pow 2 64 - 1

/-- Takes digits as long as the number stays a word; the rest is left over. -/
def accumulate (significand : Nat) : List Nat → Nat × List Nat
  | [] => (significand, [])
  | d :: rest =>
    if significand * 10 + d ≤ maxWord then accumulate (significand * 10 + d) rest
    else (significand, d :: rest)

/-- The double `x · 10 ^ e` by one multiplication, or by divisions by at most `10 ^ 308` each. -/
def scale (x : Binary64) (e : Int) : Option Binary64 :=
  if x.mant = 0 then some x
  else if 0 ≤ e then
    if e ≤ 308 then x.mul (.tenPow e.toNat) else none
  else if -308 ≤ e then x.div (.tenPow (-e).toNat)
  else
    match x.div (.tenPow 308) with
    | some y => scale y (e + 308)
    | none => none
termination_by (-e).toNat

/-- The double of `significand · 10 ^ e`, with a sign. -/
def toBinary64 (neg : Bool) (significand : Nat) (e : Int) : Option Binary64 :=
  (scale (.ofInt significand) e).map fun x => if neg then x.negate else x

/-- The number, unless it is beyond the range of doubles. -/
def value? (n : Numeral) : Option Number :=
  let (significand, left) := accumulate 0 n.whole
  if n.fraction = [] ∧ n.exponent = none ∧ left = [] then
    if n.neg then
      if 0 < significand ∧ significand ≤ Nat.pow 2 63 then some (.int (-significand))
      else some (.float (Binary64.ofInt significand).negate)
    else some (.int significand)
  else
    let (all, dropped) := accumulate significand n.fraction
    let used := n.fraction.length - dropped.length
    let e : Int := (left.length : Int) - used + n.exponent.getD 0
    (toBinary64 n.neg all e).map .float

end Numeral

end StepFlow
