import StepFlow.Binary64

/-!
# Shortest decimals

`shortest half x` is the decimal with the fewest digits among those that round to the double `x`,
and of these the nearest to it; where two are equally near, `half` decides. A double stands for the interval of reals that round to it, with its ends
when the mantissa is even; for `p = 1, 2, …` digits the two neighbours of the value on the grid of
`p`-digit decimals are tested, since when any point of the grid lies in the interval, one of the two
neighbours does. Seventeen digits always suffice.

`render` lays the digits out: positional from `1e-5` to below `1e16`, always with a decimal point,
and in exponent form outside; of two equally near decimals it writes the even one. `renderPlain` has
no exponents, and writes the greater one.
-/

namespace StepFlow.Binary64

/-- A positive decimal `digits · 10 ^ exp`. -/
structure Decimal where
  digits : Nat
  exp : Int
  deriving DecidableEq, Repr, Inhabited

/-- Which of two neighbours on a grid stands for a value half way between them. -/
inductive HalfWay where
  | even
  | above
  deriving DecidableEq, Repr, Inhabited

/-- Does a value half way between `t` and `t + 1` go to `t`? -/
def HalfWay.isBelow (half : HalfWay) (t : Nat) : Bool :=
  match half with
  | even => t % 2 == 0
  | above => false

/-- The decimal digits of a natural number. -/
def digitsOf (n : Nat) : List Char := Nat.toDigits 10 n

/-- The largest `k ≥ -400` with `10 ^ k ≤ n / d`. -/
def floorLog10 (n d : Nat) : Int :=
  ((digitsOf (n * Nat.pow 10 400 / d)).length : Int) - 401

/-- The interval of reals that round to a double, in quarters of its last place: below, value,
above. A power of two has a nearer neighbour below. -/
def interval (x : Binary64) : Nat × Nat × Nat :=
  let below := if x.mant = Nat.pow 2 52 ∧ minExp < x.exp then 1 else 2
  (4 * x.mant - below, 4 * x.mant, 4 * x.mant + 2)

/-- Drops final zeros from the digits. -/
def Decimal.trim (d : Decimal) : Nat → Decimal
  | 0 => d
  | fuel + 1 =>
    if d.digits % 10 = 0 ∧ d.digits ≠ 0 then Decimal.trim ⟨d.digits / 10, d.exp + 1⟩ fuel else d

/-- The nearest decimal with `p` digits that rounds to `x`, when there is one. -/
def atPrecision (half : HalfWay) (x : Binary64) (p : Nat) : Option Decimal :=
  let e := x.exp - 2
  let (lo, v, hi) := interval x
  -- the value is `v · num / den`
  let num := Nat.pow 2 e.toNat
  let den := Nat.pow 2 (-e).toNat
  let k := floorLog10 (v * num) den - p + 1
  -- a grid point `t` is `t · gridNum / gridDen`
  let gridNum := Nat.pow 10 k.toNat
  let gridDen := Nat.pow 10 (-k).toNat
  let scaled (t : Nat) := t * gridNum * den
  let bound (b : Nat) := b * num * gridDen
  let inside (t : Nat) : Bool :=
    if x.mant % 2 = 0 then bound lo ≤ scaled t && scaled t ≤ bound hi
    else bound lo < scaled t && scaled t < bound hi
  let t := bound v / (gridNum * den)
  match inside t, inside (t + 1) with
  | true, true =>
    match compare (bound v - scaled t) (scaled (t + 1) - bound v) with
    | .lt => some ⟨t, k⟩
    | .eq => some (if half.isBelow t then ⟨t, k⟩ else ⟨t + 1, k⟩)
    | .gt => some ⟨t + 1, k⟩
  | true, false => some ⟨t, k⟩
  | false, true => some ⟨t + 1, k⟩
  | false, false => none

/-- The shortest decimal that rounds to the magnitude of `x`, which must not be zero. -/
def shortest (half : HalfWay) (x : Binary64) : Decimal :=
  let found := (List.range 17).findSome? fun p => atPrecision half x (p + 1)
  (found.getD ⟨x.mant, x.exp⟩).trim 20

/-- Digits with a point after the first one, when more follow. -/
def pointed : List Char → List Char
  | d :: e :: rest => d :: '.' :: e :: rest
  | ds => ds

/-- The layout of a decimal: positional for leading exponents from -5 to 15. -/
def Decimal.layout (d : Decimal) : List Char :=
  let ds := digitsOf d.digits
  let lead : Int := d.exp + ds.length - 1
  if -5 ≤ lead ∧ lead ≤ 15 then
    if lead < 0 then
      '0' :: '.' :: List.replicate (-lead - 1).toNat '0' ++ ds
    else
      let whole := (lead + 1).toNat
      if ds.length ≤ whole then
        ds ++ List.replicate (whole - ds.length) '0' ++ ['.', '0']
      else ds.take whole ++ '.' :: ds.drop whole
  else
    pointed ds ++ 'e' :: (if lead < 0 then '-' else '+') :: digitsOf lead.natAbs

/-- The digits in full, with a point only before a fraction. -/
def Decimal.plain (d : Decimal) : List Char :=
  let ds := digitsOf d.digits
  let whole := d.exp + ds.length
  if 0 ≤ d.exp then ds ++ List.replicate d.exp.toNat '0'
  else if 0 < whole then ds.take whole.toNat ++ '.' :: ds.drop whole.toNat
  else '0' :: '.' :: List.replicate (-whole).toNat '0' ++ ds

/-- The text of a double without exponent. -/
def renderPlain (x : Binary64) : String :=
  let magnitude := if x.mant = 0 then ['0'] else (x.shortest .above).plain
  String.ofList (if x.neg then '-' :: magnitude else magnitude)

/-- The text of a double: its shortest decimal, with a sign for negative values and negative zero. -/
def render (x : Binary64) : String :=
  let magnitude := if x.mant = 0 then ['0', '.', '0'] else (x.shortest .even).layout
  String.ofList (if x.neg then '-' :: magnitude else magnitude)

end StepFlow.Binary64
