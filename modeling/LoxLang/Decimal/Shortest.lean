import LoxLang.Decimal.Binary

/-!
The fewest decimal digits that read back as a given double. The digits are those of a point on
the coarsest grid `10 ^ k` that meets the interval of reals rounding to the double.
-/

namespace LoxLang.Decimal

/-- The decimal number `coefficient * 10 ^ exponent`. -/
structure Scaled where
  coefficient : Nat
  exponent : Int
  deriving DecidableEq, Repr

/-- Which of two equally near decimals is taken. -/
inductive Tie where
  | up
  | toEven
  deriving DecidableEq, Repr

/-- The reals that round to a double, as multiples of `2 ^ unit`. The ends belong to the
interval when the double's mantissa is even. -/
structure Interval where
  lower : Nat
  centre : Nat
  upper : Nat
  unit : Int
  closed : Bool
  deriving DecidableEq, Repr

namespace Interval

/-- Halfway to each neighbour. Below a power of two the neighbour is half as far away. -/
def around (v : Dyadic) : Interval where
  lower :=
    if v.mantissa = Nat.pow 2 52 ∧ Dyadic.leastExponent < v.exponent then 4 * v.mantissa - 1
    else 4 * v.mantissa - 2
  centre := 4 * v.mantissa
  upper := 4 * v.mantissa + 2
  unit := v.exponent - 2
  closed := v.mantissa % 2 = 0

/-- The length of a step of the grid `10 ^ k`, in a scale common with `scale`. -/
def step (i : Interval) (k : Int) : Nat :=
  Nat.pow 10 k.toNat * Nat.pow 2 (-i.unit).toNat

/-- The length of a unit of the interval, in a scale common with `step`. -/
def scale (i : Interval) (k : Int) : Nat :=
  Nat.pow 2 i.unit.toNat * Nat.pow 10 (-k).toNat

/-- The last point of the grid at or below the centre. -/
def floor (i : Interval) (k : Int) : Nat :=
  i.centre * i.scale k / i.step k

/-- Whether the point `d * 10 ^ k` rounds to the double. -/
def contains (i : Interval) (k : Int) (d : Nat) : Bool :=
  let point := d * i.step k
  let lower := i.lower * i.scale k
  let upper := i.upper * i.scale k
  if i.closed then lower ≤ point && point ≤ upper else lower < point && point < upper

/-- The nearer of the points `d` and `d + 1` of the grid to the centre. -/
def nearer (i : Interval) (tie : Tie) (k : Int) (d : Nat) : Nat :=
  let twice := 2 * (i.centre * i.scale k)
  let middle := (2 * d + 1) * i.step k
  if twice < middle then d
  else if middle < twice then d + 1
  else match tie with
    | .up => d + 1
    | .toEven => if d % 2 = 0 then d else d + 1

/-- Tries the grids `10 ^ k`, `10 ^ (k - 1)`, … until one meets the interval. Only the two
points next to the centre need a test. -/
def search (i : Interval) (tie : Tie) : Nat → Int → Scaled
  | 0, k => ⟨i.floor k, k⟩
  | steps + 1, k =>
    let d := i.floor k
    match i.contains k d, i.contains k (d + 1) with
    | true, true => ⟨i.nearer tie k d, k⟩
    | true, false => ⟨d, k⟩
    | false, true => ⟨d + 1, k⟩
    | false, false => i.search tie steps (k - 1)

/-- A grid whose first point lies beyond the interval: `log 2 < 0.30103`. -/
def start (i : Interval) : Int :=
  ((i.upper.log2 + 1 : Nat) + i.unit) * 30103 / 100000 + 1

end Interval

/-- The shortest decimal that reads back as `v`, and the nearest of those. On the grid
`10 ^ leastExponent` every double is a point, which bounds the search. -/
def Dyadic.shortest (v : Dyadic) (tie : Tie) : Scaled :=
  if v.mantissa = 0 then ⟨0, 0⟩
  else
    let i := Interval.around v
    i.search tie 1500 i.start

end LoxLang.Decimal
