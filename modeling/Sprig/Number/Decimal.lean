import Sprig.Number.Binary64

/-!
# Shortest decimals

The reals that round to a finite number form an interval. `shortest` finds the coarsest grid of powers of
ten that has a point in it, and there the point nearest to the number.
-/

namespace Sprig.Decimal

/-- Reals in quarters of `2 ^ exponent`, with the ends of the interval that rounds to `value`. -/
structure Rounding where
  lower : Nat
  value : Nat
  upper : Nat
  exponent : Int
  closed : Bool

/-- Below a power of two the neighbour is half as far away as above it. A tie goes to the even
significand, so an even one owns the ends of its interval. -/
def Rounding.of (m : Nat) (e : Int) : Rounding where
  lower := 4 * m - if m = Nat.pow 2 52 ∧ -1074 < e then 1 else 2
  value := 4 * m
  upper := 4 * m + 2
  exponent := e - 2
  closed := m % 2 = 0

/-- The point of the grid `10 ^ k` that rounds to the number and is nearest to it; the larger of two. -/
def Rounding.onGrid? (r : Rounding) (k : Int) : Option Nat :=
  let scale := Nat.pow 2 r.exponent.toNat * Nat.pow 10 (-k).toNat
  let unit := Nat.pow 2 (-r.exponent).toNat * Nat.pow 10 k.toNat
  let inside (c : Nat) : Bool :=
    if r.closed then r.lower * scale ≤ c * unit && c * unit ≤ r.upper * scale
    else r.lower * scale < c * unit && c * unit < r.upper * scale
  let below := r.value * scale / unit
  let above := below + 1
  match inside below, inside above with
  | true, true =>
    if r.value * scale - below * unit < above * unit - r.value * scale then some below else some above
  | true, false => some below
  | false, true => some above
  | false, false => none

/-- Looks through ever finer grids, from `10 ^ k` on. -/
def search (r : Rounding) : Nat → Int → Nat × Int
  | 0, k =>
    let scale := Nat.pow 2 r.exponent.toNat * Nat.pow 10 (-k).toNat
    let unit := Nat.pow 2 (-r.exponent).toNat * Nat.pow 10 k.toNat
    (r.value * scale / unit, k)
  | steps + 1, k =>
    match r.onGrid? k with
    | some c => (c, k)
    | none => search r steps (k - 1)

/-- The shortest decimal `(c, k)`, that is `c * 10 ^ k`, which reads back as the positive number of
magnitude `m * 2 ^ e`. Seventeen digits are always enough. -/
def shortest (m : Nat) (e : Int) : Nat × Int :=
  search (.of m e) 20 (((m.log2 : Int) + 1 + e) * 30103 / 100000 + 1)

end Sprig.Decimal
