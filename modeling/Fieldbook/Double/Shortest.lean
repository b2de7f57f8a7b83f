import Fieldbook.Double.Basic

/-!
# Double/Shortest — the fewest decimal digits that read back

A positive finite double `m · 2 ^ q` is the nearest double of every real in an interval around it,
whose ends belong to it exactly when `m` is even. The decimal `c · 10 ^ k` chosen here lies in that
interval, on the coarsest grid `10 ^ k` that meets it, and of the two neighbours of the value on
that grid it is the nearer; of two equally near ones it is the larger.

Everything is a comparison of whole numbers: a magnitude is written as a fraction of four times the
significand, so that both ends of the interval are whole as well.
-/

namespace Fieldbook.Double

/-- A positive decimal `digits · 10 ^ exponent`. -/
structure Decimal where
  digits : Nat
  exponent : Int
  deriving DecidableEq

namespace Decimal

/-- The exponent of the leading digit: `3` for `1234`, `-2` for `0.05`. -/
def leading (d : Decimal) : Int := ((Nat.toDigits 10 d.digits).length : Int) - 1 + d.exponent

end Decimal

/-- The rounding interval of a magnitude, as whole multiples of `scaleUp / scaleDown`. -/
structure RoundingInterval where
  low : Nat
  value : Nat
  high : Nat
  scaleUp : Nat
  scaleDown : Nat
  closed : Bool

/-- The interval is twice as long above as below at a power of two, where the spacing of the doubles
changes; the least normal number is the exception, as the spacing below it is the same. -/
def roundingInterval (m : Nat) (q : Int) : RoundingInterval where
  low := if m = 0x10000000000000 ∧ q ≠ -1074 then 4 * m - 1 else 4 * m - 2
  value := 4 * m
  high := 4 * m + 2
  scaleUp := Nat.pow 2 (q - 2).toNat
  scaleDown := Nat.pow 2 (2 - q).toNat
  closed := m % 2 == 0

/-- Whether `c · 10 ^ k` reads back as the value. -/
def RoundingInterval.contains (r : RoundingInterval) (c : Nat) (k : Int) : Bool :=
  let point := c * Nat.pow 10 k.toNat * r.scaleDown
  let low := r.low * r.scaleUp * Nat.pow 10 (-k).toNat
  let high := r.high * r.scaleUp * Nat.pow 10 (-k).toNat
  if r.closed then low ≤ point && point ≤ high else low < point && point < high

/-- The multiple of `10 ^ k` that is chosen if the grid of these multiples meets the interval. -/
def RoundingInterval.onGrid? (r : RoundingInterval) (k : Int) : Option Nat :=
  let num := r.value * r.scaleUp * Nat.pow 10 (-k).toNat
  let den := r.scaleDown * Nat.pow 10 k.toNat
  let below := num / den
  match r.contains below k, r.contains (below + 1) k with
  | false, false => none
  | true, false => some below
  | false, true => some (below + 1)
  | true, true => if 2 * (num % den) < den then some below else some (below + 1)

/-- The first hit on the grids `10 ^ k`, `10 ^ (k - 1)`, …; below the last of them the grid point
under the value stands in. -/
def RoundingInterval.search (r : RoundingInterval) : Nat → Int → Decimal
  | 0, k => ⟨r.value * r.scaleUp * Nat.pow 10 (-k).toNat / (r.scaleDown * Nat.pow 10 k.toNat), k⟩
  | steps + 1, k =>
    match r.onGrid? k with
    | some c => ⟨c, k⟩
    | none => r.search steps (k - 1)

/-- A power of ten above `m · 2 ^ q`, and at most three places above its leading digit. -/
def coarsest (m : Nat) (q : Int) : Int := (((m.log2 : Int) + q + 1) * 30103) / 100000 + 1

/-- The shortest decimal of the magnitude `m · 2 ^ q`. Seventeen digits always suffice, so the
search meets a hit within its steps. -/
def shortest (m : Nat) (q : Int) : Decimal :=
  (roundingInterval m q).search 24 (coarsest m q)

end Fieldbook.Double
