import InputRelay.Binary.Binary32

namespace InputRelay.Binary

structure Decimal where
  digits : Nat
  exponent : Int
deriving DecidableEq, Repr

/-- The numbers that round to a given positive value, over one denominator. -/
structure Basin where
  low : Nat
  value : Nat
  high : Nat
  den : Nat
  closed : Bool
deriving DecidableEq, Repr

namespace Basin

/-- Half the way to each neighbour of value number `n`. The neighbour below a power of two is
half as far away. -/
def ofValue (f : Format) (n : Nat) : Basin :=
  let m := f.significand n
  let e := f.exponent n
  let narrow := m = 1 <<< (f.precision - 1) ∧ e ≠ 0
  { low := (4 * m - if narrow then 1 else 2) <<< e
    value := (4 * m) <<< e
    high := (4 * m + 2) <<< e
    den := 1 <<< (f.depth + 2)
    closed := m % 2 == 0 }

variable (b : Basin)

def holds (num den : Nat) : Bool :=
  if b.closed then b.low * den ≤ num * b.den && num * b.den ≤ b.high * den
  else b.low * den < num * b.den && num * b.den < b.high * den

/-- The multiple of `10 ^ exponent` that rounds to the value and is nearest to it, if there is
one; of two at the same distance it is the even one. -/
def onGrid? (exponent : Int) : Option Decimal :=
  let unit := Nat.pow 10 exponent.toNat
  let parts := Nat.pow 10 (-exponent).toNat
  let near := roundDiv (b.value * parts) (b.den * unit)
  let below := b.value * parts / (b.den * unit)
  let candidates := [near, below, below + 1]
  (candidates.find? fun d ↦ d != 0 && b.holds (d * unit) parts).map (⟨·, exponent⟩)

/-- The first hit on ever finer grids: no shorter decimal rounds to the value. -/
def shortest? : Nat → Int → Option Decimal
  | 0, _ => none
  | n + 1, e => (b.onGrid? e).or (shortest? n (e - 1))

end Basin

end InputRelay.Binary

namespace InputRelay.Binary32

open Binary

/-- The decimal with the fewest digits that reads back as the magnitude of a finite number. Single
precision reaches from `10 ^ 39` down to `10 ^ (-46)`. -/
def shortestDecimal (a : Binary32) : Decimal :=
  ((Basin.ofValue single a.magnitude).shortest? 96 40).getD ⟨0, 0⟩

end InputRelay.Binary32
