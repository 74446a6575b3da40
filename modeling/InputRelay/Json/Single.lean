import InputRelay.Binary.Shortest
import InputRelay.Json.Basic
import InputRelay.Text.Digits

namespace InputRelay

open Binary Text

namespace Numeral

/-- Extend a significand digit by digit as long as it stays below `2 ^ 64`. The second component
counts the digits that are left out. -/
def extend (significand : Nat) : List Nat → Nat × Nat
  | [] => (significand, 0)
  | d :: ds =>
    if significand * 10 + d < UInt64.size then extend (significand * 10 + d) ds
    else (significand, ds.length + 1)

/-- Double-precision value number `n` times a power of ten, rounded after each multiplication by
at most `10 ^ 308` or division by it; `none` when the result is too large. -/
def scale (n : Nat) (e : Int) : Option Nat :=
  if -308 ≤ e ∧ e ≤ 308 then
    let power := double.nearest (Nat.pow 10 e.natAbs) 1
    if e < 0 then some (double.div n power)
    else
      let product := double.mul n power
      if product = double.infinity then none else some product
  else if n = 0 then some 0
  else if 0 ≤ e then none
  else scale (double.div n (double.nearest (Nat.pow 10 308) 1)) (e + 308)
termination_by e.natAbs
decreasing_by omega

/-- The single-precision value of a numeral. An integer of 64 bits is rounded once; any other
number is first formed in double precision. -/
def toSingle? (n : Numeral) : Option Binary32 :=
  let digits := (digitsOf 10 n.whole).map fun c ↦ (digitValue? 10 c).getD 0
  let (whole, omitted) := extend 0 digits
  let small := !n.negative || (0 < whole && 2 * whole ≤ UInt64.size)
  if n.fraction = [] ∧ n.exponent = none ∧ omitted = 0 ∧ small then
    some (.ofMagnitude n.negative (single.nearest whole 1))
  else
    let (significand, unused) := extend whole (n.fraction.map (·.val))
    let taken := n.fraction.length - unused
    let e : Int := omitted - taken + n.exponent.getD 0
    (scale (double.nearest significand 1) e).map fun value ↦
      .ofMagnitude n.negative (double.convert single value)

/-- The shortest numeral that reads back as a finite number: positional from `10 ^ (-6)` up to
`10 ^ 13`, with at least one digit after the point, and with an exponent beyond. -/
def ofSingle (a : Binary32) : Numeral :=
  let decimal (whole fraction : List Char) (exponent : Option Int) : Numeral :=
    ⟨a.negative, numberOf 10 whole, fraction.map decimalDigit, exponent⟩
  if a.magnitude = 0 then decimal ['0'] ['0'] none
  else
    let ⟨d, e⟩ := a.shortestDecimal
    let digits := digitsOf 10 d
    let top : Int := digits.length - 1 + e
    if -6 ≤ top ∧ top ≤ 12 then
      if 0 ≤ e then decimal (digits ++ List.replicate e.toNat '0') ['0'] none
      else if 0 ≤ top then
        let (whole, fraction) := digits.splitAt (top + 1).toNat
        decimal whole fraction none
      else decimal ['0'] (List.replicate (-top - 1).toNat '0' ++ digits) none
    else
      let (whole, fraction) := digits.splitAt 1
      decimal whole fraction (some top)

end Numeral

namespace Json

def ofSingle (a : Binary32) : Json :=
  if a.isNaN || a.isInfinite then null else number (.ofSingle a)

end Json

end InputRelay
