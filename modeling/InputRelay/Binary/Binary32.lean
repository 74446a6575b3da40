import InputRelay.Binary.Rounding

namespace InputRelay

/-- A single-precision number, kept as its bit pattern. -/
structure Binary32 where
  bits : UInt32
deriving DecidableEq, Repr, Inhabited

namespace Binary32

open Binary

def zero : Binary32 := ⟨0⟩
def one : Binary32 := ⟨0x3f800000⟩
def negOne : Binary32 := ⟨0xbf800000⟩
def nan : Binary32 := ⟨0x7fc00000⟩

def negative (a : Binary32) : Bool :=
  decide (0x80000000 ≤ a.bits.toNat)

def magnitude (a : Binary32) : Nat :=
  a.bits.toNat % 0x80000000

def ofMagnitude (negative : Bool) (n : Nat) : Binary32 :=
  ⟨.ofNat (if negative then n + 0x80000000 else n)⟩

def isNaN (a : Binary32) : Bool :=
  decide (single.infinity < a.magnitude)

def isInfinite (a : Binary32) : Bool :=
  a.magnitude == single.infinity

def ofNat (n : Nat) : Binary32 :=
  ofMagnitude false (single.nearest n 1)

/-- Where a number that is not a NaN stands in the order of all of them; both zeros stand at 0. -/
def rank (a : Binary32) : Int :=
  if a.negative then -a.magnitude else a.magnitude

/-- Force a number into `[low, high]`. A NaN is left as it is. -/
def clamp (a low high : Binary32) : Binary32 :=
  if a.isNaN then a
  else if a.rank < low.rank then low
  else if high.rank < a.rank then high
  else a

def mul (a b : Binary32) : Binary32 :=
  let sign := a.negative ^^ b.negative
  if a.isNaN || b.isNaN then nan
  else if a.isInfinite || b.isInfinite then
    if a.magnitude = 0 ∨ b.magnitude = 0 then nan else ofMagnitude sign single.infinity
  else ofMagnitude sign (single.mul a.magnitude b.magnitude)

def toInt32 (a : Binary32) : Int32 :=
  if a.isNaN then 0
  else if a.isInfinite then if a.negative then Int32.minValue else Int32.maxValue
  else
    let whole : Nat := single.multiple a.magnitude >>> single.depth
    Int32.ofIntClamp (if a.negative then -whole else whole)

end Binary32

end InputRelay
