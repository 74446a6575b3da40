namespace InputRelay.Binary

/-- A binary floating-point format. The unsigned values are numbered from zero in ascending
order; the number of a value is its bit pattern. -/
structure Format where
  precision : Nat
  /-- The least positive value is `2 ^ (-depth)`. -/
  depth : Nat
  infinity : Nat
deriving DecidableEq, Repr

def single : Format := ⟨24, 149, 0x7f800000⟩
def double : Format := ⟨53, 1074, 0x7ff0000000000000⟩

/-- The integer nearest to `num / den`; of two it is the even one. -/
def roundDiv (num den : Nat) : Nat :=
  let q := num / den
  let r := num % den
  if 2 * r < den then q
  else if den < 2 * r then q + 1
  else q + q % 2

namespace Format

variable (f : Format)

/-- The significand and the exponent of a finite value: number `n` is
`significand * 2 ^ exponent` times the least positive value. -/
def significand (n : Nat) : Nat :=
  let unit := 1 <<< (f.precision - 1)
  if n < unit then n else n % unit + unit

def exponent (n : Nat) : Nat :=
  (n >>> (f.precision - 1)) - 1

def multiple (n : Nat) : Nat :=
  f.significand n <<< f.exponent n

def nearest (num den : Nat) : Nat :=
  let scaled := num <<< f.depth
  let e := (scaled / den).log2 + 1 - f.precision
  min ((e <<< (f.precision - 1)) + roundDiv scaled (den <<< e)) f.infinity

def mul (m n : Nat) : Nat :=
  f.nearest (f.multiple m * f.multiple n) (1 <<< (2 * f.depth))

def div (m n : Nat) : Nat :=
  f.nearest (f.multiple m) (f.multiple n)

def convert (g : Format) (n : Nat) : Nat :=
  g.nearest (f.multiple n) (1 <<< f.depth)

end Format

end InputRelay.Binary
