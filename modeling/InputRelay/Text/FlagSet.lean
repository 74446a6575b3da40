import InputRelay.Keyboard
import InputRelay.Mouse
import InputRelay.Text.Blank
import InputRelay.Text.Digits

namespace InputRelay.Text

/-- The names of the single bits of a mask, in ascending order, and those of groups of bits. -/
structure FlagNames (width : Nat) where
  single : List (String × BitVec width)
  group : List (String × BitVec width)

namespace FlagNames

variable {w : Nat} (names : FlagNames w)

/-- The parts of a mask as it is written: the names of its bits, then the bits without a name as
one hexadecimal number. -/
def parts (bits : BitVec w) : List String :=
  let named := names.single.filter fun (_, flag) ↦ bits &&& flag == flag
  let rest := bits &&& ~~~(names.single.foldl (fun acc (_, flag) ↦ acc ||| flag) 0#w)
  named.map (·.1) ++
    if rest = 0#w then [] else ["0x" ++ String.ofList (digitsOf 16 rest.toNat)]

def write (bits : BitVec w) : String :=
  " | ".intercalate (names.parts bits)

def hex? (s : List Char) : Option (BitVec w) :=
  let digits := match s with
    | '+' :: r => r
    | r => r
  let n := numberOf 16 digits
  let bits := BitVec.ofNat w n
  if digits ≠ [] ∧ digits.all (isDigit 16) ∧ bits.toNat = n then some bits else none

def part? : List Char → Option (BitVec w)
  | '0' :: 'x' :: digits => hex? digits
  | name => (names.single ++ names.group).lookup (String.ofList name)

/-- A blank text is the empty mask; in any other no part may be blank. -/
def read? (s : String) : Option (BitVec w) :=
  if s.toList.all isBlank then some 0#w
  else ((cut '|' s.toList).mapM (names.part? <| trim ·)).map (·.foldl (· ||| ·) 0#w)

end FlagNames

end InputRelay.Text

namespace InputRelay

open Text

def Modifiers.names : FlagNames 16 where
  single := [("LSHIFT", lshift.bits), ("RSHIFT", rshift.bits), ("LCTRL", lctrl.bits),
    ("RCTRL", rctrl.bits), ("LALT", lalt.bits), ("RALT", ralt.bits), ("LSUPER", lsuper.bits),
    ("RSUPER", rsuper.bits), ("CAPS", caps.bits), ("NUM", num.bits)]
  group := [("SHIFT", shift.bits), ("CTRL", ctrl.bits), ("ALT", alt.bits), ("SUPER", super.bits)]

def MouseButtons.names : FlagNames 8 where
  single := [("LEFT", left.bits), ("RIGHT", right.bits), ("MIDDLE", middle.bits), ("X1", x1.bits),
    ("X2", x2.bits)]
  group := []

end InputRelay
