import InputRelay.Named

namespace InputRelay

structure MouseButtons where
  bits : BitVec 8
deriving DecidableEq, Repr, Inhabited

namespace MouseButtons

def none : MouseButtons := ⟨0#8⟩
def left : MouseButtons := ⟨0x01#8⟩
def right : MouseButtons := ⟨0x02#8⟩
def middle : MouseButtons := ⟨0x04#8⟩
def x1 : MouseButtons := ⟨0x08#8⟩
def x2 : MouseButtons := ⟨0x10#8⟩

instance : OrOp MouseButtons := ⟨fun m n ↦ ⟨m.bits ||| n.bits⟩⟩
instance : AndOp MouseButtons := ⟨fun m n ↦ ⟨m.bits &&& n.bits⟩⟩

def contains (m n : MouseButtons) : Bool :=
  (m &&& n) == n

end MouseButtons

inductive MouseButton
  | left | right | middle | x1 | x2
  | other (index : UInt8)
deriving DecidableEq, Repr, Inhabited

namespace MouseButton

def named : List MouseButton := [.left, .right, .middle, .x1, .x2]

def name : MouseButton → String
  | left => "Left"
  | right => "Right"
  | middle => "Middle"
  | x1 => "X1"
  | x2 => "X2"
  | other _ => "Other"

/-- The flag of a button in a set of held buttons; buttons past the fifth have none. -/
def flag : MouseButton → MouseButtons
  | left => .left
  | right => .right
  | middle => .middle
  | x1 => .x1
  | x2 => .x2
  | other _ => .none

end MouseButton

end InputRelay
