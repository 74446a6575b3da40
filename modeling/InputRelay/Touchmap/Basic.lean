import InputRelay.Command

namespace InputRelay

/-- The virtual joystick that the left stick drives. -/
structure WalkControl where
  center : Point
  radius : Int32
  finger : PointerId
deriving DecidableEq, Repr, Inhabited

inductive ControlKind
  | button
  /-- Held like a button and aimed with the right stick. -/
  | skill (radius : Int32)
deriving DecidableEq, Repr, Inhabited

structure Control where
  code : ButtonCode
  center : Point
  kind : ControlKind
  finger : PointerId
deriving DecidableEq, Repr, Inhabited

namespace Control

def isSkill (c : Control) : Bool :=
  c.kind != .button

def radius (c : Control) : Int32 :=
  match c.kind with
  | .button => 0
  | .skill radius => radius

end Control

/-- A table of controls, in ascending order of their codes. -/
structure Touchmap where
  walk : Option WalkControl := none
  controls : List Control := []
deriving DecidableEq, Repr, Inhabited

namespace Touchmap

/-- The first place in `[low, high)` whose item fails a test, or `high`. The range is halved until
it is empty, so the items that pass have to come before those that fail. -/
@[semireducible]
def partitionPoint {α : Type} (test : α → Bool) (items : List α) (low high : Nat) : Nat :=
  if low < high then
    let middle := (low + high) / 2
    if items[middle]?.any test then partitionPoint test items (middle + 1) high
    else partitionPoint test items low middle
  else low
termination_by high - low

def lookup? (m : Touchmap) (code : ButtonCode) : Option (Nat × Control) :=
  if code.isValid then
    let i := partitionPoint (·.code.val < code.val) m.controls 0 m.controls.length
    (m.controls[i]?.filter (·.code == code)).map fun c ↦ (i, c)
  else none

def codeOfName : String → ButtonCode
  | "A" => ControllerButton.a.code
  | "B" => ControllerButton.b.code
  | "X" => ControllerButton.x.code
  | "Y" => ControllerButton.y.code
  | "BACK" | "SELECT" => ControllerButton.back.code
  | "GUIDE" | "HOME" => ControllerButton.guide.code
  | "START" => ControllerButton.start.code
  | "LTHUMB" | "L3" => ControllerButton.leftStick.code
  | "RTHUMB" | "R3" => ControllerButton.rightStick.code
  | "LB" | "L1" => ControllerButton.leftShoulder.code
  | "RB" | "R1" => ControllerButton.rightShoulder.code
  | "UP" => ControllerButton.dpadUp.code
  | "DOWN" => ControllerButton.dpadDown.code
  | "LEFT" => ControllerButton.dpadLeft.code
  | "RIGHT" => ControllerButton.dpadRight.code
  | "MISC" => ControllerButton.misc1.code
  | "PADDLE1" => ControllerButton.paddle1.code
  | "PADDLE2" => ControllerButton.paddle2.code
  | "PADDLE3" => ControllerButton.paddle3.code
  | "PADDLE4" => ControllerButton.paddle4.code
  | "TOUCHPAD" => ControllerButton.touchpad.code
  | "LT" | "L2" => ⟨25⟩
  | "RT" | "R2" => ⟨26⟩
  | _ => .invalid

end Touchmap

end InputRelay
