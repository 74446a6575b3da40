import InputRelay.Named

namespace InputRelay

structure ControllerId where
  val : UInt32
deriving DecidableEq, Repr, Inhabited

def ControllerId.description (id : ControllerId) : String :=
  "#" ++ toString id.val.toNat

inductive ControllerButton
  | a | b | x | y
  | back | guide | start
  | leftStick | rightStick | leftShoulder | rightShoulder
  | dpadUp | dpadDown | dpadLeft | dpadRight
  | misc1 | paddle1 | paddle2 | paddle3 | paddle4 | touchpad
deriving DecidableEq, Repr, Inhabited

inductive ControllerAxis
  | leftX | leftY | rightX | rightY | triggerLeft | triggerRight
deriving DecidableEq, Repr, Inhabited

/-- The number of a control source: a digital button, or a trigger numbered after the buttons. -/
structure ButtonCode where
  val : UInt8
deriving DecidableEq, Repr, Inhabited

namespace ButtonCode

/-- The code of an unrecognised name. No controller produces it. -/
def invalid : ButtonCode := ⟨255⟩

def isValid (c : ButtonCode) : Bool :=
  c != invalid

def description (c : ButtonCode) : String :=
  if c.isValid then toString c.val.toNat else "invalid"

end ButtonCode

namespace ControllerButton

def count : Nat := 21

def code (button : ControllerButton) : ButtonCode :=
  ⟨button.ctorIdx.toUInt8⟩

end ControllerButton

namespace ControllerAxis

def fullScale : Int := 32767

def code (axis : ControllerAxis) : Nat :=
  axis.ctorIdx

/-- A trigger taken as a digital button has a code past those of the buttons. -/
def triggerCode? : ControllerAxis → Option ButtonCode
  | triggerLeft => some ⟨25⟩
  | triggerRight => some ⟨26⟩
  | _ => none

end ControllerAxis

instance : Named ControllerButton where
  all := [.a, .b, .x, .y, .back, .guide, .start, .leftStick, .rightStick, .leftShoulder,
    .rightShoulder, .dpadUp, .dpadDown, .dpadLeft, .dpadRight, .misc1, .paddle1, .paddle2,
    .paddle3, .paddle4, .touchpad]
  name
    | .a => "A"
    | .b => "B"
    | .x => "X"
    | .y => "Y"
    | .back => "Back"
    | .guide => "Guide"
    | .start => "Start"
    | .leftStick => "LeftStick"
    | .rightStick => "RightStick"
    | .leftShoulder => "LeftShoulder"
    | .rightShoulder => "RightShoulder"
    | .dpadUp => "DpadUp"
    | .dpadDown => "DpadDown"
    | .dpadLeft => "DpadLeft"
    | .dpadRight => "DpadRight"
    | .misc1 => "Misc1"
    | .paddle1 => "Paddle1"
    | .paddle2 => "Paddle2"
    | .paddle3 => "Paddle3"
    | .paddle4 => "Paddle4"
    | .touchpad => "Touchpad"

instance : Named ControllerAxis where
  all := [.leftX, .leftY, .rightX, .rightY, .triggerLeft, .triggerRight]
  name
    | .leftX => "LeftX"
    | .leftY => "LeftY"
    | .rightX => "RightX"
    | .rightY => "RightY"
    | .triggerLeft => "TriggerLeft"
    | .triggerRight => "TriggerRight"

end InputRelay
