import InputRelay.Event

namespace InputRelay

structure PointerId where
  val : UInt64
deriving DecidableEq, Repr, Inhabited

namespace PointerId

/-- The mouse, when it has buttons besides the left one to forward. -/
def mouse : PointerId := ⟨18446744073709551615⟩
def genericFinger : PointerId := ⟨18446744073709551614⟩
/-- The second finger beside `mouse`. -/
def virtualMouse : PointerId := ⟨18446744073709551613⟩
/-- The second finger beside `genericFinger`. -/
def virtualFinger : PointerId := ⟨18446744073709551612⟩
/-- The first identity of a mapped control. -/
def firstMapped : PointerId := ⟨100⟩

def description (id : PointerId) : String :=
  toString id.val.toNat

end PointerId

/-- The number by which the device acknowledges a clipboard. Zero asks for no acknowledgment. -/
structure AckSequence where
  val : UInt64
deriving DecidableEq, Repr, Inhabited

namespace AckSequence

def none : AckSequence := ⟨0⟩

def isNone (s : AckSequence) : Bool :=
  s == none

end AckSequence

inductive DeviceKey
  | home | back | appSwitch | menu | power | volumeUp | volumeDown
deriving DecidableEq, Repr, Inhabited

def DeviceKey.keycode : DeviceKey → Nat
  | home => 3
  | back => 4
  | volumeUp => 24
  | volumeDown => 25
  | power => 26
  | menu => 82
  | appSwitch => 187

inductive MotionAction
  | down | up | move
deriving DecidableEq, Repr, Inhabited

inductive CopyKey
  | none | copy | cut
deriving DecidableEq, Repr, Inhabited

inductive ScreenPower
  | off | normal
deriving DecidableEq, Repr, Inhabited

inductive ControllerChange
  | added | removed
deriving DecidableEq, Repr, Inhabited

inductive Command
  | injectKeycode (action : ButtonState) (key : DeviceKey) (repeats : UInt32) (metastate : UInt32)
  | injectText (text : String)
  | injectTouch (action : MotionAction) (pointer : PointerId) (position : Position)
      (pressure : Binary32) (actionButton : MouseButtons) (held : MouseButtons)
  | backOrScreenOn (action : ButtonState)
  | expandNotificationPanel
  | expandSettingsPanel
  | collapsePanels
  | getClipboard (copyKey : CopyKey)
  | setClipboard (sequence : AckSequence) (text : String) (paste : Bool)
  | setScreenPower (mode : ScreenPower)
  | rotateDevice
  | openHardKeyboardSettings
  | injectControllerAxis (e : AxisMotion)
  | injectControllerButton (e : PadButton)
  | injectControllerDevice (controller : ControllerId) (change : ControllerChange)
deriving DecidableEq, Repr

namespace Command

/-- A device key without repeats and without modifiers. -/
def press (key : DeviceKey) (action : ButtonState) : Command :=
  injectKeycode action key 0 0

def description : Command → String
  | injectKeycode .. => "inject keycode"
  | injectText .. => "inject text"
  | injectTouch .. => "inject touch event"
  | backOrScreenOn .. => "press back or turn screen on"
  | expandNotificationPanel => "expand notification panel"
  | expandSettingsPanel => "expand settings panel"
  | collapsePanels => "collapse panels"
  | getClipboard .. => "get device clipboard"
  | setClipboard .. => "set device clipboard"
  | setScreenPower .. => "set screen power mode"
  | rotateDevice => "rotate device"
  | openHardKeyboardSettings => "open hard keyboard settings"
  | injectControllerAxis .. => "inject controller axis"
  | injectControllerButton .. => "inject controller button"
  | injectControllerDevice .. => "inject controller device"

end Command

instance : Named ButtonState where
  all := [.pressed, .released]
  name
    | .pressed => "Pressed"
    | .released => "Released"

instance : Named TouchAction where
  all := [.down, .move, .up]
  name
    | .down => "Down"
    | .move => "Move"
    | .up => "Up"

instance : Named DeviceKey where
  all := [.home, .back, .appSwitch, .menu, .power, .volumeUp, .volumeDown]
  name
    | .home => "Home"
    | .back => "Back"
    | .appSwitch => "AppSwitch"
    | .menu => "Menu"
    | .power => "Power"
    | .volumeUp => "VolumeUp"
    | .volumeDown => "VolumeDown"

instance : Named MotionAction where
  all := [.down, .up, .move]
  name
    | .down => "Down"
    | .up => "Up"
    | .move => "Move"

instance : Named CopyKey where
  all := [.none, .copy, .cut]
  name
    | .none => "None"
    | .copy => "Copy"
    | .cut => "Cut"

instance : Named ScreenPower where
  all := [.off, .normal]
  name
    | .off => "Off"
    | .normal => "Normal"

instance : Named ControllerChange where
  all := [.added, .removed]
  name
    | .added => "Added"
    | .removed => "Removed"

end InputRelay
