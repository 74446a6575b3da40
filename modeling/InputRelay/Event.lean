import InputRelay.Binary.Binary32
import InputRelay.Controller
import InputRelay.Geometry
import InputRelay.Keyboard
import InputRelay.Mouse

namespace InputRelay

inductive ButtonState
  | pressed | released
deriving DecidableEq, Repr, Inhabited

def ButtonState.isPressed (s : ButtonState) : Bool :=
  s == pressed

structure KeyEvent where
  key : KeyCode
  scancode : UInt32 := 0
  state : ButtonState
  mods : Modifiers
  /-- Repeated by the operating system while the key is held. -/
  autoRepeat : Bool := false
deriving DecidableEq, Repr, Inhabited

structure TextInput where
  text : String
  mods : Modifiers
deriving DecidableEq, Repr, Inhabited

structure MouseMotion where
  point : Point
  xrel : Int32
  yrel : Int32
  held : MouseButtons
  /-- Made up by the window system from a touch that is reported as well. -/
  fromTouch : Bool := false
deriving DecidableEq, Repr, Inhabited

structure MouseClick where
  button : MouseButton
  state : ButtonState
  point : Point
  clicks : UInt8 := 1
  held : MouseButtons
  mods : Modifiers
  fromTouch : Bool := false
deriving DecidableEq, Repr, Inhabited

structure MouseWheel where
  horizontal : Binary32
  vertical : Binary32
  point : Point
  held : MouseButtons
deriving DecidableEq, Repr, Inhabited

inductive TouchAction
  | down | move | up
deriving DecidableEq, Repr, Inhabited

/-- A finger on a local touchscreen. Its coordinates are fractions of the drawable area. -/
structure FingerTouch where
  action : TouchAction
  finger : UInt64
  x : Binary32
  y : Binary32
  pressure : Binary32
deriving DecidableEq, Repr, Inhabited

structure AxisMotion where
  controller : ControllerId
  axis : ControllerAxis
  value : Int16
deriving DecidableEq, Repr, Inhabited

structure PadButton where
  controller : ControllerId
  button : ControllerButton
  state : ButtonState
deriving DecidableEq, Repr, Inhabited

/-- A controller is added under the index of its device and removed under its own identity. -/
inductive HotPlug
  | added (index : UInt32)
  | removed (controller : ControllerId)
deriving DecidableEq, Repr, Inhabited

inductive Event
  | key (e : KeyEvent)
  | text (e : TextInput)
  | motion (e : MouseMotion)
  | click (e : MouseClick)
  | wheel (e : MouseWheel)
  | touch (e : FingerTouch)
  | fileDrop (path : String)
  | axis (e : AxisMotion)
  | padButton (e : PadButton)
  | hotPlug (e : HotPlug)
deriving DecidableEq, Repr

end InputRelay
