import InputRelay.Channel
import InputRelay.Clipboard
import InputRelay.Config.File
import InputRelay.Controller.Host
import InputRelay.Controller.Slots
import InputRelay.FileDrop
import InputRelay.Screen
import InputRelay.Touchmap.Document
import InputRelay.Touchmap.Engine
import InputRelay.VirtualFinger

namespace InputRelay

structure KeyProcessor where
  supportsText : Bool := false
  /-- Keys can wait until the device has acknowledged a clipboard. -/
  asyncPaste : Bool := false
  /-- It is a keyboard of its own on the device. -/
  hid : Bool := false
deriving DecidableEq, Repr, Inhabited

structure PointerProcessor where
  /-- Only motion is reported, no positions. -/
  relative : Bool := false
  supportsTouch : Bool := false
  supportsScroll : Bool := false
deriving DecidableEq, Repr, Inhabited

inductive PointerCall
  | motion (position : Position) (pointer : PointerId) (xrel yrel : Int32) (held : MouseButtons)
  | click (position : Position) (action : ButtonState) (button : MouseButton)
      (pointer : PointerId) (held : MouseButtons)
  | scroll (position : Position) (horizontal vertical : Binary32) (held : MouseButtons)
  | touch (position : Position) (action : TouchAction) (pointer : PointerId) (pressure : Binary32)
deriving DecidableEq, Repr

/-- What a session does to the outside, besides what is done to its screen. -/
inductive Effect
  | push (command : Command) (verdict : Except PushError Unit)
  | key (e : KeyEvent) (ack : AckSequence)
  | text (e : TextInput)
  | pointer (call : PointerCall)
  | file (action : FileAction) (path : String) (accepted : Bool)
  | openController (index : UInt32) (answer : Option ControllerId)
  | closeController (id : ControllerId)
  | readClipboard
  | pickFile (answer : Option String)

/-- A session with everything that it talks to. Without a channel it only shows the device. -/
structure Session (κ : Type) where
  screen : Screen
  channel : Option κ := none
  keys : Option KeyProcessor := none
  pointer : Option PointerProcessor := none
  files : Option Bool := none
  /-- The answers that the file dialog will give; when none is left it is cancelled. -/
  picker : Option (List (Option String)) := none
  clipboard : Option Clipboard := none
  host : Option ControllerHost := none
  disk : Disk
  shortcutMods : ShortcutMods
  bindings : MouseBindings
  forwards : Bool
  repeats : KeyRepeat := {}
  sync : ClipboardSync := {}
  finger : VirtualFinger := {}
  engine : Option TouchmapEngine := none
  slots : ControllerSlots := .empty

namespace Session

variable {κ : Type}

def isPaused (s : Session κ) : Bool :=
  s.screen.paused

def isRelative (s : Session κ) : Bool :=
  s.pointer.any (·.relative)

/-- The mouse is a plain finger unless some secondary button is forwarded. -/
def pointerId (s : Session κ) : PointerId :=
  if s.bindings.hasSecondaryClick then .mouse else .genericFinger

def fingerId (s : Session κ) : PointerId :=
  VirtualFinger.pointer s.bindings.hasSecondaryClick

def position (s : Session κ) (p : Point) : Position :=
  if s.isRelative then {} else ⟨s.screen.frame, s.screen.windowToFrame p⟩

def meets (s : Session κ) (e : KeyEvent) : Guard :=
  Guard.control.when s.channel.isSome ||| Guard.keyProcessor.when s.keys.isSome |||
    Guard.hid.when (s.keys.any (·.hid)) ||| Guard.noRepeat.when (!e.autoRepeat) |||
    Guard.downOnly.when e.state.isPressed ||| Guard.notPaused.when (!s.isPaused) |||
    Guard.video.when s.screen.hasVideo

end Session

end InputRelay
