import InputRelay.Command
import InputRelay.Orientation

namespace InputRelay

inductive ShortcutMod
  | leftCtrl | rightCtrl | leftAlt | rightAlt | leftSuper | rightSuper
deriving DecidableEq, Repr, Inhabited

instance : Named ShortcutMod where
  all := [.leftCtrl, .rightCtrl, .leftAlt, .rightAlt, .leftSuper, .rightSuper]
  name
    | .leftCtrl => "LeftCtrl"
    | .rightCtrl => "RightCtrl"
    | .leftAlt => "LeftAlt"
    | .rightAlt => "RightAlt"
    | .leftSuper => "LeftSuper"
    | .rightSuper => "RightSuper"

def ShortcutMod.flag : ShortcutMod → Modifiers
  | leftCtrl => .lctrl
  | rightCtrl => .rctrl
  | leftAlt => .lalt
  | rightAlt => .ralt
  | leftSuper => .lsuper
  | rightSuper => .rsuper

structure ShortcutMods where
  flags : Modifiers
deriving DecidableEq, Repr, Inhabited

namespace ShortcutMods

def ofList (mods : List ShortcutMod) : ShortcutMods :=
  ⟨mods.foldl (fun acc m ↦ acc ||| m.flag) .none⟩

def eligible : Modifiers := .ctrl ||| .alt ||| .super

def isHeld (s : ShortcutMods) (mods : Modifiers) : Bool :=
  mods.intersects (eligible &&& s.flags)

/-- Whether a key is itself one of the modifiers. Its release reports none of them. -/
def isShortcutKey (s : ShortcutMods) (key : KeyCode) : Bool :=
  key.modifier?.any fun flag ↦ eligible.contains flag && s.flags.contains flag

def isShortcut (s : ShortcutMods) (key : KeyCode) (mods : Modifiers) : Bool :=
  s.isHeld mods || s.isShortcutKey key

end ShortcutMods

structure KeyRepeat where
  last : Option (KeyCode × Modifiers) := none
  count : UInt32 := 0
deriving DecidableEq, Repr, Inhabited

/-- Count a press. The count stays at its largest value. -/
def KeyRepeat.record (r : KeyRepeat) (key : KeyCode) (mods : Modifiers) : KeyRepeat :=
  if r.last = some (key, mods) then
    { r with count := if r.count = 4294967295 then r.count else r.count + 1 }
  else { last := some (key, mods), count := 0 }

inductive ShortcutAction
  /-- Press or release a device key together with the shortcut key. -/
  | deviceKey (key : DeviceKey)
  | screenPower (mode : ScreenPower)
  | pause (paused : Bool)
  | orient (o : Orientation)
  | copyFromDevice (key : CopyKey)
  | paste (asText : Bool)
  | toggleFullscreen
  | resizeToFit
  | resizeToPixelPerfect
  | toggleFpsCounter
  /-- Notifications on a first press, settings when it is pressed again. -/
  | expandPanels
  | collapsePanels
  | rotateDevice
  | openHardKeyboardSettings
  | loadTouchmap
  | unloadTouchmap
deriving DecidableEq, Repr

namespace ShortcutAction

def description : ShortcutAction → String
  | deviceKey key => "press " ++ Named.name key
  | screenPower .off => "turn device screen off"
  | screenPower .normal => "turn device screen on"
  | pause true => "pause video"
  | pause false => "resume video"
  | orient o => "apply display orientation " ++ o.description
  | copyFromDevice .cut => "cut to host clipboard"
  | copyFromDevice _ => "copy to host clipboard"
  | paste true => "type host clipboard as text"
  | paste false => "paste host clipboard"
  | toggleFullscreen => "toggle fullscreen"
  | resizeToFit => "resize window to fit"
  | resizeToPixelPerfect => "resize window to 1:1"
  | toggleFpsCounter => "toggle FPS counter"
  | expandPanels => "expand notification panel (twice: settings)"
  | collapsePanels => "collapse panels"
  | rotateDevice => "rotate device"
  | openHardKeyboardSettings => "open keyboard settings"
  | loadTouchmap => "load touchmap"
  | unloadTouchmap => "unload touchmap"

end ShortcutAction

/-- A set of conditions: those that a shortcut needs, or those that a session meets. -/
structure Guard where
  bits : BitVec 8
deriving DecidableEq, Repr, Inhabited

namespace Guard

def empty : Guard := ⟨0#8⟩
def control : Guard := ⟨0x01#8⟩
def keyProcessor : Guard := ⟨0x02#8⟩
/-- The key processor is a keyboard of its own. -/
def hid : Guard := ⟨0x04#8⟩
def noRepeat : Guard := ⟨0x08#8⟩
def downOnly : Guard := ⟨0x10#8⟩
def notPaused : Guard := ⟨0x20#8⟩
def video : Guard := ⟨0x40#8⟩

instance : OrOp Guard := ⟨fun g h ↦ ⟨g.bits ||| h.bits⟩⟩

def when (g : Guard) (b : Bool) : Guard :=
  if b then g else empty

def permits (needed met : Guard) : Bool :=
  met.bits &&& needed.bits == needed.bits

def deviceKey : Guard := keyProcessor ||| noRepeat ||| notPaused
def deviceCommand : Guard := control ||| noRepeat ||| downOnly ||| notPaused
def window : Guard := video ||| noRepeat ||| downOnly
def clipboard : Guard := keyProcessor ||| noRepeat ||| downOnly ||| notPaused
/-- The volume keys repeat with their shortcut keys. -/
def volume : Guard := keyProcessor ||| notPaused

end Guard

structure Shortcut where
  action : ShortcutAction
  guard : Guard
deriving DecidableEq, Repr

namespace Shortcut

def keys : List KeyCode := [
  .keyH, .keyB, .backspace, .keyS, .keyM, .keyP, .keyO, .keyZ, .arrowDown, .arrowUp, .arrowLeft,
  .arrowRight, .keyC, .keyX, .keyV, .keyF, .keyW, .keyG, .keyI, .keyN, .keyR, .keyK, .keyT]

def find? (key : KeyCode) (shift : Bool) : Option Shortcut :=
  match key, shift with
  | .keyH, false => some ⟨.deviceKey .home, .deviceKey⟩
  | .keyB, false => some ⟨.deviceKey .back, .deviceKey⟩
  | .backspace, false => some ⟨.deviceKey .back, .deviceKey⟩
  | .keyS, false => some ⟨.deviceKey .appSwitch, .deviceKey⟩
  | .keyM, false => some ⟨.deviceKey .menu, .deviceKey⟩
  | .keyP, false => some ⟨.deviceKey .power, .deviceKey⟩
  | .keyO, false => some ⟨.screenPower .off, .deviceCommand⟩
  | .keyO, true => some ⟨.screenPower .normal, .deviceCommand⟩
  | .keyZ, shift => some ⟨.pause !shift, .window⟩
  | .arrowDown, false => some ⟨.deviceKey .volumeDown, .volume⟩
  | .arrowUp, false => some ⟨.deviceKey .volumeUp, .volume⟩
  | .arrowDown, true => some ⟨.orient .flip180, .window⟩
  | .arrowUp, true => some ⟨.orient .flip180, .window⟩
  | .arrowLeft, false => some ⟨.orient .rotate270, .window⟩
  | .arrowRight, false => some ⟨.orient .rotate90, .window⟩
  | .arrowLeft, true => some ⟨.orient .flip0, .window⟩
  | .arrowRight, true => some ⟨.orient .flip0, .window⟩
  | .keyC, false => some ⟨.copyFromDevice .copy, .clipboard⟩
  | .keyX, false => some ⟨.copyFromDevice .cut, .clipboard⟩
  | .keyV, shift => some ⟨.paste shift, .clipboard⟩
  | .keyF, false => some ⟨.toggleFullscreen, .window⟩
  | .keyW, false => some ⟨.resizeToFit, .window⟩
  | .keyG, false => some ⟨.resizeToPixelPerfect, .window⟩
  | .keyI, false => some ⟨.toggleFpsCounter, .window⟩
  | .keyN, false => some ⟨.expandPanels, .deviceCommand⟩
  | .keyN, true => some ⟨.collapsePanels, .deviceCommand⟩
  | .keyR, false => some ⟨.rotateDevice, .deviceCommand⟩
  | .keyK, false => some ⟨.openHardKeyboardSettings, .deviceCommand ||| .keyProcessor ||| .hid⟩
  | .keyT, false => some ⟨.loadTouchmap, .deviceCommand ||| .keyProcessor⟩
  | .keyT, true => some ⟨.unloadTouchmap, .deviceCommand ||| .keyProcessor⟩
  | _, _ => none

structure Entry where
  key : KeyCode
  shift : Bool
  shortcut : Shortcut
deriving DecidableEq, Repr

/-- All shortcuts; of a key the unshifted one comes first. -/
def table : List Entry :=
  keys.flatMap fun key ↦
    [false, true].filterMap fun shift ↦ (find? key shift).map (⟨key, shift, ·⟩)

end Shortcut

end InputRelay
