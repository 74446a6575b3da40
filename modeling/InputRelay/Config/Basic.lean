import InputRelay.Binding
import InputRelay.Shortcut

namespace InputRelay

-- What stands for a key that is missing in its section.
namespace Fallback

def shortcutMods : List ShortcutMod := [.leftAlt, .leftSuper]
def right : MouseBinding := .back
def middle : MouseBinding := .home
def click4 : MouseBinding := .appSwitch
def click5 : MouseBinding := .expandNotificationPanel
def enabled : Bool := true
def level : String := "info"

end Fallback

/-- The bindings of the secondary buttons before they are resolved. -/
structure BindingsConfig where
  right : MouseBinding := Fallback.right
  middle : MouseBinding := Fallback.middle
  click4 : MouseBinding := Fallback.click4
  click5 : MouseBinding := Fallback.click5
deriving DecidableEq, Repr, Inhabited

structure InputConfig where
  shortcutMods : List ShortcutMod := Fallback.shortcutMods
  /-- Forward every click, whatever the bindings say. -/
  forwardAllClicks : Bool := false
  bindings : BindingsConfig := {}
deriving DecidableEq, Repr, Inhabited

structure ClipboardConfig where
  /-- Hand the clipboard to the device ahead of Ctrl+V. -/
  autosync : Bool := true
  legacyPaste : Bool := false
deriving DecidableEq, Repr, Inhabited

structure GamepadConfig where
  forward : Bool := true
  /-- A touchmap to start with. -/
  touchmap : Option String := none
deriving DecidableEq, Repr, Inhabited

structure LogConfig where
  level : String := Fallback.level
deriving DecidableEq, Repr, Inhabited

structure Config where
  input : InputConfig := {}
  clipboard : ClipboardConfig := {}
  gamepad : GamepadConfig := {}
  log : LogConfig := {}
deriving DecidableEq, Repr, Inhabited

def Config.bindings (c : Config) : MouseBindings :=
  let b := c.input.bindings
  .resolve b.right b.middle b.click4 b.click5 c.input.forwardAllClicks

end InputRelay
