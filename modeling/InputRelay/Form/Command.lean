import InputRelay.Form.Event

namespace InputRelay

open Form Json

instance : Form PointerId where
  toJson id := toJson id.val
  ofJson? j := (ofJson? j).map PointerId.mk

instance : Form AckSequence where
  toJson s := toJson s.val
  ofJson? j := (ofJson? j).map AckSequence.mk

namespace Command

def bare : List (String × Command) := [
  ("ExpandNotificationPanel", expandNotificationPanel),
  ("ExpandSettingsPanel", expandSettingsPanel),
  ("CollapsePanels", collapsePanels),
  ("RotateDevice", rotateDevice),
  ("OpenHardKeyboardSettings", openHardKeyboardSettings)]

def encode : Command → Json
  | injectKeycode action key repeats metastate =>
    alternative "InjectKeycode" (record [("action", toJson action), ("keycode", toJson key),
      ("repeat", toJson repeats), ("metastate", toJson metastate)])
  | injectText s => alternative "InjectText" (record [("text", toJson s)])
  | injectTouch action pointer position pressure actionButton held =>
    alternative "InjectTouchEvent" (record [("action", toJson action),
      ("pointer_id", toJson pointer), ("position", toJson position), ("pressure", toJson pressure),
      ("action_button", toJson actionButton), ("buttons", toJson held)])
  | backOrScreenOn action => alternative "BackOrScreenOn" (record [("action", toJson action)])
  | expandNotificationPanel => text "ExpandNotificationPanel"
  | expandSettingsPanel => text "ExpandSettingsPanel"
  | collapsePanels => text "CollapsePanels"
  | getClipboard copyKey => alternative "GetClipboard" (record [("copy_key", toJson copyKey)])
  | setClipboard sequence s paste =>
    alternative "SetClipboard" (record [("sequence", toJson sequence), ("text", toJson s),
      ("paste", toJson paste)])
  | setScreenPower mode => alternative "SetScreenPowerMode" (record [("mode", toJson mode)])
  | rotateDevice => text "RotateDevice"
  | openHardKeyboardSettings => text "OpenHardKeyboardSettings"
  | injectControllerAxis e => alternative "InjectControllerAxis" (toJson e)
  | injectControllerButton e => alternative "InjectControllerButton" (toJson e)
  | injectControllerDevice id change =>
    alternative "InjectControllerDevice" (record [("controller", toJson id),
      ("change", toJson change)])

def decodeWith (name : String) (v : Json) : Option Command :=
  match name with
  | "InjectKeycode" => do
    let [action, key, repeats, metastate] ←
      v.record? ["action", "keycode", "repeat", "metastate"] | none
    some (injectKeycode (← ofJson? action) (← ofJson? key) (← ofJson? repeats)
      (← ofJson? metastate))
  | "InjectText" => do
    let [s] ← v.record? ["text"] | none
    some (injectText (← ofJson? s))
  | "InjectTouchEvent" => do
    let [action, pointer, position, pressure, actionButton, held] ←
      v.record? ["action", "pointer_id", "position", "pressure", "action_button", "buttons"] | none
    some (injectTouch (← ofJson? action) (← ofJson? pointer) (← ofJson? position)
      (← ofJson? pressure) (← ofJson? actionButton) (← ofJson? held))
  | "BackOrScreenOn" => do
    let [action] ← v.record? ["action"] | none
    some (backOrScreenOn (← ofJson? action))
  | "GetClipboard" => do
    let [copyKey] ← v.record? ["copy_key"] | none
    some (getClipboard (← ofJson? copyKey))
  | "SetClipboard" => do
    let [sequence, s, paste] ← v.record? ["sequence", "text", "paste"] | none
    some (setClipboard (← ofJson? sequence) (← ofJson? s) (← ofJson? paste))
  | "SetScreenPowerMode" => do
    let [mode] ← v.record? ["mode"] | none
    some (setScreenPower (← ofJson? mode))
  | "InjectControllerAxis" => (ofJson? v).map injectControllerAxis
  | "InjectControllerButton" => (ofJson? v).map injectControllerButton
  | "InjectControllerDevice" => do
    let [id, change] ← v.record? ["controller", "change"] | none
    some (injectControllerDevice (← ofJson? id) (← ofJson? change))
  | _ => none

def decode (j : Json) : Option Command :=
  (j.name?.bind fun name ↦ bare.lookup name).or do
    let (name, some v) ← j.alternative? | none
    decodeWith name v

end Command

instance : Form Command where
  toJson := Command.encode
  ofJson? := Command.decode

end InputRelay
