import InputRelay.Command
import InputRelay.Form.Geometry
import InputRelay.Text.FlagSet

namespace InputRelay

open Form Json

instance : Form Modifiers where
  toJson m := text (Modifiers.names.write m.bits)
  ofJson? j := do some ⟨← Modifiers.names.read? (← ofJson? j)⟩

instance : Form MouseButtons where
  toJson m := text (MouseButtons.names.write m.bits)
  ofJson? j := do some ⟨← MouseButtons.names.read? (← ofJson? j)⟩

instance : Form ControllerId where
  toJson id := toJson id.val
  ofJson? j := (ofJson? j).map ControllerId.mk

instance : Form ButtonCode where
  toJson c := toJson c.val
  ofJson? j := (ofJson? j).map ButtonCode.mk

instance : Form KeyCode where
  toJson
    | .unknown keysym => alternative "Unknown" (toJson keysym)
    | key => text key.name
  ofJson? j :=
    match j.alternative? with
    | some ("Unknown", some v) => (ofJson? v).map .unknown
    | _ => j.name?.bind fun name ↦ KeyCode.named.find? (·.name == name)

instance : Form MouseButton where
  toJson
    | .other index => alternative "Other" (toJson index)
    | button => text button.name
  ofJson? j :=
    match j.alternative? with
    | some ("Other", some v) => (ofJson? v).map .other
    | _ => j.name?.bind fun name ↦ MouseButton.named.find? (·.name == name)

instance : Form KeyEvent where
  toJson e := record [("keycode", toJson e.key), ("scancode", toJson e.scancode),
    ("state", toJson e.state), ("mods", toJson e.mods), ("repeat", toJson e.autoRepeat)]
  ofJson? j := do
    let [key, scancode, state, mods, autoRepeat] ←
      j.record? ["keycode", "scancode", "state", "mods", "repeat"] | none
    some ⟨← ofJson? key, ← ofJson? scancode, ← ofJson? state, ← ofJson? mods, ← ofJson? autoRepeat⟩

instance : Form TextInput where
  toJson e := record [("text", toJson e.text), ("mods", toJson e.mods)]
  ofJson? j := do
    let [text, mods] ← j.record? ["text", "mods"] | none
    some ⟨← ofJson? text, ← ofJson? mods⟩

instance : Form MouseMotion where
  toJson e := record [("x", toJson e.point.x), ("y", toJson e.point.y), ("xrel", toJson e.xrel),
    ("yrel", toJson e.yrel), ("buttons", toJson e.held), ("from_touch", toJson e.fromTouch)]
  ofJson? j := do
    let [x, y, xrel, yrel, held, fromTouch] ←
      j.record? ["x", "y", "xrel", "yrel", "buttons", "from_touch"] | none
    some ⟨⟨← ofJson? x, ← ofJson? y⟩, ← ofJson? xrel, ← ofJson? yrel, ← ofJson? held,
      ← ofJson? fromTouch⟩

instance : Form MouseClick where
  toJson e := record [("button", toJson e.button), ("state", toJson e.state),
    ("x", toJson e.point.x), ("y", toJson e.point.y), ("clicks", toJson e.clicks),
    ("buttons", toJson e.held), ("mods", toJson e.mods), ("from_touch", toJson e.fromTouch)]
  ofJson? j := do
    let [button, state, x, y, clicks, held, mods, fromTouch] ←
      j.record? ["button", "state", "x", "y", "clicks", "buttons", "mods", "from_touch"] | none
    some ⟨← ofJson? button, ← ofJson? state, ⟨← ofJson? x, ← ofJson? y⟩, ← ofJson? clicks,
      ← ofJson? held, ← ofJson? mods, ← ofJson? fromTouch⟩

instance : Form MouseWheel where
  toJson e := record [("x", toJson e.horizontal), ("y", toJson e.vertical),
    ("mouse_x", toJson e.point.x), ("mouse_y", toJson e.point.y), ("buttons", toJson e.held)]
  ofJson? j := do
    let [horizontal, vertical, x, y, held] ←
      j.record? ["x", "y", "mouse_x", "mouse_y", "buttons"] | none
    some ⟨← ofJson? horizontal, ← ofJson? vertical, ⟨← ofJson? x, ← ofJson? y⟩, ← ofJson? held⟩

instance : Form FingerTouch where
  toJson e := record [("action", toJson e.action), ("finger_id", toJson e.finger),
    ("x", toJson e.x), ("y", toJson e.y), ("pressure", toJson e.pressure)]
  ofJson? j := do
    let [action, finger, x, y, pressure] ←
      j.record? ["action", "finger_id", "x", "y", "pressure"] | none
    some ⟨← ofJson? action, ← ofJson? finger, ← ofJson? x, ← ofJson? y, ← ofJson? pressure⟩

instance : Form AxisMotion where
  toJson e := record [("controller", toJson e.controller), ("axis", toJson e.axis),
    ("value", toJson e.value)]
  ofJson? j := do
    let [controller, axis, value] ← j.record? ["controller", "axis", "value"] | none
    some ⟨← ofJson? controller, ← ofJson? axis, ← ofJson? value⟩

instance : Form PadButton where
  toJson e := record [("controller", toJson e.controller), ("button", toJson e.button),
    ("state", toJson e.state)]
  ofJson? j := do
    let [controller, button, state] ← j.record? ["controller", "button", "state"] | none
    some ⟨← ofJson? controller, ← ofJson? button, ← ofJson? state⟩

instance : Form HotPlug where
  toJson
    | .added index => alternative "Added" (record [("device_index", toJson index)])
    | .removed id => alternative "Removed" (record [("controller", toJson id)])
  ofJson? j := do
    let (name, some v) ← j.alternative? | none
    match name with
    | "Added" =>
      let [index] ← v.record? ["device_index"] | none
      some (.added (← ofJson? index))
    | "Removed" =>
      let [id] ← v.record? ["controller"] | none
      some (.removed (← ofJson? id))
    | _ => none

end InputRelay
