import InputRelay.Form.Event
import InputRelay.Proofs.Form.Lossless
import InputRelay.Proofs.Text.FlagSet

namespace InputRelay

open Form Json

instance : Lossless Point where
  ofJson?_toJson p := by
    change Option.bind (record? _ (record _)) _ = some p
    simp

instance : Lossless Size where
  ofJson?_toJson s := by
    change Option.bind (record? _ (record _)) _ = some s
    simp

instance : Lossless Rect where
  ofJson?_toJson r := by
    change Option.bind (record? _ (record _)) _ = some r
    simp

instance : Lossless Position where
  ofJson?_toJson p := by
    change Option.bind (record? _ (record _)) _ = some p
    simp

instance : Lossless Modifiers where
  ofJson?_toJson m := by
    change Option.bind (Modifiers.names.read? (Modifiers.names.write m.bits)) _ = some m
    rw [Modifiers.proper_names.read?_write, Option.bind_some]

instance : Lossless MouseButtons where
  ofJson?_toJson m := by
    change Option.bind (MouseButtons.names.read? (MouseButtons.names.write m.bits)) _ = some m
    rw [MouseButtons.proper_names.read?_write, Option.bind_some]

instance : Lossless ControllerId where
  ofJson?_toJson id := by
    change Option.map ControllerId.mk (ofJson? (toJson id.val)) = some id
    simp

instance : Lossless ButtonCode where
  ofJson?_toJson c := by
    change Option.map ButtonCode.mk (ofJson? (toJson c.val)) = some c
    simp

theorem KeyCode.ofJson?_named : ∀ key ∈ named, ofJson? (toJson key) = some key := by
  decide

instance : Lossless KeyCode where
  ofJson?_toJson key := by
    cases key with
    | unknown keysym =>
      change Option.map KeyCode.unknown (ofJson? (toJson keysym)) = _
      simp
    | _ => exact KeyCode.ofJson?_named _ (by decide)

instance : Lossless MouseButton where
  ofJson?_toJson button := by
    cases button with
    | other index =>
      change Option.map MouseButton.other (ofJson? (toJson index)) = _
      simp
    | _ => rfl

instance : Lossless KeyEvent where
  ofJson?_toJson e := by
    change Option.bind (record? _ (record _)) _ = some e
    simp

instance : Lossless TextInput where
  ofJson?_toJson e := by
    change Option.bind (record? _ (record _)) _ = some e
    simp

instance : Lossless MouseMotion where
  ofJson?_toJson e := by
    change Option.bind (record? _ (record _)) _ = some e
    simp

instance : Lossless MouseClick where
  ofJson?_toJson e := by
    change Option.bind (record? _ (record _)) _ = some e
    simp

instance : Lossless AxisMotion where
  ofJson?_toJson e := by
    change Option.bind (record? _ (record _)) _ = some e
    simp

instance : Lossless PadButton where
  ofJson?_toJson e := by
    change Option.bind (record? _ (record _)) _ = some e
    simp

instance : Lossless HotPlug where
  ofJson?_toJson e := by
    cases e with
    | added index | removed id =>
      change Option.bind (alternative? (alternative _ _)) _ = _
      simp

end InputRelay
