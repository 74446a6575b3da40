import InputRelay.Form.Command
import InputRelay.Proofs.Form.Event

namespace InputRelay

open Form Json

instance : Lossless PointerId where
  ofJson?_toJson id := by
    change Option.map PointerId.mk (ofJson? (toJson id.val)) = some id
    simp

instance : Lossless AckSequence where
  ofJson?_toJson s := by
    change Option.map AckSequence.mk (ofJson? (toJson s.val)) = some s
    simp

theorem Numeral.toSingle?_zero : (ofSingle .zero).toSingle? = some .zero := by
  have hwritten : ofSingle .zero = ⟨false, 0, [0], none⟩ := by decide
  have hscale : scale (Binary.double.nearest 0 1) (-1) = some 0 := by
    rw [scale]
    decide +kernel
  rw [hwritten]
  change (scale (Binary.double.nearest 0 1) (-1)).map _ = some Binary32.zero
  rw [hscale]
  decide

theorem Numeral.toSingle?_one : (ofSingle .one).toSingle? = some .one := by
  have hwritten : ofSingle .one = ⟨false, 1, [0], none⟩ := by decide
  have hscale : scale (Binary.double.nearest 10 1) (-1) = some 0x3ff0000000000000 := by
    rw [scale]
    decide +kernel
  rw [hwritten]
  change (scale (Binary.double.nearest 10 1) (-1)).map _ = some Binary32.one
  rw [hscale]
  decide

theorem Binary32.ofJson?_toJson {a : Binary32} (h : a = .zero ∨ a = .one) :
    ofJson? (toJson a) = some a := by
  rcases h with rfl | rfl
  · exact Numeral.toSingle?_zero
  · exact Numeral.toSingle?_one

namespace Command

def Plain : Command → Prop
  | injectTouch _ _ _ pressure _ _ => pressure = .zero ∨ pressure = .one
  | _ => True

theorem decode_alternative (name : String) (members : List (String × Json)) :
    decode (alternative name (record members)) = decodeWith name (record members) :=
  rfl

theorem ofJson?_toJson {c : Command} (h : c.Plain) : ofJson? (toJson c) = some c := by
  cases c with
  | expandNotificationPanel | expandSettingsPanel | collapsePanels | rotateDevice
  | openHardKeyboardSettings => rfl
  | injectControllerAxis e =>
    change Option.map injectControllerAxis (ofJson? (toJson e)) = _
    simp
  | injectControllerButton e =>
    change Option.map injectControllerButton (ofJson? (toJson e)) = _
    simp
  | injectTouch action pointer position pressure actionButton held =>
    have hpressure := Binary32.ofJson?_toJson h
    refine (decode_alternative "InjectTouchEvent" _).trans ?_
    simp [decodeWith, hpressure]
  | _ =>
    refine (decode_alternative _ _).trans ?_
    simp [decodeWith]

end Command

namespace Form

/-- Reading undoes writing for all that events and commands are made of besides single-precision
numbers, for the events without such numbers, and for the commands that hold zero or one of them. -/
theorem protocol_round_trips :
    (RoundTrips KeyEvent ∧ RoundTrips TextInput ∧ RoundTrips MouseMotion ∧ RoundTrips MouseClick ∧
        RoundTrips AxisMotion ∧ RoundTrips PadButton ∧ RoundTrips HotPlug) ∧
      (RoundTrips Point ∧ RoundTrips Size ∧ RoundTrips Rect ∧ RoundTrips Position ∧
        RoundTrips Orientation) ∧
      (RoundTrips Modifiers ∧ RoundTrips MouseButtons) ∧
      (RoundTrips ControllerId ∧ RoundTrips ButtonCode ∧ RoundTrips PointerId ∧
        RoundTrips AckSequence) ∧
      (RoundTrips ButtonState ∧ RoundTrips KeyCode ∧ RoundTrips MouseButton ∧
        RoundTrips TouchAction ∧ RoundTrips ControllerButton ∧ RoundTrips ControllerAxis ∧
        RoundTrips DeviceKey ∧ RoundTrips MotionAction ∧ RoundTrips CopyKey ∧
        RoundTrips ScreenPower ∧ RoundTrips ControllerChange) ∧
      ∀ c : Command, c.Plain → read? (write c) = some c := by
  have hcommand : ∀ c : Command, c.Plain → read? (write c) = some c :=
    fun c hc ↦ read?_write_of_ofJson? (Command.ofJson?_toJson hc)
  repeat' apply And.intro
  all_goals first | exact hcommand | exact Lossless.roundTrips

theorem protocol_round_trips_touch :
    (Command.injectTouch .down .mouse ⟨⟨1080, 1920⟩, ⟨-1, 7⟩⟩ .one .left ⟨0xff#8⟩).Plain ∧
      read? (write (Command.injectTouch .down .mouse ⟨⟨1080, 1920⟩, ⟨-1, 7⟩⟩ .one .left ⟨0xff#8⟩)) =
        some (Command.injectTouch .down .mouse ⟨⟨1080, 1920⟩, ⟨-1, 7⟩⟩ .one .left ⟨0xff#8⟩) := by
  have hplain : (Command.injectTouch .down .mouse ⟨⟨1080, 1920⟩, ⟨-1, 7⟩⟩ .one .left
    ⟨0xff#8⟩).Plain := Or.inr rfl
  exact ⟨hplain, protocol_round_trips.2.2.2.2.2 _ hplain⟩

end Form

end InputRelay
