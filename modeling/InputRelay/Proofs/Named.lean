import InputRelay.Binding
import InputRelay.Command
import InputRelay.Controller
import InputRelay.Orientation
import InputRelay.Shortcut

namespace InputRelay

/-- Every member of a vocabulary is found by its name. -/
class Named.Lawful (α : Type) [Named α] : Prop where
  ofName?_name (a : α) : Named.ofName? (Named.name a) = some a

instance : Named.Lawful ShortcutMod where
  ofName?_name a := by cases a <;> rfl

instance : Named.Lawful MouseBinding where
  ofName?_name a := by cases a <;> rfl

instance : Named.Lawful ButtonState where
  ofName?_name a := by cases a <;> rfl

instance : Named.Lawful TouchAction where
  ofName?_name a := by cases a <;> rfl

instance : Named.Lawful ControllerButton where
  ofName?_name button := by cases button <;> rfl

instance : Named.Lawful ControllerAxis where
  ofName?_name a := by cases a <;> rfl

instance : Named.Lawful Orientation where
  ofName?_name := by
    rintro ⟨quarterTurns, flipped⟩
    revert quarterTurns flipped
    decide

instance : Named.Lawful DeviceKey where
  ofName?_name key := by cases key <;> rfl

instance : Named.Lawful MotionAction where
  ofName?_name action := by cases action <;> rfl

instance : Named.Lawful CopyKey where
  ofName?_name key := by cases key <;> rfl

instance : Named.Lawful ScreenPower where
  ofName?_name mode := by cases mode <;> rfl

instance : Named.Lawful ControllerChange where
  ofName?_name change := by cases change <;> rfl

end InputRelay
