import InputRelay.Command

namespace InputRelay

namespace Inversion

/-- Control reflects both axes and Shift the horizontal one. Both or neither reflect nothing. -/
def ofModifiers? (mods : Modifiers) : Option Inversion :=
  if mods.hasCtrl = mods.hasShift then none else some ⟨true, mods.hasCtrl⟩

end Inversion

/-- The second finger of a pinch or a tilt. While it is down, it keeps the axes on which it
reflects the pointer. -/
structure VirtualFinger where
  active : Option Inversion := none
deriving DecidableEq, Repr, Inhabited

namespace VirtualFinger

/-- A touch of the finger that is still to be sent. -/
structure Transition where
  action : MotionAction
  inversion : Inversion
deriving DecidableEq, Repr

def onLeftButton (f : VirtualFinger) (pressed : Bool) (mods : Modifiers) : Option Transition :=
  match pressed, f.active with
  | true, none => (Inversion.ofModifiers? mods).map (⟨.down, ·⟩)
  | false, some inversion => some ⟨.up, inversion⟩
  | _, _ => none

def commit (t : Transition) : VirtualFinger :=
  ⟨if t.action = .down then some t.inversion else none⟩

def pointer (secondaryClick : Bool) : PointerId :=
  if secondaryClick then .virtualMouse else .virtualFinger

end VirtualFinger

end InputRelay
