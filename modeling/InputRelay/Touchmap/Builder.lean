import InputRelay.Touchmap.Basic

namespace InputRelay

/-- Assembles touchmaps. Fingers are handed out in the order in which controls are added, also
from one map to the next. -/
structure TouchmapBuilder where
  walk : Option WalkControl := none
  controls : List Control := []
  nextFinger : PointerId := .firstMapped
deriving DecidableEq, Repr, Inhabited

namespace TouchmapBuilder

def takeFinger (b : TouchmapBuilder) : PointerId × TouchmapBuilder :=
  (b.nextFinger, { b with nextFinger := ⟨b.nextFinger.val + 1⟩ })

/-- Set the walk control. It replaces an earlier one, whose finger is not used again. -/
def setWalk (b : TouchmapBuilder) (center : Point) (radius : Int32) : TouchmapBuilder :=
  let (finger, b) := b.takeFinger
  { b with walk := some ⟨center, radius, finger⟩ }

def addControl (b : TouchmapBuilder) (code : ButtonCode) (center : Point) (kind : ControlKind) :
    TouchmapBuilder :=
  let (finger, b) := b.takeFinger
  { b with controls := b.controls ++ [⟨code, center, kind, finger⟩] }

/-- The map of what was added since the last one. Among controls with one code the first one
added comes first. -/
def build (b : TouchmapBuilder) : Touchmap × TouchmapBuilder :=
  (⟨b.walk, b.controls.mergeSort fun c d ↦ c.code.val ≤ d.code.val⟩,
    { b with walk := none, controls := [] })

end TouchmapBuilder

end InputRelay
