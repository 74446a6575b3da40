import InputRelay.Geometry
import InputRelay.Orientation

namespace InputRelay

/-- The window that shows the device, and how often it was asked for what leaves no other trace. -/
structure Screen where
  paused : Bool := false
  hasVideo : Bool := true
  frame : Size
  /-- Where the frame is drawn, in drawable coordinates. -/
  content : Rect
  drawable : Size
  /-- Drawable pixels per window unit. -/
  hidpi : Int32 := 1
  orientation : Orientation := .upright
  fullscreenToggles : Nat := 0
  resizesToFit : Nat := 0
  resizesToPixelPerfect : Nat := 0
  fpsCounterToggles : Nat := 0
deriving DecidableEq, Repr

namespace Screen

def ofFrame (frame : Size) : Screen where
  frame := frame
  content := ⟨0, 0, frame.width, frame.height⟩
  drawable := frame

/-- Carry a coordinate from `[offset, offset + extent]` to `[0, frame]`, in 64-bit arithmetic
truncated toward zero and then clamped. An empty range changes nothing. -/
def scale (value offset : Int32) (extent frame : UInt32) : Int32 :=
  if extent = 0 then value
  else Int32.ofIntClamp <| Int64.toInt <|
    (value.toInt64 - offset.toInt64) * frame.toUInt64.toInt64 / extent.toUInt64.toInt64

def drawableToFrame (s : Screen) (p : Point) : Point where
  x := scale p.x s.content.x s.content.width s.frame.width
  y := scale p.y s.content.y s.content.height s.frame.height

def windowToDrawable (s : Screen) (p : Point) : Point where
  x := Int32.ofIntClamp (p.x.toInt * s.hidpi.toInt)
  y := Int32.ofIntClamp (p.y.toInt * s.hidpi.toInt)

def windowToFrame (s : Screen) (p : Point) : Point :=
  s.drawableToFrame (s.windowToDrawable p)

def onContent (s : Screen) (p : Point) : Bool :=
  s.content.contains (s.windowToDrawable p)

def turn (s : Screen) (o : Orientation) : Screen :=
  { s with orientation := s.orientation.compose o }

end Screen

end InputRelay
