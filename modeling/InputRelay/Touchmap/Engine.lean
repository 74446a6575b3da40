import InputRelay.Touchmap.Basic

namespace InputRelay

structure SyntheticTouch where
  finger : PointerId
  action : MotionAction
  point : Point
deriving DecidableEq, Repr, Inhabited

/-- A control with its contact: whether its finger is down, and where it was put last. -/
structure Contact (α : Type) where
  control : α
  point : Point
  held : Bool := false
deriving DecidableEq, Repr

/-- A touchmap at work. Its handlers propose touches; a contact goes down or up when the touch
that says so is committed. -/
structure TouchmapEngine where
  walk : Option (Contact WalkControl) := none
  controls : List (Contact Control) := []
deriving DecidableEq, Repr, Inhabited

/-- `center + value * radius / 32767`, the quotient truncated toward zero, the sum clamped. -/
def deflect (center : Int32) (value : Int16) (radius : Int32) : Int32 :=
  Int32.ofIntClamp
    (center.toInt + (value.toInt * radius.toInt).tdiv ControllerAxis.fullScale)

namespace Point

def deflectAxis (p : Point) (horizontal : Bool) (center : Point) (value : Int16) (radius : Int32) :
    Point :=
  if horizontal then { p with x := deflect center.x value radius }
  else { p with y := deflect center.y value radius }

def distanceSquared (p q : Point) : Int64 :=
  let dx := p.x.toInt64 - q.x.toInt64
  let dy := p.y.toInt64 - q.y.toInt64
  dx * dx + dy * dy

end Point

/-- The squared deflection in pixels below which the walk control is let go. -/
def walkDeadZone : Int64 := 25

namespace Contact

variable {α : Type}

/-- A committed down puts the finger where it touched, a committed up lifts it, and a move
changes nothing. -/
def commit (c : Contact α) (t : SyntheticTouch) : Contact α :=
  match t.action with
  | .down => { c with held := true, point := t.point }
  | .up => { c with held := false }
  | .move => c

def isAiming (c : Contact Control) : Bool :=
  c.held && c.control.isSkill

def walkTouches (c : Contact WalkControl) : List SyntheticTouch :=
  let touch (action : MotionAction) (point : Point) : SyntheticTouch :=
    ⟨c.control.finger, action, point⟩
  if c.point.distanceSquared c.control.center < walkDeadZone then
    if c.held then [touch .up c.control.center] else []
  else if c.held then [touch .move c.point]
  else [touch .down c.point, touch .move c.point]

def aim (c : Contact Control) (horizontal : Bool) (value : Int16) : Contact Control :=
  if c.isAiming then
    { c with point := c.point.deflectAxis horizontal c.control.center value c.control.radius }
  else c

end Contact

namespace TouchmapEngine

def ofTouchmap (m : Touchmap) : TouchmapEngine where
  walk := m.walk.map fun w ↦ { control := w, point := w.center }
  controls := m.controls.map fun c ↦ { control := c, point := c.center }

def touchmap (e : TouchmapEngine) : Touchmap where
  walk := e.walk.map (·.control)
  controls := e.controls.map (·.control)

theorem touchmap_ofTouchmap (m : Touchmap) : (ofTouchmap m).touchmap = m := by
  obtain ⟨walk, controls⟩ := m
  simp [touchmap, ofTouchmap, Function.comp_def]

def hasContacts (e : TouchmapEngine) : Bool :=
  e.walk.any (·.held) || e.controls.any (·.held)

def button (e : TouchmapEngine) (code : ButtonCode) (pressed : Bool) : List SyntheticTouch :=
  match e.touchmap.lookup? code with
  | none => []
  | some (i, control) =>
    if e.controls[i]?.any (·.held) = pressed then []
    else [⟨control.finger, if pressed then .down else .up, control.center⟩]

def steer (e : TouchmapEngine) (horizontal : Bool) (value : Int16) :
    List SyntheticTouch × TouchmapEngine :=
  match e.walk with
  | none => ([], e)
  | some c =>
    let c := { c with
      point := c.point.deflectAxis horizontal c.control.center value c.control.radius }
    (c.walkTouches, { e with walk := some c })

def aim (e : TouchmapEngine) (horizontal : Bool) (value : Int16) :
    List SyntheticTouch × TouchmapEngine :=
  let controls := e.controls.map (·.aim horizontal value)
  ((controls.filter (·.isAiming)).map fun c ↦ ⟨c.control.finger, .move, c.point⟩,
    { e with controls })

/-- A trigger counts as pressed from a fifth of its full scale on. -/
def triggerPressed (value : Int16) : Bool :=
  (value.toInt * 5).tdiv ControllerAxis.fullScale != 0

def axis (e : TouchmapEngine) (axis : ControllerAxis) (value : Int16) :
    List SyntheticTouch × TouchmapEngine :=
  match axis with
  | .leftX => e.steer true value
  | .leftY => e.steer false value
  | .rightX => e.aim true value
  | .rightY => e.aim false value
  | .triggerLeft => (e.button ⟨25⟩ (triggerPressed value), e)
  | .triggerRight => (e.button ⟨26⟩ (triggerPressed value), e)

def commitFirst (t : SyntheticTouch) : List (Contact Control) → List (Contact Control)
  | [] => []
  | c :: cs => if c.control.finger = t.finger then c.commit t :: cs else c :: commitFirst t cs

/-- Take note that a touch reached the device. The walk control comes before the others. -/
def commit (e : TouchmapEngine) (t : SyntheticTouch) : TouchmapEngine :=
  match e.walk with
  | some w =>
    if w.control.finger = t.finger then { e with walk := some (w.commit t) }
    else { e with controls := commitFirst t e.controls }
  | none => { e with controls := commitFirst t e.controls }

/-- Lift every contact that is held, and count it as lifted. -/
def releaseAll (e : TouchmapEngine) : List SyntheticTouch × TouchmapEngine :=
  ((e.walk.toList.filter (·.held)).map (fun w ↦ ⟨w.control.finger, .up, w.control.center⟩) ++
      (e.controls.filter (·.held)).map (fun c ↦ ⟨c.control.finger, .up, c.control.center⟩),
    { walk := e.walk.map ({ · with held := false })
      controls := e.controls.map ({ · with held := false }) })

end TouchmapEngine

end InputRelay
