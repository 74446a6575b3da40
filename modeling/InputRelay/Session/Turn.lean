import InputRelay.Session.Basic

namespace InputRelay

/-- A session in the course of an event, with what it has done so far. -/
structure Turn (κ : Type) where
  session : Session κ
  effects : List Effect := []

namespace Turn

variable {κ : Type} [CommandSink κ]

def emit (t : Turn κ) (e : Effect) : Turn κ :=
  { t with effects := t.effects ++ [e] }

def attempt (t : Turn κ) (c : Command) : Bool × Turn κ :=
  match t.session.channel with
  | none => (false, t)
  | some channel =>
    let (verdict, channel) := CommandSink.push channel c
    (verdict.toBool, { t with session.channel := some channel }.emit (.push c verdict))

def push (t : Turn κ) (c : Command) : Turn κ :=
  (t.attempt c).2

/-- Offer a touch of the whole frame. A finger that is lifted presses no more. -/
def touch (t : Turn κ) (finger : PointerId) (action : MotionAction) (point : Point) :
    Bool × Turn κ :=
  t.attempt (.injectTouch action finger ⟨t.session.screen.frame, point⟩
    (if action = .up then .zero else .one) .none .none)

def commit (t : Turn κ) (touch : SyntheticTouch) : Turn κ :=
  { t with session.engine := t.session.engine.map (·.commit touch) }

/-- Offer the touches that a touchmap proposes and commit those that are taken. Of a finger that
lost a touch the later ones are left out, so that the device never sees a finger move that it did
not see go down. -/
def sendTouches (t : Turn κ) (lost : List PointerId) : List SyntheticTouch → Turn κ
  | [] => t
  | touch :: touches =>
    if lost.contains touch.finger then t.sendTouches lost touches
    else
      match t.touch touch.finger touch.action touch.point with
      | (true, t) => (t.commit touch).sendTouches lost touches
      | (false, t) => t.sendTouches (touch.finger :: lost) touches

def releaseContacts (t : Turn κ) : Turn κ :=
  match t.session.engine with
  | none => t
  | some engine =>
    let (touches, engine) := engine.releaseAll
    { t with session.engine := some engine }.sendTouches [] touches

/-- Replace the touchmap. If there is none at the path, nothing changes. -/
def loadTouchmap (t : Turn κ) (path : String) : Except TouchmapError Touchmap × Turn κ :=
  match Touchmap.ofFile t.session.disk path with
  | .error e => (.error e, t)
  | .ok map =>
    let t := t.releaseContacts
    (.ok map, { t with session.engine := some (.ofTouchmap map), session.forwards := false })

def unloadTouchmap (t : Turn κ) : Turn κ :=
  let t := t.releaseContacts
  { t with session.engine := none, session.forwards := true }

def pickTouchmap (t : Turn κ) : Turn κ :=
  match t.session.picker with
  | none => t
  | some answers =>
    let answer := answers.head?.join
    let t := { t with session.picker := some answers.tail }.emit (.pickFile answer)
    match answer with
    | none => t
    | some path => (t.loadTouchmap path).2

end Turn

end InputRelay
