import InputRelay.Session.Turn

namespace InputRelay.Turn

variable {κ : Type} [CommandSink κ]

def moveFinger (t : Turn κ) (p : Point) : Turn κ :=
  match t.session.finger.active with
  | none => t
  | some inversion =>
    let screen := t.session.screen
    (t.touch t.session.fingerId .move ((screen.windowToFrame p).mirror screen.frame inversion)).2

/-- Motion that was made up from a touch is reported as that touch already. -/
def motion (t : Turn κ) (e : MouseMotion) : Turn κ :=
  let s := t.session
  if e.fromTouch || s.isPaused || s.pointer.isNone then t
  else
    (t.emit (.pointer (.motion (s.position e.point) s.pointerId e.xrel e.yrel
      (s.bindings.forwarded e.held)))).moveFinger e.point

def runBinding (t : Turn κ) (e : MouseClick) : MouseBinding → Turn κ
  | .click | .auto | .disabled => t
  | .back => if t.session.keys.isSome then t.push (.backOrScreenOn e.state) else t
  | .home => if t.session.keys.isSome then t.push (.press .home e.state) else t
  | .appSwitch => if t.session.keys.isSome then t.push (.press .appSwitch e.state) else t
  | .expandNotificationPanel =>
    if e.state.isPressed then
      t.push (if e.clicks < 2 then .expandNotificationPanel else .expandSettingsPanel)
    else t

/-- A press puts the second finger down and a release lifts it, once its touch is taken. -/
def updateFinger (t : Turn κ) (e : MouseClick) : Turn κ :=
  match t.session.finger.onLeftButton e.state.isPressed e.mods with
  | none => t
  | some transition =>
    let screen := t.session.screen
    let point := (screen.windowToFrame e.point).mirror screen.frame transition.inversion
    match t.touch t.session.fingerId transition.action point with
    | (true, t) => { t with session.finger := VirtualFinger.commit transition }
    | (false, t) => t

/-- Whether a click is a double-click beside the device, which only concerns the window. -/
def isBorderClick (s : Session κ) (e : MouseClick) : Bool :=
  s.screen.hasVideo && !s.isRelative && e.button == .left && e.clicks == 2 &&
    !s.screen.onContent e.point

def forwardClick (t : Turn κ) (e : MouseClick) : Turn κ :=
  let s := t.session
  let t := t.emit (.pointer (.click (s.position e.point) e.state e.button s.pointerId
    (s.bindings.forwarded e.held)))
  if !s.isRelative && e.button == .left then t.updateFinger e else t

def click (t : Turn κ) (e : MouseClick) : Turn κ :=
  let s := t.session
  let binding := s.bindings.get e.button
  if e.fromTouch then t
  else if s.channel.isSome && !s.isPaused && binding != .click && binding != .auto then
    t.runBinding e binding
  else if isBorderClick s e then
    if e.state.isPressed then
      { t with session.screen.resizesToFit := s.screen.resizesToFit + 1 }
    else t
  else if s.pointer.isNone || s.isPaused then t
  else t.forwardClick e

/-- Scrolling goes on in steps of at most one. -/
def wheel (t : Turn κ) (e : MouseWheel) : Turn κ :=
  let s := t.session
  if !s.isPaused && s.pointer.any (·.supportsScroll) then
    t.emit (.pointer (.scroll (s.position e.point) (e.horizontal.clamp .negOne .one)
      (e.vertical.clamp .negOne .one) (s.bindings.forwarded e.held)))
  else t

def drawablePixel (fraction : Binary32) (extent : UInt32) : Int32 :=
  (fraction.mul (.ofNat extent.toNat)).toInt32

def fingerTouch (t : Turn κ) (e : FingerTouch) : Turn κ :=
  let s := t.session
  if !s.isPaused && s.pointer.any (·.supportsTouch) then
    let pixel : Point :=
      ⟨drawablePixel e.x s.screen.drawable.width, drawablePixel e.y s.screen.drawable.height⟩
    t.emit (.pointer (.touch ⟨s.screen.frame, s.screen.drawableToFrame pixel⟩ e.action ⟨e.finger⟩
      e.pressure))
  else t

end InputRelay.Turn
