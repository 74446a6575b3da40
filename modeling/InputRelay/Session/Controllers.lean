import InputRelay.Session.Turn

namespace InputRelay.Turn

variable {κ : Type} [CommandSink κ]

/-- An axis is forwarded as it is, or it drives the touchmap if there is one. -/
def axis (t : Turn κ) (e : AxisMotion) : Turn κ :=
  if t.session.forwards then t.push (.injectControllerAxis e)
  else match t.session.engine with
    | none => t
    | some engine =>
      let (touches, engine) := engine.axis e.axis e.value
      { t with session.engine := some engine }.sendTouches [] touches

def padButton (t : Turn κ) (e : PadButton) : Turn κ :=
  if t.session.forwards then t.push (.injectControllerButton e)
  else match t.session.engine with
    | none => t
    | some engine => t.sendTouches [] (engine.button e.button.code e.state.isPressed)

def addController (t : Turn κ) (index : UInt32) : Turn κ :=
  if t.session.slots.isFull then t
  else match t.session.host with
    | none => t
    | some host =>
      let (answer, host) := host.open? index
      let t := { t with session.host := some host }.emit (.openController index answer)
      match answer with
      | none => t
      | some id =>
        match t.session.slots.insert id with
        | .ok (_, slots) =>
          { t with session.slots := slots }.push (.injectControllerDevice id .added)
        | .error _ => { t with session.host := some (host.close id) }.emit (.closeController id)

def removeController (t : Turn κ) (id : ControllerId) : Turn κ :=
  if t.session.slots.contains id then
    let t := match t.session.host with
      | none => t
      | some host => { t with session.host := some (host.close id) }.emit (.closeController id)
    match t.session.slots.erase id with
    | .ok (_, slots) =>
      { t with session.slots := slots }.push (.injectControllerDevice id .removed)
    | .error _ => t
  else t

def hotPlug (t : Turn κ) : HotPlug → Turn κ
  | .added index => t.addController index
  | .removed id => t.removeController id

def fileDrop (t : Turn κ) (path : String) : Turn κ :=
  match t.session.files with
  | none => t
  | some accepts => t.emit (.file (.ofPath path) path accepts)

end InputRelay.Turn
