import InputRelay.Session.Turn

namespace InputRelay

/-- What becomes of a Ctrl+V: it is forwarded once the device has acknowledged a clipboard, or it
is not forwarded. -/
inductive CtrlV
  | forward (ack : AckSequence)
  | consumed
deriving DecidableEq, Repr

namespace Turn

variable {κ : Type} [CommandSink κ]

def readClipboard (t : Turn κ) : Except ClipboardError String × Turn κ :=
  (Clipboard.read t.session.clipboard,
    if t.session.clipboard.isSome then t.emit .readClipboard else t)

def injectClipboard (t : Turn κ) : Turn κ :=
  match t.readClipboard with
  | (.ok text, t) => t.push (.injectText text)
  | (.error _, t) => t

def setClipboard (t : Turn κ) (paste : Bool) (sequence : AckSequence) : Bool × Turn κ :=
  match t.readClipboard with
  | (.ok text, t) => t.attempt (.setClipboard sequence text paste)
  | (.error _, t) => (false, t)

/-- Hand the clipboard over ahead of a Ctrl+V. A sequence number is used up only when the command
that carries it was taken. -/
def beforeCtrlV (t : Turn κ) (asyncPaste : Bool) : CtrlV × Turn κ :=
  let sync := t.session.sync
  if !sync.autosync then (.forward .none, t)
  else if sync.legacyPaste then (.consumed, t.injectClipboard)
  else
    let sequence := if asyncPaste then sync.next else .none
    match t.setClipboard false sequence with
    | (false, t) => (.consumed, t)
    | (true, t) =>
      if sequence.isNone then (.forward .none, t)
      else (.forward sequence, { t with session.sync.next := t.session.sync.next.next })

/-- The paste shortcut sets the clipboard and pastes it on the device, or types it. -/
def paste (t : Turn κ) (asText : Bool) : Turn κ :=
  if asText || t.session.sync.legacyPaste then t.injectClipboard else (t.setClipboard true .none).2

def onScreen (t : Turn κ) (f : Screen → Screen) : Turn κ :=
  { t with session.screen := f t.session.screen }

def act (t : Turn κ) (state : ButtonState) : ShortcutAction → Turn κ
  | .deviceKey key => t.push (.press key state)
  | .screenPower mode => t.push (.setScreenPower mode)
  | .pause paused => t.onScreen ({ · with paused })
  | .orient o => t.onScreen (·.turn o)
  | .copyFromDevice key => t.push (.getClipboard key)
  | .paste asText => if t.session.channel.isSome then t.paste asText else t
  | .toggleFullscreen =>
    t.onScreen fun s ↦ { s with fullscreenToggles := s.fullscreenToggles + 1 }
  | .resizeToFit => t.onScreen fun s ↦ { s with resizesToFit := s.resizesToFit + 1 }
  | .resizeToPixelPerfect =>
    t.onScreen fun s ↦ { s with resizesToPixelPerfect := s.resizesToPixelPerfect + 1 }
  | .toggleFpsCounter =>
    t.onScreen fun s ↦ { s with fpsCounterToggles := s.fpsCounterToggles + 1 }
  | .expandPanels =>
    t.push (if t.session.repeats.count = 0 then .expandNotificationPanel else .expandSettingsPanel)
  | .collapsePanels => t.push .collapsePanels
  | .rotateDevice => t.push .rotateDevice
  | .openHardKeyboardSettings => t.push .openHardKeyboardSettings
  | .loadTouchmap => t.pickTouchmap
  | .unloadTouchmap => t.unloadTouchmap

def shortcut (t : Turn κ) (e : KeyEvent) : Turn κ :=
  match Shortcut.find? e.key e.mods.hasShift with
  | none => t
  | some s => if s.guard.permits (t.session.meets e) then t.act e.state s.action else t

def isCtrlV (e : KeyEvent) : Bool :=
  e.mods.hasCtrl && !e.mods.hasShift && e.key == .keyV && e.state.isPressed && !e.autoRepeat

def forwardKey (t : Turn κ) (keys : KeyProcessor) (e : KeyEvent) : Turn κ :=
  if isCtrlV e then
    if t.session.channel.isSome then
      match t.beforeCtrlV keys.asyncPaste with
      | (.forward ack, t) => t.emit (.key e ack)
      | (.consumed, t) => t
    else t
  else t.emit (.key e .none)

def countPress (t : Turn κ) (e : KeyEvent) : Turn κ :=
  if e.state.isPressed && !e.autoRepeat then
    { t with session.repeats := t.session.repeats.record e.key e.mods }
  else t

def key (t : Turn κ) (e : KeyEvent) : Turn κ :=
  let t := t.countPress e
  if t.session.shortcutMods.isShortcut e.key e.mods then t.shortcut e
  else if t.session.isPaused then t
  else match t.session.keys with
    | none => t
    | some keys => t.forwardKey keys e

/-- Text goes to a key processor that takes it. A shortcut must not produce text. -/
def text (t : Turn κ) (e : TextInput) : Turn κ :=
  match t.session.keys with
  | none => t
  | some keys =>
    if !t.session.isPaused && keys.supportsText && !t.session.shortcutMods.isHeld e.mods then
      t.emit (.text e)
    else t

end Turn

end InputRelay
