import InputRelay.Session.Controllers
import InputRelay.Session.Keyboard
import InputRelay.Session.Pointer

namespace InputRelay

variable {κ : Type} [CommandSink κ]

namespace Turn

/-- Handle an event. Files and controllers are of no use without a channel. -/
def handle (t : Turn κ) : Event → Turn κ
  | .key e => t.key e
  | .text e => t.text e
  | .motion e => t.motion e
  | .click e => t.click e
  | .wheel e => t.wheel e
  | .touch e => t.fingerTouch e
  | .fileDrop path => if t.session.channel.isSome then t.fileDrop path else t
  | .axis e => if t.session.channel.isSome then t.axis e else t
  | .padButton e => if t.session.channel.isSome then t.padButton e else t
  | .hotPlug e => if t.session.channel.isSome then t.hotPlug e else t

end Turn

namespace Session

def handle (s : Session κ) (e : Event) : Turn κ :=
  Turn.handle ⟨s, []⟩ e

def loadTouchmap (s : Session κ) (path : String) : Except TouchmapError Touchmap × Turn κ :=
  Turn.loadTouchmap ⟨s, []⟩ path

def unloadTouchmap (s : Session κ) : Turn κ :=
  Turn.unloadTouchmap ⟨s, []⟩

/-- The end of a session lifts what its touchmap holds. -/
def finish (s : Session κ) : Turn κ :=
  Turn.releaseContacts ⟨s, []⟩

structure Collaborators (κ : Type) where
  screen : Screen
  channel : Option κ := none
  keys : Option KeyProcessor := none
  pointer : Option PointerProcessor := none
  files : Option Bool := none
  picker : Option (List (Option String)) := none
  clipboard : Option Clipboard := none
  host : Option ControllerHost := none
  disk : Disk

/-- Begin a session. A touchmap that the configuration names is loaded if it can be; processors
need a channel. -/
def start (config : Config) (c : Collaborators κ) : Except ConfigError (Turn κ) :=
  if c.channel.isNone ∧ (c.keys.isSome ∨ c.pointer.isSome) then .error .processorsNeedChannel
  else
    let session : Session κ :=
      { screen := c.screen
        channel := c.channel
        keys := c.keys
        pointer := c.pointer
        files := c.files
        picker := c.picker
        clipboard := c.clipboard
        host := c.host
        disk := c.disk
        shortcutMods := .ofList config.input.shortcutMods
        bindings := config.bindings
        forwards := config.gamepad.forward
        sync :=
          { autosync := config.clipboard.autosync
            legacyPaste := config.clipboard.legacyPaste } }
    .ok (match config.gamepad.touchmap with
      | none => ⟨session, []⟩
      | some path => (session.loadTouchmap path).2)

def run (s : Session κ) (events : List Event) : Turn κ :=
  events.foldl Turn.handle ⟨s, []⟩

end Session

end InputRelay
