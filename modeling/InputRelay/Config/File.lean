import InputRelay.Config.Basic
import InputRelay.Disk
import InputRelay.Toml.Reader
import InputRelay.Toml.Writer

namespace InputRelay

open Toml

inductive ConfigError
  | unreadable (e : ReadError)
  | malformed
  /-- Processors were attached to a session without a channel. -/
  | processorsNeedChannel
deriving DecidableEq, Repr

def ConfigError.message (e : ConfigError) : String :=
  "configuration error: " ++ match e with
    | unreadable e => "failed to read config: " ++ e.message
    | malformed => "failed to parse config"
    | processorsNeedChannel => "key and pointer processors need a control channel"

namespace Toml.Value

/-- The values under known keys of a section; unknown keys are ignored. A list may stand for the
section: it holds the values in order, and what is missing or too much does not matter. A date
holds none of them. -/
def fields? (names : List String) : Value → Option (List (Option Value))
  | table entries => some (names.map fun name ↦ entries.lookup name)
  | array items => some ((items.map some ++ names.map fun _ ↦ none).take names.length)
  | dateTime => some (names.map fun _ ↦ none)
  | _ => none

def boolean? : Value → Option Bool
  | boolean b => some b
  | _ => none

def string? : Value → Option String
  | string s => some s
  | _ => none

/-- A word of a vocabulary. It may also be the only key of a table, above nothing. -/
def word? {α : Type} [Named α] : Value → Option α
  | string s => Named.ofName? s
  | table [(s, table [])] => Named.ofName? s
  | table [(s, array [])] => Named.ofName? s
  | _ => none

def words? {α : Type} [Named α] : Value → Option (List α)
  | array items => items.mapM word?
  | _ => none

def orElse {α : Type} (read : Value → Option α) (fallback : α) : Option Value → Option α
  | none => some fallback
  | some v => read v

end Toml.Value

open Toml.Value

namespace BindingsConfig

def ofToml? (v : Value) : Option BindingsConfig := do
  let [right, middle, click4, click5] ← v.fields? ["right", "middle", "click4", "click5"] | none
  some ⟨← orElse word? Fallback.right right, ← orElse word? Fallback.middle middle,
    ← orElse word? Fallback.click4 click4, ← orElse word? Fallback.click5 click5⟩

end BindingsConfig

namespace InputConfig

def ofToml? (v : Value) : Option InputConfig := do
  let [mods, forwardAll, bindings] ←
    v.fields? ["shortcut_mods", "forward_all_clicks", "mouse_bindings"] | none
  some ⟨← orElse words? Fallback.shortcutMods mods, ← orElse boolean? false forwardAll,
    ← orElse BindingsConfig.ofToml? {} bindings⟩

end InputConfig

namespace ClipboardConfig

def ofToml? (v : Value) : Option ClipboardConfig := do
  let [autosync, legacyPaste] ← v.fields? ["autosync", "legacy_paste"] | none
  some ⟨← orElse boolean? Fallback.enabled autosync, ← orElse boolean? false legacyPaste⟩

end ClipboardConfig

namespace GamepadConfig

def ofToml? (v : Value) : Option GamepadConfig := do
  let [forward, touchmap] ← v.fields? ["forward", "touchmap"] | none
  some ⟨← orElse boolean? Fallback.enabled forward,
    ← orElse (fun v ↦ v.string?.map some) none touchmap⟩

end GamepadConfig

namespace LogConfig

def ofToml? (v : Value) : Option LogConfig := do
  let [level] ← v.fields? ["level"] | none
  some ⟨← orElse Value.string? Fallback.level level⟩

end LogConfig

namespace Config

def ofToml? (v : Value) : Option Config := do
  let [input, clipboard, gamepad, log] ←
    v.fields? ["input", "clipboard", "gamepad", "log"] | none
  some ⟨← orElse InputConfig.ofToml? {} input, ← orElse ClipboardConfig.ofToml? {} clipboard,
    ← orElse GamepadConfig.ofToml? {} gamepad, ← orElse LogConfig.ofToml? {} log⟩

/-- The settings of a configuration. The touchmap is left out where there is none. -/
def sections (c : Config) : List Section := [
  ⟨["input"], [
    ("shortcut_mods", .texts (c.input.shortcutMods.map Named.name)),
    ("forward_all_clicks", .flag c.input.forwardAllClicks)]⟩,
  ⟨["input", "mouse_bindings"], [
    ("right", .text (Named.name c.input.bindings.right)),
    ("middle", .text (Named.name c.input.bindings.middle)),
    ("click4", .text (Named.name c.input.bindings.click4)),
    ("click5", .text (Named.name c.input.bindings.click5))]⟩,
  ⟨["clipboard"], [
    ("autosync", .flag c.clipboard.autosync),
    ("legacy_paste", .flag c.clipboard.legacyPaste)]⟩,
  ⟨["gamepad"],
    ("forward", .flag c.gamepad.forward) ::
      c.gamepad.touchmap.toList.map fun path ↦ ("touchmap", .text path)⟩,
  ⟨["log"], [("level", .text c.log.level)]⟩]

def toToml (c : Config) : String :=
  String.ofList (writeSections c.sections)

def ofText (s : String) : Except ConfigError Config :=
  match (Toml.read s.toList).bind ofToml? with
  | some c => .ok c
  | none => .error .malformed

def load (disk : Disk) (path : String) : Except ConfigError Config :=
  match disk.read path with
  | .ok s => ofText s
  | .error e => .error (.unreadable e)

/-- Where there is no file, the defaults hold. -/
def loadOrDefault (disk : Disk) (path : String) : Except ConfigError Config :=
  match disk.read path with
  | .ok s => ofText s
  | .error e => if e.isAbsence then .ok {} else .error (.unreadable e)

def below (directory name : String) : String :=
  if directory.endsWith "/" then directory ++ name else directory ++ "/" ++ name

/-- The configuration directory counts only as an absolute path; else it is below the home
directory. -/
def defaultPath (home : String) (configHome : Option String) : String :=
  let directory := match configHome with
    | some path => if path.startsWith "/" then path else below home ".config"
    | none => below home ".config"
  below (below directory "touchdeck") "config.toml"

end Config

end InputRelay
