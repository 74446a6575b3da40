import InputRelay.Config.File
import InputRelay.Proofs.Json.Members
import InputRelay.Proofs.Named
import InputRelay.Proofs.Toml.Contents

namespace InputRelay

open Toml Toml.Value

section Words

variable {α : Type} [Named α] [Named.Lawful α]

theorem word?_name (a : α) : word? (.string (Named.name a)) = some a :=
  Named.Lawful.ofName?_name a

theorem words?_names (as : List α) :
    words? (Setting.texts (as.map Named.name)).value = some as := by
  change ((as.map Named.name).map Value.string).mapM word? = some as
  rw [List.map_map]
  exact Json.mapM_of_forall₂ (by
    rw [List.forall₂_map_left_iff, List.forall₂_same]
    exact fun a _ ↦ word?_name a)

end Words

theorem FileTree.read_of_find {t : FileTree} {path s : String}
    (h : t.find path = .ok (.file s.toUTF8)) : t.disk.read path = .ok s := by
  have htext : String.fromUTF8? s.toUTF8 = some s := dif_pos s.isValidUTF8
  change t.readText path = .ok s
  rw [readText, h]
  simp only [bind, Except.bind, htext]

namespace Toml.Value

theorem at?_singleton (k : String) (entries : List (String × Value)) :
    (table entries).at? [k] = entries.lookup k := by
  rw [at?]
  cases entries.lookup k <;> rfl

/-- A section that is missing is as good as one that is empty, if both stand for the defaults. -/
theorem exists_entries {v : Value} {path : List String} (h : IsSection (v.at? path)) :
    ∃ entries, (∀ k, v.at? (path ++ [k]) = entries.lookup k) ∧
      ∀ {α : Type} (read : Value → Option α) (default : α), read (table []) = some default →
        orElse read default (v.at? path) = read (table entries) := by
  cases hpath : v.at? path with
  | none =>
    refine ⟨[], fun k ↦ ?_, fun read default hread ↦ hread.symm⟩
    rw [at?_append, hpath]
    rfl
  | some w =>
    obtain ⟨entries, rfl⟩ := h w hpath
    refine ⟨entries, fun k ↦ ?_, fun read default _ ↦ rfl⟩
    rw [at?_append, hpath, Option.bind_some, at?_singleton]

end Toml.Value

/-! What stands for the keys of an empty section makes up the section that stands for a missing
one. -/

theorem BindingsConfig.ofToml?_empty : ofToml? (table []) = some {} :=
  rfl

theorem InputConfig.ofToml?_empty : ofToml? (table []) = some {} :=
  rfl

theorem ClipboardConfig.ofToml?_empty : ofToml? (table []) = some {} :=
  rfl

theorem GamepadConfig.ofToml?_empty : ofToml? (table []) = some {} :=
  rfl

theorem LogConfig.ofToml?_empty : ofToml? (table []) = some {} :=
  rfl

namespace Config

inductive Table
  | input | mouseBindings | clipboard | gamepad | log
deriving DecidableEq

def Table.path : Table → List String
  | input => ["input"]
  | mouseBindings => ["input", "mouse_bindings"]
  | clipboard => ["clipboard"]
  | gamepad => ["gamepad"]
  | log => ["log"]

inductive Key
  | shortcutMods | forwardAllClicks
  | right | middle | click4 | click5
  | autosync | legacyPaste
  | forward | touchmap
  | level
deriving DecidableEq

namespace Key

def table : Key → Table
  | shortcutMods | forwardAllClicks => .input
  | right | middle | click4 | click5 => .mouseBindings
  | autosync | legacyPaste => .clipboard
  | forward | touchmap => .gamepad
  | level => .log

def name : Key → String
  | shortcutMods => "shortcut_mods"
  | forwardAllClicks => "forward_all_clicks"
  | right => "right"
  | middle => "middle"
  | click4 => "click4"
  | click5 => "click5"
  | autosync => "autosync"
  | legacyPaste => "legacy_paste"
  | forward => "forward"
  | touchmap => "touchmap"
  | level => "level"

def path (k : Key) : List String :=
  k.table.path ++ [k.name]

/-- What a configuration has under a key. Only a touchmap may be missing. -/
def setting? (c : Config) : Key → Option Setting
  | shortcutMods => some (.texts (c.input.shortcutMods.map Named.name))
  | forwardAllClicks => some (.flag c.input.forwardAllClicks)
  | right => some (.text (Named.name c.input.bindings.right))
  | middle => some (.text (Named.name c.input.bindings.middle))
  | click4 => some (.text (Named.name c.input.bindings.click4))
  | click5 => some (.text (Named.name c.input.bindings.click5))
  | autosync => some (.flag c.clipboard.autosync)
  | legacyPaste => some (.flag c.clipboard.legacyPaste)
  | forward => some (.flag c.gamepad.forward)
  | touchmap => c.gamepad.touchmap.map .text
  | level => some (.text c.log.level)

end Key

/-- A configuration with the default under each key that is not kept. -/
def only (c : Config) (kept : Key → Bool) : Config :=
  let default : Config := {}
  { input :=
      { shortcutMods :=
          if kept .shortcutMods then c.input.shortcutMods else default.input.shortcutMods
        forwardAllClicks :=
          if kept .forwardAllClicks then c.input.forwardAllClicks
          else default.input.forwardAllClicks
        bindings :=
          { right :=
              if kept .right then c.input.bindings.right else default.input.bindings.right
            middle :=
              if kept .middle then c.input.bindings.middle else default.input.bindings.middle
            click4 :=
              if kept .click4 then c.input.bindings.click4 else default.input.bindings.click4
            click5 :=
              if kept .click5 then c.input.bindings.click5 else default.input.bindings.click5 } }
    clipboard :=
      { autosync := if kept .autosync then c.clipboard.autosync else default.clipboard.autosync
        legacyPaste :=
          if kept .legacyPaste then c.clipboard.legacyPaste else default.clipboard.legacyPaste }
    gamepad :=
      { forward := if kept .forward then c.gamepad.forward else default.gamepad.forward
        touchmap := if kept .touchmap then c.gamepad.touchmap else default.gamepad.touchmap }
    log := { level := if kept .level then c.log.level else default.log.level } }

/-- A document that has just the kept ones of the settings of a configuration. A section may be
missing, and what else the document has is left open. -/
structure Keeps (c : Config) (kept : Key → Bool) (doc : Value) : Prop where
  isSection : ∀ t : Table, IsSection (doc.at? t.path)
  at?_path : ∀ k : Key,
    doc.at? k.path = if kept k then (k.setting? c).map Setting.value else none

variable {c : Config} {kept : Key → Bool} {entries : List (String × Value)}

def Holds (c : Config) (kept : Key → Bool) (entries : List (String × Value)) (t : Table) : Prop :=
  ∀ k : Key, k.table = t →
    entries.lookup k.name = if kept k then (k.setting? c).map Setting.value else none

theorem Holds.read {t : Table} (h : Holds c kept entries t) {k : Key} (hk : k.table = t)
    {setting : Setting} (hsetting : k.setting? c = some setting) {α : Type}
    (read : Value → Option α) {x : α} (hread : read setting.value = some x) (default : α) :
    orElse read default (entries.lookup k.name) = some (if kept k then x else default) := by
  rw [h k hk, hsetting]
  cases kept k with
  | false => rfl
  | true => exact hread

theorem Holds.bindings (h : Holds c kept entries .mouseBindings) :
    BindingsConfig.ofToml? (.table entries) = some (c.only kept).input.bindings := by
  have hright : orElse word? Fallback.right (entries.lookup "right") = some _ :=
    h.read (k := .right) rfl rfl word? (word?_name _) _
  have hmiddle : orElse word? Fallback.middle (entries.lookup "middle") = some _ :=
    h.read (k := .middle) rfl rfl word? (word?_name _) _
  have hclick4 : orElse word? Fallback.click4 (entries.lookup "click4") = some _ :=
    h.read (k := .click4) rfl rfl word? (word?_name _) _
  have hclick5 : orElse word? Fallback.click5 (entries.lookup "click5") = some _ :=
    h.read (k := .click5) rfl rfl word? (word?_name _) _
  simp only [BindingsConfig.ofToml?, fields?, List.map_cons, List.map_nil, Option.bind_eq_bind,
    Option.bind_some, hright, hmiddle, hclick4, hclick5]
  rfl

theorem Holds.clipboard (h : Holds c kept entries .clipboard) :
    ClipboardConfig.ofToml? (.table entries) = some (c.only kept).clipboard := by
  have hautosync : orElse boolean? Fallback.enabled (entries.lookup "autosync") = some _ :=
    h.read (k := .autosync) rfl rfl boolean? rfl _
  have hlegacy : orElse boolean? false (entries.lookup "legacy_paste") = some _ :=
    h.read (k := .legacyPaste) rfl rfl boolean? rfl _
  simp only [ClipboardConfig.ofToml?, fields?, List.map_cons, List.map_nil, Option.bind_eq_bind,
    Option.bind_some, hautosync, hlegacy]
  rfl

theorem Holds.touchmap (h : Holds c kept entries .gamepad) :
    orElse (fun v ↦ v.string?.map some) none (entries.lookup "touchmap") =
      some (if kept .touchmap then c.gamepad.touchmap else none) := by
  cases hpath : c.gamepad.touchmap with
  | some path =>
    have hsetting : Key.touchmap.setting? c = some (.text path) := by
      rw [Key.setting?, hpath, Option.map_some]
    exact h.read rfl hsetting (fun v ↦ v.string?.map some) rfl none
  | none =>
    have hnone : entries.lookup "touchmap" = _ := h .touchmap rfl
    rw [hnone, Key.setting?, hpath, Option.map_none, Option.map_none, ite_self, ite_self]
    rfl

theorem Holds.gamepad (h : Holds c kept entries .gamepad) :
    GamepadConfig.ofToml? (.table entries) = some (c.only kept).gamepad := by
  have hforward : orElse boolean? Fallback.enabled (entries.lookup "forward") = some _ :=
    h.read (k := .forward) rfl rfl boolean? rfl _
  simp only [GamepadConfig.ofToml?, fields?, List.map_cons, List.map_nil, Option.bind_eq_bind,
    Option.bind_some, hforward, h.touchmap]
  rfl

theorem Holds.log (h : Holds c kept entries .log) :
    LogConfig.ofToml? (.table entries) = some (c.only kept).log := by
  have hlevel : orElse Value.string? Fallback.level (entries.lookup "level") = some _ :=
    h.read (k := .level) rfl rfl Value.string? rfl _
  simp only [LogConfig.ofToml?, fields?, List.map_cons, List.map_nil, Option.bind_eq_bind,
    Option.bind_some, hlevel]
  rfl

theorem Holds.input (h : Holds c kept entries .input)
    (hbindings : orElse BindingsConfig.ofToml? {} (entries.lookup "mouse_bindings") =
      some (c.only kept).input.bindings) :
    InputConfig.ofToml? (.table entries) = some (c.only kept).input := by
  have hmods : orElse words? Fallback.shortcutMods (entries.lookup "shortcut_mods") = some _ :=
    h.read (k := .shortcutMods) rfl rfl words? (words?_names _) _
  have hforward : orElse boolean? false (entries.lookup "forward_all_clicks") = some _ :=
    h.read (k := .forwardAllClicks) rfl rfl boolean? rfl _
  simp only [InputConfig.ofToml?, fields?, List.map_cons, List.map_nil, Option.bind_eq_bind,
    Option.bind_some, hmods, hforward, hbindings]
  rfl

/-- A section that is missing, empty or filled in part is read with the defaults in the gaps. -/
theorem Keeps.read_section {doc : Value} (h : Keeps c kept doc) (t : Table) {α : Type}
    (read : Value → Option α) {default x : α} (hempty : read (.table []) = some default)
    (hread : ∀ entries, Holds c kept entries t → (∀ k, doc.at? (t.path ++ [k]) = entries.lookup k) →
      read (.table entries) = some x) :
    orElse read default (doc.at? t.path) = some x := by
  obtain ⟨entries, hat, hsection⟩ := exists_entries (h.isSection t)
  rw [hsection read default hempty]
  refine hread entries ?_ hat
  intro k hk
  rw [← hat, ← hk]
  exact h.at?_path k

theorem Keeps.ofToml? {entries : List (String × Value)} (h : Keeps c kept (.table entries)) :
    ofToml? (.table entries) = some (c.only kept) := by
  have hbindings := h.read_section .mouseBindings BindingsConfig.ofToml?
    BindingsConfig.ofToml?_empty fun _ hholds _ ↦ hholds.bindings
  have hinput := h.read_section .input InputConfig.ofToml? InputConfig.ofToml?_empty
    fun inner hholds hat ↦ hholds.input (by rw [← hat]; exact hbindings)
  have hclipboard := h.read_section .clipboard ClipboardConfig.ofToml?
    ClipboardConfig.ofToml?_empty fun _ hholds _ ↦ hholds.clipboard
  have hgamepad := h.read_section .gamepad GamepadConfig.ofToml? GamepadConfig.ofToml?_empty
    fun _ hholds _ ↦ hholds.gamepad
  have hlog := h.read_section .log LogConfig.ofToml? LogConfig.ofToml?_empty
    fun _ hholds _ ↦ hholds.log
  have hfields : (Value.table entries).fields? ["input", "clipboard", "gamepad", "log"] =
      some ([.input, .clipboard, .gamepad, .log].map
        fun t : Table ↦ (Value.table entries).at? t.path) := by
    simp [Table.path, at?_singleton, fields?]
  rw [Config.ofToml?, hfields]
  simp only [List.map_cons, List.map_nil, Option.bind_eq_bind, Option.bind_some, hinput,
    hclipboard, hgamepad, hlog]

end Config

end InputRelay
