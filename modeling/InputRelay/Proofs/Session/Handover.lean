import InputRelay.Proofs.Session.Acknowledgment
import InputRelay.Proofs.Session.Replacing
import InputRelay.Proofs.Shortcut

namespace InputRelay

def Effect.commandsOf (effects : List Effect) : List Command :=
  effects.filterMap Effect.command?

variable {κ : Type}

namespace Turn

theorem countPress_of_isCtrlV (s : Session κ) {e : KeyEvent} (he : isCtrlV e = true) :
    Turn.countPress ⟨s, []⟩ e = ⟨{ s with repeats := s.repeats.record e.key e.mods }, []⟩ := by
  have hpress : (e.state.isPressed && !e.autoRepeat) = true := by
    simp only [isCtrlV, Bool.and_eq_true] at he
    rw [he.1.2, he.2]
    rfl
  rw [countPress, if_pos hpress]

theorem askClipboard_eq (s : Session κ) : askClipboard ⟨s, []⟩ = ⟨s, []⟩ ∨
    askClipboard ⟨s, []⟩ = ⟨s, [.readClipboard]⟩ := by
  unfold askClipboard
  split
  · exact Or.inr rfl
  · exact Or.inl rfl

namespace Pasted

variable {s : Session κ} {e : KeyEvent} {sequence : AckSequence} {t : Turn κ}

theorem of_synced (h : Pasted ⟨s, []⟩ e sequence t) (hauto : s.sync.autosync = true)
    (hlegacy : s.sync.legacyPaste = false) :
    Effect.commandsOf t.effects =
        (Clipboard.text? s.clipboard).toList.map (.setClipboard sequence · false) ∧
      ((∃ ack, .key e ack ∈ t.effects) ↔ ∃ text, Clipboard.text? s.clipboard = some text ∧
        .push (.setClipboard sequence text false) (.ok ()) ∈ t.effects) ∧
      ∀ ack, .key e ack ∈ t.effects → ∃ text,
        t.effects = handOver text sequence ++ [.key e sequence] := by
  cases h with
  | untouched h => cases hauto.symm.trans h
  | typed _ _ _ h _ => cases hlegacy.symm.trans h
  | unread _ htext =>
    have htext : Clipboard.text? s.clipboard = none := htext
    rcases askClipboard_eq s with h | h <;>
      simp [h, htext, Effect.commandsOf, Effect.command?]
  | refused channel error _ _ htext =>
    rw [show Clipboard.text? s.clipboard = _ from htext]
    exact ⟨rfl, by simp, by simp⟩
  | @sent text channel _ _ htext =>
    rw [show Clipboard.text? s.clipboard = _ from htext]
    exact ⟨rfl, by simp [handOver], fun _ _ ↦ ⟨text, rfl⟩⟩

theorem of_legacy (h : Pasted ⟨s, []⟩ e sequence t) (hauto : s.sync.autosync = true)
    (hlegacy : s.sync.legacyPaste = true) :
    Effect.commandsOf t.effects =
        (Clipboard.text? s.clipboard).toList.map .injectText ∧
      Effect.keysOf t.effects = [] := by
  cases h with
  | untouched h => cases hauto.symm.trans h
  | refused _ _ _ h _ => cases hlegacy.symm.trans h
  | sent _ _ h _ => cases hlegacy.symm.trans h
  | unread _ htext =>
    have htext : Clipboard.text? s.clipboard = none := htext
    rw [htext]
    rcases askClipboard_eq s with h | h <;>
      · rw [h]
        exact ⟨rfl, rfl⟩
  | typed channel verdict _ _ htext =>
    rw [show Clipboard.text? s.clipboard = _ from htext]
    exact ⟨rfl, rfl⟩

theorem of_unsynced (h : Pasted ⟨s, []⟩ e sequence t) (hauto : s.sync.autosync = false) :
    t.effects = [.key e .none] := by
  cases h with
  | untouched => rfl
  | unread h | typed _ _ h | refused _ _ h | sent _ h => cases hauto.symm.trans h

theorem session_eq (h : Pasted ⟨s, []⟩ e sequence t) :
    ∃ channel next, t.session = { s with channel, sync.next := next } ∧
      (Effect.keysOf t.effects = [] → next = s.sync.next) := by
  cases h with
  | untouched => exact ⟨s.channel, s.sync.next, rfl, fun _ ↦ rfl⟩
  | unread =>
    rcases askClipboard_eq s with h | h <;>
      · rw [h]
        exact ⟨s.channel, s.sync.next, rfl, fun _ ↦ rfl⟩
  | typed channel | refused channel => exact ⟨channel, s.sync.next, rfl, fun _ ↦ rfl⟩
  | sent channel => exact ⟨channel, _, rfl, nofun⟩

end Pasted

variable [CommandSink κ]

/-- What becomes of a key that runs no shortcut. -/
inductive Plain (s : Session κ) (e : KeyEvent) : Turn κ → Prop
  | idle : s.isPaused = true ∨ s.keys = none → Plain s e (Turn.countPress ⟨s, []⟩ e)
  | handed : s.isPaused = false → s.keys.isSome = true → isCtrlV e = false →
      Plain s e ((Turn.countPress ⟨s, []⟩ e).emit (.key e .none))
  | pasted {t : Turn κ} (sequence : AckSequence) : s.isPaused = false → s.keys.isSome = true →
      isCtrlV e = true → Pasted (Turn.countPress ⟨s, []⟩ e) e sequence t → Plain s e t

theorem plain_key {s : Session κ} (hchannel : s.keys.isSome = true → s.channel.isSome = true)
    {e : KeyEvent} (hplain : s.shortcutMods.isShortcut e.key e.mods = false) :
    Plain s e (Turn.key ⟨s, []⟩ e) := by
  obtain ⟨repeats, hcount⟩ := countPress_eq s e
  have hkey : Turn.key ⟨s, []⟩ e = if s.isPaused then Turn.countPress ⟨s, []⟩ e else
      s.keys.elim (Turn.countPress ⟨s, []⟩ e)
        (Turn.forwardKey (Turn.countPress ⟨s, []⟩ e) · e) := by
    simp only [key, hcount, hplain, Bool.false_eq_true, if_false]
    cases s.keys <;> rfl
  rw [hkey]
  cases hpaused : s.isPaused with
  | true => exact .idle (Or.inl hpaused)
  | false =>
    cases hkeys : s.keys with
    | none => exact .idle (Or.inr hkeys)
    | some keys =>
      have hsome : s.keys.isSome = true := by rw [hkeys]; rfl
      cases hpaste : isCtrlV e with
      | false =>
        have hforward : (Turn.countPress ⟨s, []⟩ e).forwardKey keys e =
            (Turn.countPress ⟨s, []⟩ e).emit (.key e .none) := by
          rw [forwardKey, if_neg (by simp [hpaste])]
        rw [if_neg Bool.false_ne_true, Option.elim_some, hforward]
        exact .handed hpaused hsome hpaste
      | true =>
        refine .pasted _ hpaused hsome hpaste (pasted_forwardKey ?_ keys hpaste)
        rw [hcount]
        exact hchannel hsome

end Turn

namespace Session

variable [CommandSink κ] {config : Config} {c : Collaborators κ} {log : List (Record κ)}
  {s : Session κ}

theorem sync_of_start {t : Turn κ} (h : start config c = .ok t) : t.session.sync =
    { autosync := config.clipboard.autosync, legacyPaste := config.clipboard.legacyPaste } := by
  unfold start at h
  split at h
  · cases h
  · extract_lets session at h
    obtain rfl := Except.ok.inj h
    split
    · rfl
    · rename_i path _
      exact (Turn.within_loadTouchmap ⟨session, []⟩ path).same (p := .sync) id

theorem sync_call (s : Session κ) (call : Call) :
    ∃ next, (s.call call).session.sync = { s.sync with next } := by
  rcases Turn.acknowledgment_cases ⟨s, []⟩ call with h | ⟨e, keys, -, he, h⟩
  · exact ⟨s.sync.next, h.same (p := .sync) id⟩
  · rw [show s.call call = _ from h, Turn.countPress_of_isCtrlV s he]
    by_cases hchannel : s.channel.isSome = true
    · let t : Turn κ := ⟨{ s with repeats := s.repeats.record e.key e.mods }, []⟩
      obtain ⟨channel, next, hsession, -⟩ := (Turn.pasted_forwardKey (t := t) hchannel keys
        he).session_eq
      exact ⟨next, by rw [hsession]⟩
    · rw [Turn.forwardKey, if_pos he, if_neg hchannel]
      exact ⟨s.sync.next, rfl⟩

theorem Run.sync_eq (h : Run config c log s) : s.sync.autosync = config.clipboard.autosync ∧
    s.sync.legacyPaste = config.clipboard.legacyPaste := by
  induction h with
  | start h =>
    rw [sync_of_start h]
    exact ⟨rfl, rfl⟩
  | @call log s around call h hchannel ih =>
    obtain ⟨next, hsync⟩ := (s.amid around).sync_call call
    rw [hsync]
    exact ih

/-- A Ctrl+V goes to the key processor behind the clipboard that the device has taken. Where the
clipboard is typed instead, or cannot be handed over, it is used up and nothing else has changed. -/
theorem ctrlV_follows_clipboard (hrun : Run config c log s) (hstarted : c.keys.isSome = true)
    {around : Collaborators κ} (hchannel : around.channel.isSome = s.channel.isSome)
    (hkeys : around.keys.isSome = true) (hpaused : around.screen.paused = false) {e : KeyEvent}
    (he : Turn.isCtrlV e = true) (hplain : ¬e.IsShortcut config.input.shortcutMods) :
    let t := (s.amid around).call (.event (.key e))
    let text? := Clipboard.text? around.clipboard
    (config.clipboard.autosync = true → config.clipboard.legacyPaste = false → ∃ sequence,
      Effect.commandsOf t.effects = text?.toList.map (.setClipboard sequence · false) ∧
      ((∃ ack, .key e ack ∈ t.effects) ↔ ∃ text, text? = some text ∧
        .push (.setClipboard sequence text false) (.ok ()) ∈ t.effects) ∧
      ∀ ack, .key e ack ∈ t.effects → ∃ text, t.effects =
        [.readClipboard, .push (.setClipboard sequence text false) (.ok ()), .key e sequence]) ∧
    (config.clipboard.autosync = true → config.clipboard.legacyPaste = true →
      Effect.commandsOf t.effects = text?.toList.map .injectText ∧
      Effect.keysOf t.effects = []) ∧
    (config.clipboard.autosync = false → t.effects = [.key e .none]) ∧
    (Effect.keysOf t.effects = [] → ∃ channel, t.session =
      { s.amid around with channel, repeats := s.repeats.record e.key e.mods }) := by
  intro t text?
  obtain ⟨hauto, hlegacy⟩ := hrun.sync_eq
  have hmods : (s.amid around).shortcutMods.isShortcut e.key e.mods = false := by
    rw [show (s.amid around).shortcutMods = _ from hrun.settings_eq.2, ← Bool.not_eq_true,
      ShortcutMods.isShortcut_ofList]
    exact hplain
  have hsome : around.channel.isSome = true :=
    hchannel.trans (hrun.channel_of_processor (Or.inl hstarted))
  have hkey : Turn.Plain (s.amid around) e t := Turn.plain_key (fun _ ↦ hsome) hmods
  clear_value t
  cases hkey with
  | idle h =>
    rcases h with h | h
    · cases hpaused.symm.trans h
    · rw [show around.keys = none from h] at hkeys
      cases hkeys
  | handed _ _ h => cases he.symm.trans h
  | pasted sequence _ _ _ h =>
    rw [Turn.countPress_of_isCtrlV _ he] at h
    refine ⟨fun hon htyped ↦ ⟨sequence, ?_⟩, fun hon htyped ↦ ?_, fun hoff ↦ ?_, fun hnone ↦ ?_⟩
    · exact h.of_synced (hauto.trans hon) (hlegacy.trans htyped)
    · exact h.of_legacy (hauto.trans hon) (hlegacy.trans htyped)
    · exact h.of_unsynced (hauto.trans hoff)
    · obtain ⟨channel, next, hsession, hnext⟩ := h.session_eq
      obtain rfl := hnext hnone
      exact ⟨channel, hsession⟩

theorem ctrlV_follows_clipboard_refused : ∃ (log : List (Record Channel)) (s : Session Channel),
    Run {} (.pasting false) log s ∧ s.sync.next = ⟨2⟩ ∧
      let e : KeyEvent := ⟨.keyV, 0, .pressed, .ctrl, false⟩
      let t := (s.amid (.pasting true)).call (.event (.key e))
      Effect.commandsOf t.effects = [.setClipboard ⟨2⟩ "text" false] ∧
        Effect.keysOf t.effects = [] ∧ ∃ channel, t.session =
          { s.amid (.pasting true) with channel, repeats := s.repeats.record e.key e.mods } := by
  have hstart : Run {} (.pasting false) [] _ := .start rfl
  have hrun := hstart.call (.pasting false) (.event (.key ⟨.keyV, 0, .pressed, .ctrl, false⟩)) rfl
  refine ⟨_, _, hrun, by decide, by decide, by decide, ?_⟩
  exact (ctrlV_follows_clipboard hrun rfl rfl rfl rfl rfl (by decide)).2.2.2 (by decide)

end Session

end InputRelay
