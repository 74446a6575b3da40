import InputRelay.Proofs.Session.Handover
import InputRelay.Proofs.Session.Independence
import InputRelay.Proofs.Session.Keystrokes
import InputRelay.Proofs.Session.Window

namespace InputRelay

namespace Shortcut

variable {key : KeyCode} {shift : Bool} {x : Shortcut}

theorem deviceKey_or_downOnly (h : find? key shift = some x) :
    (∃ k, x.action = .deviceKey k) ∨ Guard.downOnly.permits x.guard = true := by
  unfold find? at h
  split at h
  all_goals
    cases h <;> first
      | exact Or.inl ⟨_, rfl⟩
      | exact Or.inr (by decide +revert)

theorem volume_or_noRepeat (h : find? key shift = some x) :
    (∃ k ∈ [DeviceKey.volumeDown, .volumeUp], x.action = .deviceKey k) ∨
      Guard.noRepeat.permits x.guard = true := by
  unfold find? at h
  split at h
  all_goals
    cases h <;> first
      | (refine Or.inr ?_; decide +revert)
      | (refine Or.inl ⟨_, ?_, rfl⟩; decide)

end Shortcut

variable {κ : Type}

theorem Session.permits_meets_press (s : Session κ) (e : KeyEvent) :
    Guard.downOnly.permits (s.meets e) = e.state.isPressed ∧
      Guard.noRepeat.permits (s.meets e) = !e.autoRepeat := by
  simp only [meets]
  generalize s.channel.isSome = b₁
  generalize s.keys.isSome = b₂
  generalize s.keys.any (·.hid) = b₃
  generalize e.autoRepeat = b₄
  generalize e.state.isPressed = b₅
  generalize s.isPaused = b₆
  generalize s.screen.hasVideo = b₇
  revert b₁ b₂ b₃ b₄ b₅ b₆ b₇
  decide

namespace Turn

variable [CommandSink κ]

theorem shortcut_eq_act (t : Turn κ) (e : KeyEvent) : t.shortcut e = t ∨
    ∃ x, Shortcut.find? e.key e.mods.hasShift = some x ∧
      x.guard.permits (t.session.meets e) = true ∧ t.shortcut e = t.act e.state x.action := by
  unfold shortcut
  split
  · exact Or.inl rfl
  · rename_i x hx
    split
    · exact Or.inr ⟨x, hx, ‹_›, rfl⟩
    · exact Or.inl rfl

theorem shortcut_of_released (t : Turn κ) {e : KeyEvent} (he : e.state = .released) :
    t.shortcut e = t ∨ ∃ k, t.shortcut e = t.push (.press k .released) := by
  rcases t.shortcut_eq_act e with h | ⟨x, hx, hpermits, h⟩
  · exact Or.inl h
  rcases Shortcut.deviceKey_or_downOnly hx with ⟨k, hk⟩ | hdown
  · exact Or.inr ⟨k, by rw [h, hk, he]; rfl⟩
  · have hpressed := Guard.permits_trans hdown hpermits
    rw [(t.session.permits_meets_press e).1, he] at hpressed
    cases hpressed

theorem shortcut_of_repeated (t : Turn κ) {e : KeyEvent} (he : e.autoRepeat = true) :
    t.shortcut e = t ∨
      ∃ k ∈ [DeviceKey.volumeDown, .volumeUp], t.shortcut e = t.push (.press k e.state) := by
  rcases t.shortcut_eq_act e with h | ⟨x, hx, hpermits, h⟩
  · exact Or.inl h
  rcases Shortcut.volume_or_noRepeat hx with ⟨k, hmem, hk⟩ | honce
  · exact Or.inr ⟨k, hmem, by rw [h, hk]; rfl⟩
  · have hfirst := Guard.permits_trans honce hpermits
    rw [(t.session.permits_meets_press e).2, he] at hfirst
    cases hfirst

theorem eq_of_mem_commandsOf_push {s : Session κ} {c c' : Command}
    (h : c' ∈ Effect.commandsOf (Turn.push ⟨s, []⟩ c).effects) : c' = c := by
  rcases attempt_cases ⟨s, []⟩ c with ⟨-, heq⟩ | ⟨channel, verdict, -, heq⟩ <;>
    rw [push, heq] at h
  · cases h
  · exact List.mem_singleton.mp h

end Turn

/-- A Ctrl+V is used up when clipboards are handed over and none was taken ahead of it. -/
def KeyEvent.IsUsedUp (e : KeyEvent) (autosync : Bool) (effects : List Effect) : Prop :=
  Turn.isCtrlV e = true ∧ autosync = true ∧
    ∀ q text, .push (.setClipboard q text false) (.ok ()) ∉ effects

namespace Turn

variable {s : Session κ} {e : KeyEvent} {t : Turn κ}

theorem Pasted.commandsOf_eq {sequence : AckSequence} (h : Pasted ⟨s, []⟩ e sequence t) :
    Effect.commandsOf t.effects = [] ∨ ∃ text, Effect.commandsOf t.effects = [.injectText text] ∨
      Effect.commandsOf t.effects = [.setClipboard sequence text false] := by
  cases hauto : s.sync.autosync with
  | false =>
    rw [h.of_unsynced hauto]
    exact Or.inl rfl
  | true =>
    cases hlegacy : s.sync.legacyPaste with
    | true =>
      rw [(h.of_legacy hauto hlegacy).1]
      cases Clipboard.text? s.clipboard with
      | none => exact Or.inl rfl
      | some text => exact Or.inr ⟨text, Or.inl rfl⟩
    | false =>
      rw [(h.of_synced hauto hlegacy).1]
      cases Clipboard.text? s.clipboard with
      | none => exact Or.inl rfl
      | some text => exact Or.inr ⟨text, Or.inr rfl⟩

theorem Pasted.keysOf_eq {sequence : AckSequence} (h : Pasted ⟨s, []⟩ e sequence t)
    (he : isCtrlV e = true) :
    (e.IsUsedUp s.sync.autosync t.effects → Effect.keysOf t.effects = []) ∧
      (¬e.IsUsedUp s.sync.autosync t.effects → ∃ ack, Effect.keysOf t.effects = [(e, ack)]) := by
  cases h with
  | untouched h =>
    refine ⟨fun hused ↦ ?_, fun _ ↦ ⟨.none, rfl⟩⟩
    cases h.symm.trans hused.2.1
  | unread hauto =>
    rcases askClipboard_eq s with h | h <;>
      · rw [h]
        exact ⟨fun _ ↦ rfl, fun hused ↦ absurd ⟨he, hauto, by simp⟩ hused⟩
  | typed _ _ hauto =>
    exact ⟨fun _ ↦ rfl, fun hused ↦ absurd ⟨he, hauto, by simp⟩ hused⟩
  | refused _ _ hauto =>
    exact ⟨fun _ ↦ rfl, fun hused ↦ absurd ⟨he, hauto, by simp⟩ hused⟩
  | @sent text =>
    have htaken : Effect.push (.setClipboard sequence text false) (.ok ()) ∈
        handOver text sequence ++ [.key e sequence] := by simp [handOver]
    exact ⟨fun hused ↦ absurd htaken (hused.2.2 _ _), fun _ ↦ ⟨sequence, rfl⟩⟩

theorem Plain.same (h : Plain s e t) : t.session.screen = s.screen ∧
    t.session.engine = s.engine ∧ t.session.forwards = s.forwards := by
  obtain ⟨repeats, hcount⟩ := countPress_eq s e
  cases h with
  | idle | handed =>
    rw [hcount]
    exact ⟨rfl, rfl, rfl⟩
  | pasted sequence _ _ _ h =>
    rw [hcount] at h
    obtain ⟨channel, next, hsession, -⟩ := h.session_eq
    rw [hsession]
    exact ⟨rfl, rfl, rfl⟩

theorem Plain.commandsOf_eq (h : Plain s e t) : Effect.commandsOf t.effects = [] ∨
    isCtrlV e = true ∧ ∃ text, Effect.commandsOf t.effects = [.injectText text] ∨
      ∃ q, Effect.commandsOf t.effects = [.setClipboard q text false] := by
  obtain ⟨repeats, hcount⟩ := countPress_eq s e
  cases h with
  | idle | handed =>
    rw [hcount]
    exact Or.inl rfl
  | pasted sequence _ _ he h =>
    rw [hcount] at h
    rcases h.commandsOf_eq with h | ⟨text, h⟩
    · exact Or.inl h
    · exact Or.inr ⟨he, text, h.imp_right fun h ↦ ⟨sequence, h⟩⟩

/-- A key is handed on once, unless nothing takes it or it is used up. -/
theorem Plain.keysOf_eq (h : Plain s e t) :
    (s.keys.isSome = true ∧ s.isPaused = false ∧ ¬e.IsUsedUp s.sync.autosync t.effects →
      ∃ ack, Effect.keysOf t.effects = [(e, ack)]) ∧
    (¬(s.keys.isSome = true ∧ s.isPaused = false ∧ ¬e.IsUsedUp s.sync.autosync t.effects) →
      Effect.keysOf t.effects = []) := by
  obtain ⟨repeats, hcount⟩ := countPress_eq s e
  cases h with
  | idle hidle =>
    rw [hcount]
    refine ⟨fun ⟨hkeys, hpaused, _⟩ ↦ ?_, fun _ ↦ rfl⟩
    rcases hidle with h | h
    · cases h.symm.trans hpaused
    · rw [h] at hkeys
      cases hkeys
  | handed hpaused hkeys he =>
    rw [hcount]
    exact ⟨fun _ ↦ ⟨.none, rfl⟩, fun h ↦ absurd ⟨hkeys, hpaused, fun hused ↦
      Bool.false_ne_true (he.symm.trans hused.1)⟩ h⟩
  | pasted sequence hpaused hkeys he h =>
    rw [hcount] at h
    obtain ⟨hused, hfree⟩ := h.keysOf_eq he
    exact ⟨fun ⟨_, _, h⟩ ↦ hfree h, fun h ↦ hused (by_contra fun h' ↦ h ⟨hkeys, hpaused, h'⟩)⟩

variable [CommandSink κ]

theorem key_of_shortcut (hshortcut : s.shortcutMods.isShortcut e.key e.mods = true) :
    Turn.key ⟨s, []⟩ e = (Turn.countPress ⟨s, []⟩ e).shortcut e := by
  rcases key_eq_cases ⟨s, []⟩ e with ⟨-, h⟩ | ⟨hplain, -⟩
  · exact h
  · cases hplain.symm.trans hshortcut

theorem keysOf_shortcut (hshortcut : s.shortcutMods.isShortcut e.key e.mods = true) :
    Effect.keysOf (Turn.key ⟨s, []⟩ e).effects = [] := by
  rw [Effect.keysOf, List.filterMap_eq_nil_iff]
  intro x hx
  rcases (stroke_key ⟨s, []⟩ e).of_mem hx with hdue | ⟨hplain, -⟩ | ⟨-, k, guard, verdict, -, rfl⟩
  · cases x with
    | key => exact hdue.elim
    | _ => rfl
  · cases hplain.symm.trans hshortcut
  · rfl

theorem offered_of_released (hshortcut : s.shortcutMods.isShortcut e.key e.mods = true)
    (he : e.state = .released) :
    ∀ command ∈ Effect.commandsOf (Turn.key ⟨s, []⟩ e).effects,
      ∃ k, command = .press k .released := by
  obtain ⟨repeats, hcount⟩ := countPress_eq s e
  rw [key_of_shortcut hshortcut, hcount]
  rcases shortcut_of_released ⟨{ s with repeats }, []⟩ he with h | ⟨k, h⟩ <;> rw [h]
  · exact fun _ hmem ↦ absurd hmem List.not_mem_nil
  · exact fun _ hmem ↦ ⟨k, eq_of_mem_commandsOf_push hmem⟩

theorem offered_of_repeated (hshortcut : s.shortcutMods.isShortcut e.key e.mods = true)
    (he : e.autoRepeat = true) :
    ∀ command ∈ Effect.commandsOf (Turn.key ⟨s, []⟩ e).effects,
      ∃ k ∈ [DeviceKey.volumeDown, .volumeUp], command = .press k e.state := by
  obtain ⟨repeats, hcount⟩ := countPress_eq s e
  rw [key_of_shortcut hshortcut, hcount]
  rcases shortcut_of_repeated ⟨{ s with repeats }, []⟩ he with h | ⟨k, hk, h⟩ <;> rw [h]
  · exact fun _ hmem ↦ absurd hmem List.not_mem_nil
  · exact fun _ hmem ↦ ⟨k, hk, eq_of_mem_commandsOf_push hmem⟩

theorem channel_call (s : Session κ) (call : Call) : (s.call call).session.channel =
    s.channel.map (CommandSink.after · (Effect.commandsOf (s.call call).effects)) := by
  obtain ⟨done, heffects, hchannel⟩ := (within_call ⟨s, []⟩ call).channel_eq
  have heffects : (s.call call).effects = done := heffects
  rw [heffects]
  exact hchannel

omit [CommandSink κ] in
theorem text_not_mem {x : TextInput} (hheld : s.shortcutMods.isHeld x.mods = true)
    (x' : TextInput) : .text x' ∉ (Turn.text ⟨s, []⟩ x).effects := by
  unfold text
  split
  · simp
  · simp [hheld]

end Turn

namespace Session

variable [CommandSink κ] {config : Config} {c : Collaborators κ} {log : List (Record κ)}
  {s : Session κ}

/-- A key event runs a shortcut or is handed on, and never both. The device hears of the end and of
the repetition of a shortcut by its device key only. -/
theorem keys_have_one_destination (hrun : Run config c log s) {around : Collaborators κ}
    (hchannel : around.channel.isSome = s.channel.isSome)
    (hkeys : around.keys.isSome = c.keys.isSome) :
    let mods := config.input.shortcutMods
    (∀ e : KeyEvent,
      let t := (s.amid around).call (.event (.key e))
      let offered := Effect.commandsOf t.effects
      let isTaken := around.keys.isSome = true ∧ around.screen.paused = false ∧
        ¬e.IsUsedUp config.clipboard.autosync t.effects
      t.session.channel = around.channel.map (CommandSink.after · offered) ∧
      (e.IsShortcut mods →
        Effect.keysOf t.effects = [] ∧
        (e.state = .released → ∀ command ∈ offered, ∃ k, command = .press k .released) ∧
        (e.autoRepeat = true → ∀ command ∈ offered,
          ∃ k ∈ [DeviceKey.volumeDown, .volumeUp], command = .press k e.state)) ∧
      (¬e.IsShortcut mods →
        (t.session.screen = around.screen ∧ t.session.engine = s.engine ∧
          t.session.forwards = s.forwards) ∧
        (offered = [] ∨ Turn.isCtrlV e = true ∧ ∃ text, offered = [.injectText text] ∨
          ∃ q, offered = [.setClipboard q text false]) ∧
        (isTaken → ∃ ack, Effect.keysOf t.effects = [(e, ack)]) ∧
        (¬isTaken → Effect.keysOf t.effects = []))) ∧
    ∀ x : TextInput, (∃ m ∈ mods, x.mods &&& m.flag = m.flag) →
      ∀ x', .text x' ∉ ((s.amid around).call (.event (.text x))).effects := by
  intro mods
  have hmods : (s.amid around).shortcutMods = .ofList mods := hrun.settings_eq.2
  have hshortcut : ∀ e : KeyEvent,
      (s.amid around).shortcutMods.isShortcut e.key e.mods = true ↔ e.IsShortcut mods := by
    intro e
    rw [hmods, ShortcutMods.isShortcut_ofList]
  refine ⟨fun e ↦ ⟨Turn.channel_call (s.amid around) _, fun he ↦ ?_, fun he ↦ ?_⟩, fun x hx ↦ ?_⟩
  · have he := (hshortcut e).mpr he
    exact ⟨Turn.keysOf_shortcut he, Turn.offered_of_released he, Turn.offered_of_repeated he⟩
  · have he := Bool.eq_false_iff.mpr (he ∘ (hshortcut e).mp)
    have hsome : around.keys.isSome = true → around.channel.isSome = true := fun h ↦
      hchannel.trans (hrun.channel_of_processor (Or.inl (hkeys.symm.trans h)))
    have hplain : Turn.Plain (s.amid around) e ((s.amid around).call (.event (.key e))) :=
      Turn.plain_key hsome he
    rw [← hrun.sync_eq.1]
    exact ⟨hplain.same, hplain.commandsOf_eq, hplain.keysOf_eq⟩
  · refine Turn.text_not_mem ?_
    rw [hmods, ShortcutMods.isHeld_ofList]
    exact hx

theorem keys_have_one_destination_volume : ∃ (log : List (Record Channel)) (s : Session Channel),
    Run {} .typing log s ∧
      let e : KeyEvent := ⟨.arrowUp, 0, .pressed, .lalt, true⟩
      let e' : KeyEvent := ⟨.arrowUp, 0, .pressed, .none, true⟩
      let t := (s.amid .typing).call (.event (.key e))
      let t' := (s.amid .typing).call (.event (.key e'))
      Effect.commandsOf t.effects = [.press .volumeUp .pressed] ∧ Effect.keysOf t.effects = [] ∧
        Effect.commandsOf t'.effects = [] ∧ ∃ ack, Effect.keysOf t'.effects = [(e', ack)] := by
  have hstart : Run {} .typing [] _ := .start rfl
  have hrun := hstart.call .typing (.event (.key ⟨.leftAlt, 0, .pressed, .lalt, false⟩)) rfl
  have hchannel : Collaborators.typing.channel.isSome = _ := rfl
  have hkeys := (keys_have_one_destination hrun hchannel rfl).1
  refine ⟨_, _, hrun, by decide, ((hkeys _).2.1 (by decide)).1, by decide, ?_⟩
  refine ((hkeys _).2.2 (by decide)).2.2.1 ⟨rfl, rfl, ?_⟩
  exact fun hused ↦ absurd hused.1 (by decide)

end Session

end InputRelay
