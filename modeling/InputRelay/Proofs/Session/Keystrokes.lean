import InputRelay.Proofs.Session.History

namespace InputRelay

open Deed

theorem Shortcut.find?_deviceKey {key : KeyCode} {shift : Bool} {k : DeviceKey} {guard : Guard}
    (h : find? key shift = some ⟨.deviceKey k, guard⟩) :
    shift = false ∧ key.modifier? = none ∧ (guard = .deviceKey ∨ guard = .volume) := by
  unfold find? at h
  split at h <;> simp_all [KeyCode.modifier?]

variable {κ : Type}

theorem Session.permits_deviceKey {s : Session κ} (hkeys : s.keys.isSome = true)
    (hpaused : s.isPaused = false) {e : KeyEvent} (hrepeat : e.autoRepeat = false) {guard : Guard}
    (hguard : guard = .deviceKey ∨ guard = .volume) : guard.permits (s.meets e) = true := by
  simp only [meets, hkeys, hpaused, hrepeat]
  generalize s.channel.isSome = b₁
  generalize s.keys.any (·.hid) = b₂
  generalize e.state.isPressed = b₃
  generalize s.screen.hasVideo = b₄
  rcases hguard with rfl | rfl <;> revert b₁ b₂ b₃ b₄ <;> decide

namespace Turn

variable [CommandSink κ]

/-- What becomes of a key: it is handed on, it presses a device key, or it is used up. -/
inductive Stroke (t : Turn κ) (e : KeyEvent) : Turn κ → Prop
  | handed {u : Turn κ} (ack : AckSequence) :
      t.session.shortcutMods.isShortcut e.key e.mods = false → Within Keyless t u →
      Stroke t e (u.emit (.key e ack))
  | pressed {u : Turn κ} {k : DeviceKey} {guard : Guard} :
      t.session.shortcutMods.isShortcut e.key e.mods = true →
      Shortcut.find? e.key e.mods.hasShift = some ⟨.deviceKey k, guard⟩ → Within Keyless t u →
      Stroke t e (u.push (.press k e.state))
  | used {u : Turn κ} : Within Keyless t u → Stroke t e u

theorem stroke_key (t : Turn κ) (e : KeyEvent) : Stroke t e (t.key e) := by
  have hcount : Within Keyless t (t.countPress e) := t.within_countPress trivial e
  rcases t.key_eq_cases e with ⟨hshortcut, h⟩ | ⟨hplain, h | ⟨keys, h⟩⟩ <;> rw [h]
  · rcases shortcut_cases (t.countPress e) e with h | ⟨k, guard, hfind, h⟩ | h | h
    · exact .used (hcount.trans (h.mono fun _ hd ↦ hd.2.1))
    · rw [h]
      exact .pressed hshortcut hfind hcount
    · exact .used (hcount.trans (h ▸ (within_pickTouchmap _).mono Replacing.keyless))
    · exact .used (hcount.trans (h ▸ (within_unloadTouchmap _).mono Replacing.keyless))
  · exact .used hcount
  · unfold forwardKey
    split
    · split
      · have hbefore : Within Keyless (t.countPress e)
            ((t.countPress e).beforeCtrlV keys.asyncPaste).2 :=
          within_beforeCtrlV _ trivial (fun _ ↦ trivial) (fun _ _ ↦ trivial) trivial _
        split <;> rename_i h <;> rw [h] at hbefore
        · exact .handed _ hplain (hcount.trans hbefore)
        · exact .used (hcount.trans hbefore)
      · exact .used hcount
    · exact .handed _ hplain hcount

theorem Stroke.of_mem {s : Session κ} {e : KeyEvent} {u : Turn κ} {x : Effect}
    (h : Stroke ⟨s, []⟩ e u) (hx : x ∈ u.effects) :
    x.Due Keyless ∨
      (s.shortcutMods.isShortcut e.key e.mods = false ∧ ∃ ack, x = .key e ack) ∨
      (s.shortcutMods.isShortcut e.key e.mods = true ∧ ∃ k guard verdict,
        Shortcut.find? e.key e.mods.hasShift = some ⟨.deviceKey k, guard⟩ ∧
        x = .push (.press k e.state) verdict) := by
  cases h with
  | handed ack hplain hwithin =>
    rcases List.mem_append.mp hx with hx | hx
    · exact Or.inl (hwithin.due_of_mem hx)
    · exact Or.inr (Or.inl ⟨hplain, ack, List.mem_singleton.mp hx⟩)
  | @pressed v k guard hshortcut hfind hwithin =>
    rcases v.attempt_cases (.press k e.state) with ⟨-, h⟩ | ⟨channel, verdict, -, h⟩ <;>
      rw [push, h] at hx
    · exact Or.inl (hwithin.due_of_mem hx)
    rcases List.mem_append.mp hx with hx | hx
    · exact Or.inl (hwithin.due_of_mem hx)
    · exact Or.inr (Or.inr ⟨hshortcut, k, guard, verdict, hfind, List.mem_singleton.mp hx⟩)
  | used hwithin => exact Or.inl (hwithin.due_of_mem hx)

variable {s : Session κ} {e : KeyEvent}

theorem key_of_plain (hkeys : s.keys.isSome = true) (hpaused : s.isPaused = false)
    (hplain : s.shortcutMods.isShortcut e.key e.mods = false) (hpaste : isCtrlV e = false) :
    .key e .none ∈ (Turn.key ⟨s, []⟩ e).effects := by
  obtain ⟨keys, hkeys⟩ := Option.isSome_iff_exists.mp hkeys
  obtain ⟨repeats, hcount⟩ := countPress_eq s e
  have hpaused : s.screen.paused = false := hpaused
  simp [key, hcount, hplain, Session.isPaused, hpaused, hkeys, forwardKey, hpaste, emit]

theorem press_of_shortcut {k : DeviceKey} {guard : Guard} (hkeys : s.keys.isSome = true)
    (hpaused : s.isPaused = false) (hchannel : s.channel.isSome = true)
    (hshortcut : s.shortcutMods.isShortcut e.key e.mods = true)
    (hfind : Shortcut.find? e.key e.mods.hasShift = some ⟨.deviceKey k, guard⟩)
    (hrepeat : e.autoRepeat = false) :
    ∃ verdict, .push (.press k e.state) verdict ∈ (Turn.key ⟨s, []⟩ e).effects := by
  obtain ⟨repeats, hcount⟩ := countPress_eq s e
  have hpermits : guard.permits (({ s with repeats } : Session κ).meets e) = true :=
    Session.permits_deviceKey hkeys hpaused hrepeat (Shortcut.find?_deviceKey hfind).2.2
  have hkey : Turn.key ⟨s, []⟩ e = Turn.push ⟨{ s with repeats }, []⟩ (.press k e.state) := by
    simp [key, hcount, hshortcut, shortcut, hfind, hpermits, act]
  rw [hkey, push]
  rcases attempt_cases ⟨{ s with repeats }, []⟩ (.press k e.state) with
    ⟨hnone, -⟩ | ⟨channel, verdict, -, h⟩
  · rw [show s.channel = none from hnone] at hchannel
    cases hchannel
  · rw [h]
    exact ⟨verdict, List.mem_singleton_self _⟩

end Turn

namespace Effect

def handed? (key : KeyCode) : Effect → Option ButtonState
  | .key e _ => if e.key = key then some e.state else none
  | _ => none

def pressed? (k : DeviceKey) : Effect → Option ButtonState
  | .push (.injectKeycode state pushed ..) (.ok ()) => if pushed = k then some state else none
  | _ => none

end Effect

namespace Record

def keystroke? (r : Record κ) : Option KeyEvent :=
  match r.call with
  | .event (.key e) => some e
  | _ => none

def handed (key : KeyCode) (r : Record κ) : List ButtonState :=
  r.effects.filterMap (Effect.handed? key)

def pressed (k : DeviceKey) (r : Record κ) : List ButtonState :=
  if r.keystroke?.isSome then r.effects.filterMap (Effect.pressed? k) else []

end Record

def keystrokes (log : List (Record κ)) : List KeyEvent :=
  log.filterMap Record.keystroke?

/-- A release of the pressed key that stands for the same shortcut as the press, or for none if the
press does. -/
@[mk_iff]
structure KeyEvent.EndedBy (mods : ShortcutMods) (press release : KeyEvent) : Prop where
  key : release.key = press.key
  state : release.state = .released
  once : release.autoRepeat = false
  kind : mods.isShortcut release.key release.mods = mods.isShortcut press.key press.mods
  shortcut : mods.isShortcut press.key press.mods = true →
    Shortcut.find? release.key release.mods.hasShift = Shortcut.find? press.key press.mods.hasShift

instance (mods : ShortcutMods) (press release : KeyEvent) :
    Decidable (press.EndedBy mods release) :=
  decidable_of_iff' _ (KeyEvent.endedBy_iff mods press release)

def Ended (mods : ShortcutMods) : List KeyEvent → Prop
  | [] => True
  | press :: after =>
    (press.state = .pressed → ∃ release ∈ after, press.EndedBy mods release) ∧ Ended mods after

instance Ended.decidable (mods : ShortcutMods) : DecidablePred (Ended mods)
  | [] => .isTrue trivial
  | _ :: after =>
    have := Ended.decidable mods after
    inferInstanceAs (Decidable (_ ∧ _))

namespace Session

/-- There is always a key processor, the screen is never paused, and whatever is offered to the
device is taken. -/
structure Unhindered (c : Collaborators κ) (log : List (Record κ)) : Prop where
  started : c.keys.isSome = true
  keys : ∀ r ∈ log, r.around.keys.isSome = true
  unpaused : ∀ r ∈ log, r.around.screen.paused = false
  accepted : ∀ r ∈ log, ∀ e ∈ r.effects, e.isRefused = false

theorem Unhindered.taken {c : Collaborators κ} {log : List (Record κ)} (h : Unhindered c log)
    {r : Record κ} (hr : r ∈ log) {command : Command} {verdict : Except PushError Unit}
    (he : .push command verdict ∈ r.effects) : .push command (.ok ()) ∈ r.effects := by
  cases verdict with
  | ok => exact he
  | error => cases h.accepted r hr _ he

variable [CommandSink κ] {config : Config} {c : Collaborators κ} {log : List (Record κ)}
  {s : Session κ}

theorem Run.keystroke (hrun : Run config c log s) (hfree : Unhindered c log) {r : Record κ}
    (hr : r ∈ log) {e : KeyEvent} (he : r.keystroke? = some e) :
    ∃ u : Session κ, u.keys.isSome = true ∧ u.isPaused = false ∧ u.channel.isSome = true ∧
      u.shortcutMods = .ofList config.input.shortcutMods ∧
      r.effects = (Turn.key ⟨u, []⟩ e).effects := by
  obtain ⟨before, s, -, hbefore, hchannel, heffects⟩ := hrun.exists_of_mem hr
  have hcall : r.call = .event (.key e) := by
    unfold Record.keystroke? at he
    split at he
    · rename_i hcall
      rw [hcall, Option.some.inj he]
    · cases he
  rw [hcall] at heffects
  refine ⟨s.amid r.around, hfree.keys r hr, hfree.unpaused r hr, ?_, hbefore.settings_eq.2,
    heffects⟩
  exact hchannel.trans (hbefore.channel_of_processor (.inl hfree.started))

structure Typed (mods : ShortcutMods) (e : KeyEvent) (effects : List Effect) : Prop where
  of_key_mem : ∀ e' ack, .key e' ack ∈ effects → e' = e ∧ mods.isShortcut e.key e.mods = false
  of_press_mem : ∀ k state repeats metastate verdict,
    .push (.injectKeycode state k repeats metastate) verdict ∈ effects →
    state = e.state ∧ mods.isShortcut e.key e.mods = true ∧
      ∃ guard, Shortcut.find? e.key e.mods.hasShift = some ⟨.deviceKey k, guard⟩
  key_mem : mods.isShortcut e.key e.mods = false → Turn.isCtrlV e = false →
    .key e .none ∈ effects
  press_mem : ∀ k guard, mods.isShortcut e.key e.mods = true →
    Shortcut.find? e.key e.mods.hasShift = some ⟨.deviceKey k, guard⟩ → e.autoRepeat = false →
    ∃ verdict, .push (.press k e.state) verdict ∈ effects

theorem Run.typed (hrun : Run config c log s) (hfree : Unhindered c log) {r : Record κ}
    (hr : r ∈ log) {e : KeyEvent} (he : r.keystroke? = some e) :
    Typed (.ofList config.input.shortcutMods) e r.effects := by
  obtain ⟨u, hkeys, hpaused, hchannel, hmods, heffects⟩ := hrun.keystroke hfree hr he
  rw [heffects, ← hmods]
  have hstroke := Turn.stroke_key ⟨u, []⟩ e
  refine ⟨?_, ?_, ?_, ?_⟩
  · intro e' ack hmem
    rcases hstroke.of_mem hmem with h | ⟨hplain, _, h⟩ | ⟨-, _, _, _, -, h⟩
    · exact h.elim
    · cases h
      exact ⟨rfl, hplain⟩
    · cases h
  · intro k state _ _ verdict hmem
    rcases hstroke.of_mem hmem with h | ⟨-, _, h⟩ | ⟨hshortcut, k', guard, _, hfind, h⟩
    · exact h.elim
    · cases h
    · cases h
      exact ⟨rfl, hshortcut, guard, hfind⟩
  · intro hplain hpaste
    exact Turn.key_of_plain hkeys hpaused hplain hpaste
  · intro k guard hshortcut hfind hrepeat
    exact Turn.press_of_shortcut hkeys hpaused hchannel hshortcut hfind hrepeat

section Pairs

variable {mods : ShortcutMods} {press release : KeyEvent} {effects effects' : List Effect}

end Pairs

def Collaborators.typing : Collaborators Channel :=
  { Collaborators.recording ⟨fun _ ↦ .error .notFound⟩ false with keys := some {} }

end Session

end InputRelay
