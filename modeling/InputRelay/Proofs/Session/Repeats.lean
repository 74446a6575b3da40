import InputRelay.Proofs.Session.Destination
import Mathlib.Order.Bounds.Basic

namespace InputRelay

section LastRun

variable {α : Type} {l : List α} {x : α} {n : ℕ}

/-- The list ends in so many equal items, and in no more of them. -/
def IsLastRun (l : List α) (n : ℕ) : Prop :=
  IsGreatest {m | ∃ x, List.replicate m x <:+ l} n

theorem replicate_suffix_concat {y : α} :
    List.replicate (n + 1) y <:+ l ++ [x] ↔ y = x ∧ List.replicate n y <:+ l := by
  rw [List.replicate_succ', List.suffix_concat_iff]
  constructor
  · intro h
    rcases h with h | ⟨t, ht, hsuffix⟩
    · simp at h
    · obtain ⟨rfl, hyx⟩ := List.append_inj' ht rfl
      exact ⟨List.singleton_inj.mp hyx, hsuffix⟩
  · rintro ⟨rfl, hsuffix⟩
    exact Or.inr ⟨_, rfl, hsuffix⟩

theorem getLast?_of_replicate_suffix (h : List.replicate (n + 1) x <:+ l) :
    l.getLast? = some x := by
  obtain ⟨before, rfl⟩ := h
  simp [List.getLast?_append, List.getLast?_replicate]

theorem IsLastRun.nil [Nonempty α] : IsLastRun ([] : List α) 0 := by
  obtain ⟨x⟩ := ‹Nonempty α›
  refine ⟨⟨x, List.suffix_refl []⟩, ?_⟩
  rintro m ⟨y, hsuffix⟩
  have hnil := List.suffix_nil.mp hsuffix
  rw [List.replicate_eq_nil_iff] at hnil
  omega

theorem IsLastRun.one_le (h : IsLastRun l n) (hx : l.getLast? = some x) : 1 ≤ n := by
  obtain ⟨before, hbefore⟩ := List.getLast?_eq_some_iff.mp hx
  exact h.2 ⟨x, before, hbefore.symm⟩

theorem IsLastRun.concat (h : IsLastRun l n) (hx : l.getLast? = some x) :
    IsLastRun (l ++ [x]) (n + 1) := by
  obtain ⟨k, rfl⟩ := Nat.exists_eq_add_one.mpr (h.one_le hx)
  obtain ⟨⟨y, hsuffix⟩, hmax⟩ := h
  obtain rfl : y = x := Option.some.inj ((getLast?_of_replicate_suffix hsuffix).symm.trans hx)
  refine ⟨⟨y, replicate_suffix_concat.mpr ⟨rfl, hsuffix⟩⟩, ?_⟩
  rintro m ⟨z, hz⟩
  cases m with
  | zero => omega
  | succ m =>
    have hm : m ≤ k + 1 := hmax ⟨z, (replicate_suffix_concat.mp hz).2⟩
    omega

theorem IsLastRun.concat_of_ne (hx : l.getLast? ≠ some x) : IsLastRun (l ++ [x]) 1 := by
  refine ⟨⟨x, List.suffix_append l [x]⟩, ?_⟩
  rintro m ⟨y, hy⟩
  by_contra hm
  obtain ⟨k, rfl⟩ := Nat.exists_eq_add_of_le (Nat.not_le.mp hm)
  rw [show Nat.succ 1 + k = k + 1 + 1 by omega] at hy
  obtain ⟨rfl, hsuffix⟩ := replicate_suffix_concat.mp hy
  exact hx (getLast?_of_replicate_suffix hsuffix)

end LastRun

namespace KeyRepeat

variable {r : KeyRepeat} {presses : List (KeyCode × Modifiers)} {key : KeyCode} {mods : Modifiers}

theorem toNat_count_record (h : r.last = some (key, mods)) :
    (r.record key mods).count.toNat = min (r.count.toNat + 1) (2 ^ 32 - 1) := by
  have hlt := r.count.toNat_lt
  rw [record, if_pos h]
  dsimp only
  split
  · rename_i hmax
    rw [hmax]
    rfl
  · rename_i hmax
    have hne : r.count.toNat ≠ 4294967295 := fun h ↦ hmax (UInt32.toNat_inj.mp h)
    rw [UInt32.toNat_add, UInt32.toNat_one]
    omega

theorem count_record_eq_zero_iff : (r.record key mods).count = 0 ↔ r.last ≠ some (key, mods) := by
  constructor
  · intro hzero hlast
    have hcount := toNat_count_record hlast
    rw [hzero, UInt32.toNat_zero] at hcount
    omega
  · intro hne
    rw [record, if_neg hne]

theorem last_record : (r.record key mods).last = some (key, mods) := by
  unfold record
  split
  · assumption
  · rfl

/-- What is kept of the presses so far: the last one, and how often it was repeated. -/
structure Counts (r : KeyRepeat) (presses : List (KeyCode × Modifiers)) : Prop where
  last : r.last = presses.getLast?
  count : ∃ n, IsLastRun presses n ∧ r.count.toNat = min (n - 1) (2 ^ 32 - 1)

theorem Counts.nil : Counts {} [] where
  last := rfl
  count := ⟨0, .nil, rfl⟩

theorem Counts.record (h : r.Counts presses) (key : KeyCode) (mods : Modifiers) :
    (r.record key mods).Counts (presses ++ [(key, mods)]) := by
  refine ⟨by rw [last_record, List.getLast?_concat], ?_⟩
  by_cases hlast : r.last = some (key, mods)
  · obtain ⟨n, hn, hcount⟩ := h.count
    have hone := hn.one_le (h.last.symm.trans hlast)
    refine ⟨n + 1, hn.concat (h.last.symm.trans hlast), ?_⟩
    rw [toNat_count_record hlast, hcount]
    omega
  · refine ⟨1, .concat_of_ne (h.last ▸ hlast), ?_⟩
    rw [count_record_eq_zero_iff.mpr hlast]
    rfl

end KeyRepeat

/-- What a key event adds to the presses that are counted: nothing if it was made up by the
operating system or is a release. -/
def KeyEvent.press? (e : KeyEvent) : Option (KeyCode × Modifiers) :=
  if e.state.isPressed && !e.autoRepeat then some (e.key, e.mods) else none

variable {κ : Type}

def presses (log : List (Record κ)) : List (KeyCode × Modifiers) :=
  (keystrokes log).filterMap KeyEvent.press?

theorem presses_concat (log : List (Record κ)) (r : Record κ) :
    presses (log ++ [r]) = presses log ++ (r.keystroke?.bind KeyEvent.press?).toList := by
  rw [presses, keystrokes, List.filterMap_append, List.filterMap_append]
  cases hkey : r.keystroke? with
  | none => simp [presses, keystrokes, hkey]
  | some e => cases hpress : e.press? <;> simp [presses, keystrokes, hkey, hpress]

theorem Session.permits_deviceCommand {s : Session κ} (hchannel : s.channel.isSome = true)
    (hpaused : s.isPaused = false) {e : KeyEvent} (hstate : e.state = .pressed)
    (honce : e.autoRepeat = false) : Guard.deviceCommand.permits (s.meets e) = true := by
  simp only [meets, hchannel, hpaused, hstate, honce]
  generalize s.keys.isSome = b₁
  generalize s.keys.any (·.hid) = b₂
  generalize s.screen.hasVideo = b₃
  revert b₁ b₂ b₃
  decide

def Deed.Uncounted (d : Deed) : Prop :=
  d ≠ .change .repeats

namespace Deed.Uncounted

theorem offer (c : Command) : Uncounted (.offer c) := by
  intro h
  cases h

theorem effect (e : Effect) : Uncounted (.effect e) := by
  intro h
  cases h

theorem change {p : Part} (h : p ≠ .repeats) : Uncounted (.change p) := by
  intro hp
  cases hp
  exact h rfl

end Deed.Uncounted

namespace Turn

theorem counts_countPress {t : Turn κ} {counted : List (KeyCode × Modifiers)}
    (h : t.session.repeats.Counts counted) (e : KeyEvent) :
    (t.countPress e).session.repeats.Counts (counted ++ e.press?.toList) := by
  unfold countPress KeyEvent.press?
  split
  · exact h.record e.key e.mods
  · simpa using h

variable [CommandSink κ] (t : Turn κ)

theorem uncounted_act (state : ButtonState) (action : ShortcutAction) :
    Within Deed.Uncounted t (t.act state action) := by
  have hreplacing : ∀ d : Deed, d.Replacing → d.Uncounted := by
    rintro _ h rfl
    exact h
  cases action with
  | deviceKey | screenPower | copyFromDevice | collapsePanels | rotateDevice
  | openHardKeyboardSettings | expandPanels =>
    exact t.within_push (.offer _)
  | pause | orient | toggleFullscreen | resizeToFit | resizeToPixelPerfect | toggleFpsCounter =>
    exact .one (.screen t rfl) (.change (by decide))
  | paste asText =>
    simp only [act]
    split
    · exact t.within_paste (.effect _) (fun _ ↦ .offer _) (fun _ ↦ .offer _) asText
    · exact .refl t
  | loadTouchmap => exact t.within_pickTouchmap.mono hreplacing
  | unloadTouchmap => exact t.within_unloadTouchmap.mono hreplacing

theorem uncounted_forwardKey (keys : KeyProcessor) (e : KeyEvent) :
    Within Deed.Uncounted t (t.forwardKey keys e) := by
  unfold forwardKey
  split
  · split
    · have hbefore : Within Deed.Uncounted t (t.beforeCtrlV keys.asyncPaste).2 :=
        t.within_beforeCtrlV (.effect _) (fun _ ↦ .offer _) (fun _ _ ↦ .offer _)
          (.change (by decide)) _
      split <;> rename_i h <;> rw [h] at hbefore
      · exact hbefore.trans (within_emit _ rfl (.effect _))
      · exact hbefore
    · exact .refl t
  · exact t.within_emit rfl (.effect _)

/-- A press is counted before it is known what becomes of it. -/
theorem repeats_key (e : KeyEvent) :
    (t.key e).session.repeats = (t.countPress e).session.repeats := by
  have huncounted : Within Deed.Uncounted (t.countPress e) (t.key e) := by
    rcases t.key_eq_cases e with ⟨-, h⟩ | ⟨-, h | ⟨keys, h⟩⟩ <;> rw [h]
    · rcases (t.countPress e).shortcut_eq_act e with h | ⟨x, -, -, h⟩ <;> rw [h]
      · exact .refl _
      · exact uncounted_act _ e.state x.action
    · exact .refl _
    · exact uncounted_forwardKey _ keys e
  exact huncounted.same (p := .repeats) fun h ↦ h rfl

variable {t} in
theorem shortcut_expandPanels (hchannel : t.session.channel.isSome = true)
    (hpaused : t.session.isPaused = false) {e : KeyEvent} (hkey : e.key = .keyN)
    (hshift : e.mods.hasShift = false) (hstate : e.state = .pressed)
    (honce : e.autoRepeat = false) :
    ∃ verdict, (t.shortcut e).effects = t.effects ++
      [.push (if t.session.repeats.count = 0 then .expandNotificationPanel
        else .expandSettingsPanel) verdict] := by
  have hfind : Shortcut.find? e.key e.mods.hasShift = some ⟨.expandPanels, .deviceCommand⟩ := by
    rw [hkey, hshift]
    rfl
  have hpermits := Session.permits_deviceCommand hchannel hpaused hstate honce
  obtain ⟨channel, verdict, hattempt⟩ := attempt_of_channel hchannel
    (if t.session.repeats.count = 0 then .expandNotificationPanel else .expandSettingsPanel)
  refine ⟨verdict, ?_⟩
  rw [shortcut, hfind]
  dsimp only
  rw [if_pos hpermits, act, push, hattempt]
  rfl

end Turn

namespace Session

variable [CommandSink κ] {config : Config} {c : Collaborators κ} {log : List (Record κ)}
  {s : Session κ}

theorem repeats_of_start {t : Turn κ} (h : start config c = .ok t) : t.session.repeats = {} := by
  unfold start at h
  split at h
  · cases h
  · extract_lets session at h
    obtain rfl := Except.ok.inj h
    split
    · rfl
    · rename_i path _
      exact (Turn.within_loadTouchmap ⟨session, []⟩ path).same (p := .repeats) id

theorem repeats_call {call : Call} (h : ∀ e, call ≠ .event (.key e)) :
    (s.call call).session.repeats = s.repeats := by
  cases call with
  | load path => exact (Turn.within_loadTouchmap ⟨s, []⟩ path).same (p := .repeats) id
  | unload => exact (Turn.within_unloadTouchmap ⟨s, []⟩).same (p := .repeats) id
  | event event =>
    cases event with
    | key e => exact absurd rfl (h e)
    | text e =>
      have htext : Turn.Within Deed.Uncounted ⟨s, []⟩ (Turn.text ⟨s, []⟩ e) :=
        Turn.within_text _ (.effect _)
      exact htext.same (p := .repeats) fun h ↦ h rfl
    | _ =>
      apply repeats_handle
      intro hfamily
      cases hfamily

theorem counts_call {counted : List (KeyCode × Modifiers)} (h : s.repeats.Counts counted)
    (r : Record κ) : (s.call r.call).session.repeats.Counts
      (counted ++ (r.keystroke?.bind KeyEvent.press?).toList) := by
  unfold Record.keystroke?
  split
  · rename_i e hcall
    rw [hcall, show s.call (.event (.key e)) = Turn.key ⟨s, []⟩ e from rfl, Turn.repeats_key]
    exact Turn.counts_countPress h e
  · rename_i hother
    rw [repeats_call hother]
    simpa using h

theorem Run.counts (hrun : Run config c log s) : s.repeats.Counts (presses log) := by
  induction hrun with
  | start h =>
    rw [repeats_of_start h]
    exact .nil
  | @call log s around call h hchannel ih =>
    rw [presses_concat]
    exact counts_call (s := s.amid around) ih ⟨around, call, _⟩

theorem effects_expandPanels {counted : List (KeyCode × Modifiers)}
    (h : s.repeats.Counts counted) (hchannel : s.channel.isSome = true)
    (hpaused : s.isPaused = false) {e : KeyEvent} (hkey : e.key = .keyN)
    (hshortcut : s.shortcutMods.isShortcut e.key e.mods = true)
    (hshift : e.mods.hasShift = false) (hstate : e.state = .pressed)
    (honce : e.autoRepeat = false) :
    ∃ verdict, (s.call (.event (.key e))).effects =
      [.push (if counted.getLast? = some (e.key, e.mods) then .expandSettingsPanel
        else .expandNotificationPanel) verdict] := by
  have hcount : Turn.countPress ⟨s, []⟩ e =
      ⟨{ s with repeats := s.repeats.record e.key e.mods }, []⟩ := by
    simp [Turn.countPress, hstate, honce, ButtonState.isPressed]
  have hkeyed : s.call (.event (.key e)) =
      Turn.shortcut ⟨{ s with repeats := s.repeats.record e.key e.mods }, []⟩ e := by
    rw [show s.call (.event (.key e)) = Turn.key ⟨s, []⟩ e from rfl, Turn.key_of_shortcut hshortcut,
      hcount]
  obtain ⟨verdict, heffects⟩ := Turn.shortcut_expandPanels
    (t := ⟨{ s with repeats := s.repeats.record e.key e.mods }, []⟩) hchannel hpaused hkey hshift
    hstate honce
  have hzero : (s.repeats.record e.key e.mods).count = 0 ↔
      ¬counted.getLast? = some (e.key, e.mods) := by
    rw [KeyRepeat.count_record_eq_zero_iff, h.last]
  refine ⟨verdict, ?_⟩
  rw [hkeyed, heffects]
  simp only [hzero, ite_not, List.nil_append]

/-- The count is by how much the last run of equal presses exceeds one, whatever became of them. So
the panels are expanded to the settings just if the last press was the same. -/
theorem repeats_follow_presses (hrun : Run config c log s) :
    (∃ n, IsLastRun (presses log) n ∧ s.repeats.count.toNat = min (n - 1) (2 ^ 32 - 1)) ∧
    ∀ around : Collaborators κ, around.channel.isSome = true → around.screen.paused = false →
      ∀ e : KeyEvent, e.key = .keyN → e.state = .pressed → e.autoRepeat = false →
        (∃ m ∈ config.input.shortcutMods, e.mods &&& m.flag = m.flag) → e.mods.hasShift = false →
        ∃ verdict, ((s.amid around).call (.event (.key e))).effects =
          [.push (if (presses log).getLast? = some (e.key, e.mods) then .expandSettingsPanel
            else .expandNotificationPanel) verdict] := by
  refine ⟨hrun.counts.count, ?_⟩
  intro around hchannel hpaused e hkey hstate honce hheld hshift
  have hshortcut : (s.amid around).shortcutMods.isShortcut e.key e.mods = true := by
    rw [← ShortcutMods.isHeld_ofList, ← hrun.settings_eq.2] at hheld
    exact Bool.or_eq_true_iff.mpr (Or.inl hheld)
  exact effects_expandPanels (s := s.amid around) hrun.counts hchannel hpaused hkey hshortcut
    hshift hstate honce

theorem repeats_follow_presses_caps : ∃ (log : List (Record Channel)) (s : Session Channel),
    Run {} .typing log s ∧ presses log = [(.leftAlt, .lalt), (.keyN, .lalt)] ∧
      s.repeats.count.toNat = 0 ∧
      let press mods := (s.amid .typing).call (.event (.key ⟨.keyN, 0, .pressed, mods, false⟩))
      (∃ n, IsLastRun (presses log) n ∧ s.repeats.count.toNat = min (n - 1) (2 ^ 32 - 1)) ∧
        (∃ verdict, (press .lalt).effects = [.push .expandSettingsPanel verdict]) ∧
        ∃ verdict, (press (.lalt ||| .caps)).effects =
          [.push .expandNotificationPanel verdict] := by
  have hstart : Run {} .typing [] _ := .start rfl
  have hmod := hstart.call .typing (.event (.key ⟨.leftAlt, 0, .pressed, .lalt, false⟩)) rfl
  have hpress := hmod.call .typing (.event (.key ⟨.keyN, 0, .pressed, .lalt, false⟩)) rfl
  have hrelease := hpress.call .typing (.event (.key ⟨.keyN, 0, .released, .lalt, false⟩)) rfl
  obtain ⟨log, s, hrun, hpresses, hzero⟩ : ∃ (log : List (Record Channel)) (s : Session Channel),
      Run {} .typing log s ∧ presses log = [(.leftAlt, .lalt), (.keyN, .lalt)] ∧
        s.repeats.count.toNat = 0 :=
    ⟨_, _, hrelease, by decide, by decide⟩
  obtain ⟨hcount, hpanels⟩ := repeats_follow_presses hrun
  refine ⟨log, s, hrun, hpresses, hzero, hcount, ?_, ?_⟩
  · obtain ⟨verdict, h⟩ := hpanels .typing rfl rfl ⟨.keyN, 0, .pressed, .lalt, false⟩ rfl rfl rfl
      (by decide) (by decide)
    rw [hpresses, if_pos (by decide)] at h
    exact ⟨verdict, h⟩
  · obtain ⟨verdict, h⟩ := hpanels .typing rfl rfl ⟨.keyN, 0, .pressed, .lalt ||| .caps, false⟩ rfl
      rfl rfl (by decide) (by decide)
    rw [hpresses, if_neg (by decide)] at h
    exact ⟨verdict, h⟩

end Session

end InputRelay
