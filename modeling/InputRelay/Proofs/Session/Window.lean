import InputRelay.Proofs.Session.Recounting

namespace InputRelay

def Event.isInput : Event → Bool
  | .key _ | .text _ | .motion _ | .click _ | .wheel _ | .touch _ => true
  | .fileDrop _ | .axis _ | .padButton _ | .hotPlug _ => false

def ShortcutAction.isLocal : ShortcutAction → Bool
  | .pause _ | .orient _ | .toggleFullscreen | .resizeToFit | .resizeToPixelPerfect
  | .toggleFpsCounter => true
  | _ => false

theorem Guard.permits_trans {g g' g'' : Guard} (h : g.permits g' = true)
    (h' : g'.permits g'' = true) : g.permits g'' = true := by
  rw [permits, beq_iff_eq] at *
  rw [← h, ← BitVec.and_assoc, h']

/-- Every other action needs a session that is not paused, and a channel or what comes with one. -/
theorem Shortcut.isLocal_or_guarded {key : KeyCode} {shift : Bool} {x : Shortcut}
    (h : find? key shift = some x) : x.action.isLocal = true ∨
      Guard.notPaused.permits x.guard = true ∧
        (Guard.control.permits x.guard = true ∨ Guard.keyProcessor.permits x.guard = true) := by
  unfold find? at h
  split at h
  all_goals
    cases h <;> first
      | exact Or.inl rfl
      | exact Or.inr (by decide +revert)

variable {κ : Type}

namespace Session

theorem permits_meets (s : Session κ) (e : KeyEvent) :
    Guard.notPaused.permits (s.meets e) = !s.isPaused ∧
      Guard.control.permits (s.meets e) = s.channel.isSome ∧
      Guard.keyProcessor.permits (s.meets e) = s.keys.isSome := by
  simp only [meets]
  generalize s.channel.isSome = b₁
  generalize s.keys.isSome = b₂
  generalize s.keys.any (·.hid) = b₃
  generalize e.autoRepeat = b₄
  generalize e.state.isPressed = b₅
  generalize s.isPaused = b₆
  generalize s.screen.hasVideo = b₇
  revert b₁ b₂ b₃ b₄ b₅ b₆ b₇
  decide

/-- Nothing but the window is within the reach of the keyboard and the mouse. -/
def IsConfined (s : Session κ) : Prop :=
  s.isPaused = true ∨ s.channel = none ∧ s.keys = none ∧ s.pointer = none

/-- Only the window and the count of presses are changed, and nothing is done outside. -/
def StaysInWindow (s : Session κ) (t : Turn κ) : Prop :=
  ∃ screen repeats, t = ⟨{ s with screen, repeats }, []⟩

variable {s : Session κ}

theorem StaysInWindow.refl (s : Session κ) : StaysInWindow s ⟨s, []⟩ :=
  ⟨s.screen, s.repeats, rfl⟩

theorem StaysInWindow.trans {t u : Turn κ} (h : StaysInWindow s t)
    (h' : StaysInWindow t.session u) : StaysInWindow s u := by
  obtain ⟨screen, repeats, rfl⟩ := h
  obtain ⟨screen', repeats', rfl⟩ := h'
  exact ⟨screen', repeats', rfl⟩

theorem StaysInWindow.effects_eq {t : Turn κ} (h : StaysInWindow s t) : t.effects = [] := by
  obtain ⟨screen, repeats, rfl⟩ := h
  rfl

theorem IsConfined.isLocal_of_permits (hs : s.IsConfined) {e : KeyEvent} {shift : Bool}
    {x : Shortcut} (hx : Shortcut.find? e.key shift = some x)
    (hpermits : x.guard.permits (s.meets e) = true) : x.action.isLocal = true := by
  rcases Shortcut.isLocal_or_guarded hx with hlocal | ⟨hpaused, hdevice⟩
  · exact hlocal
  obtain ⟨hmeetsPaused, hmeetsControl, hmeetsKeys⟩ := s.permits_meets e
  have hplaying := Guard.permits_trans hpaused hpermits
  have hdevice := hdevice.imp (Guard.permits_trans · hpermits) (Guard.permits_trans · hpermits)
  rw [hmeetsPaused] at hplaying
  rw [hmeetsControl, hmeetsKeys] at hdevice
  rcases hs with hs | ⟨hchannel, hkeys, -⟩
  · simp [hs] at hplaying
  · simp [hchannel, hkeys] at hdevice

theorem runs_unique {e : KeyEvent} {action action' : ShortcutAction}
    (h : s.runs action e = true) (h' : s.runs action' e = true) : action = action' := by
  obtain ⟨x, hx, rfl, -⟩ := exists_of_runs h
  obtain ⟨x', hx', rfl, -⟩ := exists_of_runs h'
  rw [Option.some.inj (hx.symm.trans hx')]

theorem IsConfined.isLocal_of_runs (hs : s.IsConfined) {e : KeyEvent} {action : ShortcutAction}
    (h : s.runs action e = true) : action.isLocal = true := by
  obtain ⟨x, hx, rfl, hpermits⟩ := exists_of_runs h
  exact hs.isLocal_of_permits hx hpermits

theorem IsConfined.text (hs : s.IsConfined) (e : TextInput) :
    Turn.text ⟨s, []⟩ e = ⟨s, []⟩ := by
  unfold Turn.text
  split
  · rfl
  · rename_i keys hkeys
    rcases hs with hs | ⟨-, hnone, -⟩
    · rw [if_neg (by simp [hs])]
    · cases hnone.symm.trans hkeys

variable [CommandSink κ]

theorem IsConfined.click (hs : s.IsConfined) (e : MouseClick) : Turn.click ⟨s, []⟩ e = ⟨s, []⟩ ∨
    ∃ n, Turn.click ⟨s, []⟩ e = ⟨{ s with screen.resizesToFit := n }, []⟩ := by
  have hunbound : (s.channel.isSome && !s.isPaused) = false := by
    rcases hs with hs | ⟨hchannel, -, -⟩
    · simp [hs]
    · simp [hchannel]
  have hidle : (s.pointer.isNone || s.isPaused) = true := by
    rcases hs with hs | ⟨-, -, hpointer⟩
    · simp [hs]
    · simp [hpointer]
  simp only [Turn.click, hunbound, hidle, Bool.false_and, Bool.false_eq_true, if_true, if_false]
  split
  · exact Or.inl rfl
  split
  · split
    · exact Or.inr ⟨_, rfl⟩
    · exact Or.inl rfl
  · exact Or.inl rfl

theorem IsConfined.key_cases (hs : s.IsConfined) (e : KeyEvent) : ∃ repeats,
    (∀ action, s.runs action e ≠ true) ∧ Turn.key ⟨s, []⟩ e = ⟨{ s with repeats }, []⟩ ∨
      ∃ action, s.runs action e = true ∧
        Turn.key ⟨s, []⟩ e = Turn.act ⟨{ s with repeats }, []⟩ e.state action := by
  obtain ⟨repeats, hcount⟩ := Turn.countPress_eq s e
  refine ⟨repeats, ?_⟩
  by_cases hruns : ∃ action, s.runs action e = true
  · obtain ⟨action, hruns⟩ := hruns
    exact Or.inr ⟨action, hruns, by rw [Turn.key_of_runs ⟨s, []⟩ hruns, hcount]⟩
  refine Or.inl ⟨not_exists.mp hruns, ?_⟩
  simp only [Turn.key, hcount]
  split
  · rename_i hshortcut
    unfold Turn.shortcut
    split
    · rfl
    · rename_i x hx
      refine if_neg fun hpermits ↦ hruns ⟨x.action, ?_⟩
      rw [runs, hshortcut, hx, Option.any_some, beq_self_eq_true]
      exact hpermits
  split
  · rfl
  · rename_i hplaying
    split
    · rfl
    · rename_i keys hkeys
      rcases hs with hs | ⟨-, hnone, -⟩
      · exact absurd hs hplaying
      · cases hnone.symm.trans hkeys

theorem IsConfined.handle_cases (hs : s.IsConfined) {e : Event} (he : e.isInput = true)
    (hkey : ∀ k, e ≠ .key k) : s.handle e = ⟨s, []⟩ ∨
      ∃ n, s.handle e = ⟨{ s with screen.resizesToFit := n }, []⟩ := by
  have hidle : s.isPaused = true ∨ s.pointer = none := by
    rcases hs with hs | ⟨-, -, hpointer⟩
    · exact Or.inl hs
    · exact Or.inr hpointer
  cases e with
  | key k => exact absurd rfl (hkey k)
  | text e => exact Or.inl (hs.text e)
  | click e => exact hs.click e
  | motion e =>
    refine Or.inl (if_pos ?_)
    rcases hidle with h | h <;> simp [h]
  | wheel e | touch e =>
    refine Or.inl (if_neg ?_)
    rcases hidle with h | h <;> simp [h]
  | fileDrop | axis | padButton | hotPlug => cases he

theorem staysInWindow_act (s : Session κ) (state : ButtonState) {action : ShortcutAction}
    (h : action.isLocal = true) : StaysInWindow s (Turn.act ⟨s, []⟩ state action) := by
  cases action <;> first | exact ⟨_, s.repeats, rfl⟩ | cases h

theorem IsConfined.handle (hs : s.IsConfined) {e : Event} (he : e.isInput = true) :
    StaysInWindow s (s.handle e) := by
  by_cases hkey : ∃ k, e = .key k
  · obtain ⟨k, rfl⟩ := hkey
    obtain ⟨repeats, h⟩ := hs.key_cases k
    have hcounted : StaysInWindow s ⟨{ s with repeats }, []⟩ := ⟨s.screen, repeats, rfl⟩
    change StaysInWindow s (Turn.key ⟨s, []⟩ k)
    rcases h with ⟨-, h⟩ | ⟨action, hruns, h⟩ <;> rw [h]
    · exact hcounted
    · exact hcounted.trans (staysInWindow_act _ k.state (hs.isLocal_of_runs hruns))
  · rcases hs.handle_cases he (not_exists.mp hkey) with h | ⟨n, h⟩ <;> rw [h]
    · exact .refl s
    · exact ⟨_, s.repeats, rfl⟩

theorem isPaused_act {t : Turn κ} (ht : t.session.isPaused = true) (state : ButtonState)
    {action : ShortcutAction} (h : action.isLocal = true) :
    (t.act state action).session.isPaused = false ↔ action = .pause false := by
  have hkept : t.session.screen.paused = true := ht
  cases action with
  | pause paused => cases paused <;> simp [Turn.act, Turn.onScreen, isPaused]
  | orient | toggleFullscreen | resizeToFit | resizeToPixelPerfect | toggleFpsCounter =>
    simp [Turn.act, Turn.onScreen, isPaused, Screen.turn, hkept]
  | _ => cases h

theorem isPaused_handle_iff (hs : s.isPaused = true) {e : Event} (he : e.isInput = true) :
    (s.handle e).session.isPaused = false ↔
      ∃ k, e = .key k ∧ s.runs (.pause false) k = true := by
  have hconfined : s.IsConfined := Or.inl hs
  by_cases hkey : ∃ k, e = .key k
  · obtain ⟨k, rfl⟩ := hkey
    obtain ⟨repeats, h⟩ := hconfined.key_cases k
    have hresumes : (∃ k', Event.key k = .key k' ∧ s.runs (.pause false) k' = true) ↔
        s.runs (.pause false) k = true := by simp
    rw [hresumes]
    change (Turn.key ⟨s, []⟩ k).session.isPaused = false ↔ _
    rcases h with ⟨hnone, h⟩ | ⟨action, hruns, h⟩ <;> rw [h]
    · exact iff_of_false (ne_true_of_eq_false · hs) (hnone _)
    · rw [isPaused_act hs k.state (hconfined.isLocal_of_runs hruns)]
      constructor
      · rintro rfl
        exact hruns
      · exact runs_unique hruns
  · refine iff_of_false ?_ ?_
    · rcases hconfined.handle_cases he (not_exists.mp hkey) with h | ⟨n, h⟩ <;> rw [h] <;>
        exact (ne_true_of_eq_false · hs)
    · rintro ⟨k, rfl, -⟩
      exact hkey ⟨k, rfl⟩

theorem run_concat (s : Session κ) (events : List Event) (e : Event) :
    s.run (events ++ [e]) = (s.run events).handle e :=
  List.foldl_concat Turn.handle _ e events

theorem StaysInWindow.handle {t : Turn κ} (h : StaysInWindow s t) {e : Event}
    (hnext : StaysInWindow t.session (t.session.handle e)) : StaysInWindow s (t.handle e) := by
  obtain ⟨screen, repeats, rfl⟩ := h
  exact StaysInWindow.trans ⟨screen, repeats, rfl⟩ hnext

theorem staysInWindow_run {events : List Event} (hevents : ∀ e ∈ events, e.isInput = true)
    (hpaused : ∀ n < events.length, (s.run (events.take n)).session.isPaused = true) :
    StaysInWindow s (s.run events) := by
  induction events using List.reverseRecOn with
  | nil => exact .refl s
  | append_singleton events e ih =>
    rw [List.length_append, List.length_singleton] at hpaused
    have hlast := hpaused events.length (Nat.lt_succ_self _)
    rw [List.take_left] at hlast
    have hevents := List.forall_mem_append.mp hevents
    rw [run_concat]
    refine (ih hevents.1 ?_).handle (IsConfined.handle (Or.inl hlast) (hevents.2 e (by simp)))
    intro n hn
    have hbefore := hpaused n (Nat.lt_succ_of_lt hn)
    rwa [List.take_append_of_le_length hn.le] at hbefore

/-- A paused session does nothing but to its window, whatever the keyboard, the mouse and the
touchscreen report, until one of its shortcuts ends the pause. -/
theorem paused_is_silent (hs : s.isPaused = true) :
    (∀ e : Event, e.isInput = true → StaysInWindow s (s.handle e) ∧
        ((s.handle e).session.isPaused = false ↔
          ∃ k, e = .key k ∧ s.runs (.pause false) k = true)) ∧
      ∀ events : List Event, (∀ e ∈ events, e.isInput = true) →
        (∀ n < events.length, (s.run (events.take n)).session.isPaused = true) →
        StaysInWindow s (s.run events) := by
  refine ⟨fun e he ↦ ⟨IsConfined.handle (Or.inl hs) he, isPaused_handle_iff hs he⟩, ?_⟩
  intro events hevents hpaused
  exact staysInWindow_run hevents hpaused

def Collaborators.paused : Collaborators Channel :=
  { Collaborators.recording ⟨fun _ ↦ .error .notFound⟩ false with
    screen := { Screen.ofFrame ⟨100, 100⟩ with paused := true }
    keys := some { supportsText := true }
    pointer := some {}
    clipboard := some ⟨.ok "text"⟩ }

def pausedEvents : List Event := [
  .text ⟨"a", .none⟩,
  .key { key := .keyV, state := .pressed, mods := .lctrl },
  .click
    { button := .left, state := .pressed, point := ⟨200, 200⟩, clicks := 2, held := .none,
      mods := .none },
  .key { key := .keyZ, state := .pressed, mods := .lalt ||| .lshift }]

theorem paused_is_silent_resumed : ∃ t : Turn Channel,
    start {} .paused = .ok t ∧ t.session.isPaused = true ∧
      StaysInWindow t.session (t.session.run pausedEvents) ∧
      (t.session.run pausedEvents).session.isPaused = false := by
  refine ⟨_, rfl, by decide, (paused_is_silent ?_).2 _ ?_ ?_, ?_⟩ <;> decide

end Session

end InputRelay
