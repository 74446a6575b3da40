import InputRelay.Proofs.Session.Sight

namespace InputRelay

variable {κ : Type}

namespace Turn

def recount (t : Turn κ) (repeats : KeyRepeat) : Turn κ :=
  { t with session.repeats := repeats }

variable (t : Turn κ) (repeats : KeyRepeat)

theorem session_recount : (t.recount repeats).session = { t.session with repeats } :=
  rfl

theorem readClipboard_recount : (t.recount repeats).readClipboard =
    (t.readClipboard.1, t.readClipboard.2.recount repeats) := by
  unfold readClipboard
  dsimp +instances only [session_recount]
  split <;> rfl

theorem text_recount (e : TextInput) : (t.recount repeats).text e = (t.text e).recount repeats := by
  unfold text
  dsimp +instances only [session_recount, Session.isPaused]
  split
  · rfl
  · split <;> rfl

theorem countPress_recount (e : KeyEvent) :
    ∃ repeats', (t.recount repeats).countPress e = (t.countPress e).recount repeats' := by
  unfold countPress
  split
  · exact ⟨_, rfl⟩
  · exact ⟨repeats, rfl⟩

variable [CommandSink κ]

theorem attempt_recount (c : Command) : (t.recount repeats).attempt c =
    ((t.attempt c).1, (t.attempt c).2.recount repeats) := by
  simp only [attempt, session_recount]
  cases t.session.channel <;> rfl

theorem push_recount (c : Command) : (t.recount repeats).push c = (t.push c).recount repeats := by
  unfold push
  rw [attempt_recount]

theorem touch_recount (finger : PointerId) (action : MotionAction) (point : Point) :
    (t.recount repeats).touch finger action point =
      ((t.touch finger action point).1, (t.touch finger action point).2.recount repeats) :=
  attempt_recount t repeats _

theorem sendTouches_recount (lost : List PointerId) (touches : List SyntheticTouch) :
    (t.recount repeats).sendTouches lost touches =
      (t.sendTouches lost touches).recount repeats := by
  induction touches generalizing t lost with
  | nil => rfl
  | cons touch touches ih =>
    unfold sendTouches
    rw [touch_recount]
    split
    · exact ih t lost
    · obtain ⟨taken, t'⟩ := t.touch touch.finger touch.action touch.point
      cases taken
      · exact ih t' _
      · exact ih (t'.commit touch) lost

theorem releaseContacts_recount :
    (t.recount repeats).releaseContacts = t.releaseContacts.recount repeats := by
  unfold releaseContacts
  dsimp +instances only [session_recount]
  split
  · rfl
  · rename_i engine _
    exact sendTouches_recount { t with session.engine := some engine.releaseAll.2 } repeats _ _

theorem unloadTouchmap_recount :
    (t.recount repeats).unloadTouchmap = t.unloadTouchmap.recount repeats := by
  unfold unloadTouchmap
  rw [releaseContacts_recount]
  rfl

theorem loadTouchmap_recount (path : String) : ((t.recount repeats).loadTouchmap path).2 =
    (t.loadTouchmap path).2.recount repeats := by
  unfold loadTouchmap
  rw [releaseContacts_recount]
  dsimp +instances only [session_recount]
  split <;> rfl

theorem pickTouchmap_recount :
    (t.recount repeats).pickTouchmap = t.pickTouchmap.recount repeats := by
  unfold pickTouchmap
  dsimp +instances only [session_recount]
  split
  · rfl
  · rename_i answers _
    split
    · rfl
    · exact loadTouchmap_recount
        ({ t with session.picker := some answers.tail }.emit (.pickFile answers.head?.join))
        repeats _

theorem injectClipboard_recount :
    (t.recount repeats).injectClipboard = t.injectClipboard.recount repeats := by
  unfold injectClipboard
  rw [readClipboard_recount]
  obtain ⟨_ | text, t'⟩ := t.readClipboard
  · rfl
  · exact push_recount t' repeats _

theorem setClipboard_recount (paste : Bool) (sequence : AckSequence) :
    (t.recount repeats).setClipboard paste sequence =
      ((t.setClipboard paste sequence).1, (t.setClipboard paste sequence).2.recount repeats) := by
  unfold setClipboard
  rw [readClipboard_recount]
  obtain ⟨_ | text, t'⟩ := t.readClipboard
  · rfl
  · exact attempt_recount t' repeats _

theorem paste_recount (asText : Bool) :
    (t.recount repeats).paste asText = (t.paste asText).recount repeats := by
  unfold paste
  rw [injectClipboard_recount, setClipboard_recount]
  dsimp +instances only [session_recount]
  split <;> rfl

theorem beforeCtrlV_recount (asyncPaste : Bool) : (t.recount repeats).beforeCtrlV asyncPaste =
    ((t.beforeCtrlV asyncPaste).1, (t.beforeCtrlV asyncPaste).2.recount repeats) := by
  simp only [beforeCtrlV, injectClipboard_recount, setClipboard_recount]
  dsimp +instances only [session_recount]
  split
  · rfl
  split
  · rfl
  · generalize (if asyncPaste then t.session.sync.next else .none) = sequence
    obtain ⟨_ | _, t'⟩ := t.setClipboard false sequence
    · rfl
    · dsimp only
      split <;> rfl

theorem forwardKey_recount (keys : KeyProcessor) (e : KeyEvent) :
    (t.recount repeats).forwardKey keys e = (t.forwardKey keys e).recount repeats := by
  unfold forwardKey
  rw [beforeCtrlV_recount]
  dsimp +instances only [session_recount]
  split
  · split
    · obtain ⟨_ | _, t'⟩ := t.beforeCtrlV keys.asyncPaste <;> rfl
    · rfl
  · rfl

theorem act_recount (state : ButtonState) {action : ShortcutAction}
    (h : action ≠ .expandPanels) :
    (t.recount repeats).act state action = (t.act state action).recount repeats := by
  cases action with
  | deviceKey | screenPower | copyFromDevice | collapsePanels | rotateDevice
  | openHardKeyboardSettings => exact push_recount t repeats _
  | pause | orient | toggleFullscreen | resizeToFit | resizeToPixelPerfect | toggleFpsCounter => rfl
  | paste asText =>
    dsimp +instances only [act, session_recount]
    split
    · exact paste_recount t repeats asText
    · rfl
  | expandPanels => exact absurd rfl h
  | loadTouchmap => exact t.pickTouchmap_recount repeats
  | unloadTouchmap => exact t.unloadTouchmap_recount repeats

theorem shortcut_recount {e : KeyEvent} (h : t.session.runs .expandPanels e = false)
    (hshortcut : t.session.shortcutMods.isShortcut e.key e.mods = true) :
    (t.recount repeats).shortcut e = (t.shortcut e).recount repeats := by
  rw [Session.runs, hshortcut, Bool.true_and] at h
  unfold shortcut
  dsimp +instances only [session_recount, Session.meets, Session.isPaused]
  split
  · rfl
  · rename_i x hx
    rw [hx, Option.any_some] at h
    split
    · rename_i hpermits
      have hpermits : x.guard.permits (t.session.meets e) = true := hpermits
      rw [hpermits, Bool.and_true, beq_eq_false_iff_ne] at h
      exact act_recount t repeats e.state h
    · rfl

theorem key_recount {e : KeyEvent} (h : t.session.runs .expandPanels e = false) :
    ∃ repeats', (t.recount repeats).key e = (t.key e).recount repeats' := by
  obtain ⟨repeats', hcount⟩ := t.countPress_recount repeats e
  refine ⟨repeats', ?_⟩
  rw [← t.runs_countPress e] at h
  simp only [key, hcount]
  dsimp +instances only [session_recount, Session.isPaused]
  split
  · rename_i hshortcut
    exact shortcut_recount _ repeats' h hshortcut
  split
  · rfl
  split
  · rfl
  · exact forwardKey_recount _ repeats' _ e

end Turn

def Command.expandsPanels : Command → Bool
  | .expandNotificationPanel | .expandSettingsPanel => true
  | _ => false

/-- Two effects are the same but for which of the panels is expanded. -/
inductive Effect.Alike : Effect → Effect → Prop
  | refl (e : Effect) : Alike e e
  | panels {c c' : Command} (verdict verdict' : Except PushError Unit) :
      c.expandsPanels = true → c'.expandsPanels = true →
      Alike (.push c verdict) (.push c' verdict')

namespace Turn

/-- Turns that only the count of presses can tell apart. -/
structure Parallel (t t' : Turn κ) : Prop where
  session : ∃ channel repeats, t'.session = { t.session with channel, repeats }
  effects : List.Forall₂ Effect.Alike t.effects t'.effects

theorem Parallel.of_recount {t t' : Turn κ} {repeats : KeyRepeat} (h : t' = t.recount repeats) :
    Parallel t t' := by
  rw [h]
  exact ⟨⟨_, repeats, rfl⟩, List.forall₂_same.mpr fun e _ ↦ .refl e⟩

variable [CommandSink κ]

theorem parallel_expandPanels (s : Session κ) (repeats repeats' : KeyRepeat)
    (state : ButtonState) :
    Parallel (Turn.act ⟨{ s with repeats }, []⟩ state .expandPanels)
      (Turn.act ⟨{ s with repeats := repeats' }, []⟩ state .expandPanels) := by
  have hpanels : ∀ count : UInt32, (if count = 0 then Command.expandNotificationPanel
      else .expandSettingsPanel).expandsPanels = true := by
    intro count
    split <;> rfl
  cases hchannel : s.channel with
  | none =>
    simp only [act, push, attempt]
    exact ⟨⟨_, _, rfl⟩, .nil⟩
  | some channel =>
    simp only [act, push, attempt, emit, List.nil_append]
    exact ⟨⟨_, _, rfl⟩, .cons (.panels _ _ (hpanels _) (hpanels _)) .nil⟩

theorem parallel_key (s : Session κ) (repeats : KeyRepeat) (e : KeyEvent) :
    Parallel (Turn.key ⟨s, []⟩ e) (Turn.key ⟨{ s with repeats }, []⟩ e) := by
  cases hruns : s.runs .expandPanels e with
  | false =>
    obtain ⟨repeats', hkey⟩ := key_recount ⟨s, []⟩ repeats hruns
    exact .of_recount hkey
  | true =>
    obtain ⟨counted, hcount⟩ := countPress_eq s e
    obtain ⟨counted', hcount'⟩ := countPress_eq { s with repeats } e
    rw [key_of_runs ⟨s, []⟩ hruns, key_of_runs ⟨{ s with repeats }, []⟩ hruns, hcount, hcount']
    exact parallel_expandPanels s counted counted' e.state

/-- Other events do not see the count of presses, and leave what they do not see as it is. -/
theorem parallel_handle_of_family (s : Session κ) (repeats : KeyRepeat) {e : Event}
    (he : e.family ≠ .keyboard) : Parallel (s.handle e) (Session.handle { s with repeats } e) := by
  let s' : Session κ := { s with repeats }
  have hview : s'.seenBy e.family id = s.seenBy e.family id := by
    cases hfamily : e.family <;> first | rfl | exact absurd hfamily he
  have hseen := Session.handle_seenBy_congr CommandSink.follows_id CommandSink.follows_id he hview
  have heffects : (s'.handle e).effects = (s.handle e).effects := by
    have h := congrArg Turn.effects hseen
    exact h
  refine ⟨⟨_, _, Session.eq_of_seenBy he (congrArg Turn.session hseen) ?_⟩, ?_⟩
  · intro p hrepeats hp
    have h : p.Same s (s.handle e).session := (within_handle ⟨s, []⟩ e).same hp
    have h' : p.Same s' (s'.handle e).session := (within_handle ⟨s', []⟩ e).same hp
    cases p <;> first | exact h'.trans h.symm | exact absurd rfl hrepeats
  · rw [heffects]
    exact List.forall₂_same.mpr fun effect _ ↦ .refl effect

theorem parallel_handle (s : Session κ) (repeats : KeyRepeat) (e : Event) :
    Parallel (s.handle e) (Session.handle { s with repeats } e) := by
  cases e with
  | key e => exact parallel_key s repeats e
  | text e => exact .of_recount (text_recount ⟨s, []⟩ repeats e)
  | _ => exact parallel_handle_of_family s repeats nofun

theorem parallel_call (s : Session κ) (repeats : KeyRepeat) (call : Call) :
    Parallel (s.call call) (Session.call { s with repeats } call) := by
  cases call with
  | event e => exact parallel_handle s repeats e
  | load path => exact .of_recount (loadTouchmap_recount ⟨s, []⟩ repeats path)
  | unload => exact .of_recount (unloadTouchmap_recount ⟨s, []⟩ repeats)

end Turn

namespace Session

variable [CommandSink κ]

/-- Sessions that are the same, besides the count of presses, once the same things are around
them. -/
def Recounted (s s' : Session κ) : Prop :=
  ∀ around, ∃ repeats, s'.amid around = { s.amid around with repeats }

theorem Recounted.outputs {s s' : Session κ} (h : s.Recounted s')
    (later : List (Collaborators κ × Call)) :
    List.Forall₂ (List.Forall₂ Effect.Alike) (s.outputs later) (s'.outputs later) := by
  induction later generalizing s s' with
  | nil => exact .nil
  | cons next later ih =>
    obtain ⟨around, call⟩ := next
    obtain ⟨repeats, hamid⟩ := h around
    have hcall := Turn.parallel_call (s.amid around) repeats call
    obtain ⟨channel, repeats', hsession⟩ := hcall.session
    rw [Session.outputs, Session.outputs]
    rw [hamid]
    exact .cons hcall.effects (ih fun around ↦ ⟨repeats', by rw [hsession]; rfl⟩)

end Session

end InputRelay
