import InputRelay.Proofs.Session.Deed

namespace InputRelay

/-- The families of events. Each one has its own parts of a session to do with. -/
inductive Family
  | keyboard | pointer | gamepad | hotPlug | files
deriving DecidableEq

def Event.family : Event → Family
  | .key _ | .text _ => .keyboard
  | .motion _ | .click _ | .wheel _ | .touch _ => .pointer
  | .axis _ | .padButton _ => .gamepad
  | .hotPlug _ => .hotPlug
  | .fileDrop _ => .files

namespace Deed

def Of : Family → Deed → Prop
  | .keyboard, .effect (.key ..) | .keyboard, .effect (.text _) => True
  | .keyboard, .effect .readClipboard | .keyboard, .effect (.pickFile _) => True
  | .keyboard, .offer (.injectControllerAxis _) => False
  | .keyboard, .offer (.injectControllerButton _) => False
  | .keyboard, .offer (.injectControllerDevice ..) => False
  | .keyboard, .offer _ => True
  | .keyboard, .change .host | .keyboard, .change .slots | .keyboard, .change .finger => False
  | .keyboard, .change _ => True
  | .pointer, .effect (.pointer _) => True
  | .pointer, .offer (.injectTouch ..) | .pointer, .offer (.injectKeycode ..) => True
  | .pointer, .offer (.backOrScreenOn _) => True
  | .pointer, .offer .expandNotificationPanel | .pointer, .offer .expandSettingsPanel => True
  | .pointer, .change .screen | .pointer, .change .finger => True
  | .gamepad, .offer (.injectControllerAxis _) => True
  | .gamepad, .offer (.injectControllerButton _) => True
  | .gamepad, .offer (.injectTouch ..) | .gamepad, .change .engine => True
  | .hotPlug, .effect (.openController ..) | .hotPlug, .effect (.closeController _) => True
  | .hotPlug, .offer (.injectControllerDevice ..) => True
  | .hotPlug, .change .host | .hotPlug, .change .slots => True
  | .files, .effect (.file ..) => True
  | _, _ => False

def Untouching : Deed → Prop
  | .offer (.injectTouch ..) => False
  | .change .finger | .change .engine => False
  | _ => True

/-- Nothing but what concerns the fingers of a touchmap. -/
def Touching : Deed → Prop
  | .offer (.injectTouch ..) => True
  | .change .engine => True
  | _ => False

/-- Nothing but what concerns the virtual finger. -/
def Fingering : Deed → Prop
  | .offer (.injectTouch ..) => True
  | .change .finger => True
  | _ => False

def Unacknowledged : Deed → Prop
  | .effect (.key _ ack) => ack = .none
  | .offer (.setClipboard sequence _ _) => sequence = .none
  | .change .sync => False
  | _ => True

def Unkeyed : Deed → Prop
  | .effect (.key ..) => False
  | _ => True

def Unrouted : Deed → Prop
  | .offer (.injectControllerAxis _) | .offer (.injectControllerButton _) => False
  | .change .forwards => False
  | _ => True

structure Incidental (d : Deed) : Prop where
  untouching : d.Untouching
  unacknowledged : d.Unacknowledged
  unkeyed : d.Unkeyed
  unrouted : d.Unrouted

def Keyless : Deed → Prop
  | .effect (.key ..) => False
  | .offer (.injectKeycode ..) => False
  | _ => True

def Replacing : Deed → Prop
  | .effect (.pickFile _) => True
  | .offer (.injectTouch ..) => True
  | .change .engine | .change .forwards | .change .picker => True
  | _ => False

/-- Nothing that concerns a touchmap, acknowledgments, keys or what becomes of controllers. -/
structure Pointing (d : Deed) : Prop where
  unacknowledged : d.Unacknowledged
  engine : d ≠ .change .engine
  unkeyed : d.Unkeyed
  unrouted : d.Unrouted

theorem Incidental.pointing (d : Deed) (h : d.Incidental) : d.Pointing := by
  refine ⟨h.unacknowledged, ?_, h.unkeyed, h.unrouted⟩
  rintro rfl
  exact h.untouching

theorem Of.incidental (d : Deed) (h : d.Of .hotPlug) : d.Incidental := by
  rcases d with e | c | p
  · cases e <;> first | exact h.elim | exact ⟨trivial, trivial, trivial, trivial⟩
  · cases c <;> first | exact h.elim | exact ⟨trivial, trivial, trivial, trivial⟩
  · cases p <;> first | exact h.elim | exact ⟨trivial, trivial, trivial, trivial⟩

theorem Of.pointing (d : Deed) (h : d.Of .pointer) : d.Pointing := by
  rcases d with e | c | p
  · cases e <;> first | exact h.elim | exact ⟨trivial, nofun, trivial, trivial⟩
  · cases c <;> first | exact h.elim | exact ⟨trivial, nofun, trivial, trivial⟩
  · cases p <;> first | exact h.elim | exact ⟨trivial, nofun, trivial, trivial⟩

theorem Touching.of_gamepad (d : Deed) (h : d.Touching) : d.Of .gamepad := by
  rcases d with e | c | p
  · exact h.elim
  · cases c <;> first | exact h.elim | trivial
  · cases p <;> first | exact h.elim | trivial

theorem Fingering.of_pointer (d : Deed) (h : d.Fingering) : d.Of .pointer := by
  rcases d with e | c | p
  · exact h.elim
  · cases c <;> first | exact h.elim | trivial
  · cases p <;> first | exact h.elim | trivial

theorem Replacing.of_keyboard (d : Deed) (h : d.Replacing) : d.Of .keyboard := by
  rcases d with e | c | p
  · cases e <;> first | exact h.elim | trivial
  · cases c <;> first | exact h.elim | trivial
  · cases p <;> first | exact h.elim | trivial

theorem Touching.replacing (d : Deed) (h : d.Touching) : d.Replacing := by
  rcases d with e | c | p
  · exact h.elim
  · cases c <;> trivial
  · cases p <;> trivial

theorem Replacing.unacknowledged (d : Deed) (h : d.Replacing) : d.Unacknowledged := by
  rcases d with e | c | p
  · cases e <;> trivial
  · cases c <;> trivial
  · cases p <;> trivial

theorem Replacing.keyless (d : Deed) (h : d.Replacing) : d.Keyless := by
  rcases d with e | c | p
  · cases e <;> trivial
  · cases c <;> trivial
  · trivial

theorem Keyless.unkeyed (d : Deed) (h : d.Keyless) : d.Unkeyed := by
  rcases d with e | c | p
  · cases e <;> trivial
  · trivial
  · trivial

end Deed

namespace Turn

open Deed

variable {κ : Type} [CommandSink κ] (t : Turn κ)

theorem within_emit {allowed : Deed → Prop} {e : Effect} (he : e.isPush = false)
    (h : allowed (.effect e)) : Within allowed t (t.emit e) :=
  .one (.effect t he) h

theorem within_push {allowed : Deed → Prop} {c : Command} (h : allowed (.offer c)) :
    Within allowed t (t.push c) :=
  .one (.offer t c) h

theorem within_text {allowed : Deed → Prop} {e : TextInput} (h : allowed (.effect (.text e))) :
    Within allowed t (t.text e) := by
  unfold text
  split
  · exact .refl t
  · split
    · exact t.within_emit rfl h
    · exact .refl t

theorem within_wheel {allowed : Deed → Prop} (h : ∀ call, allowed (.effect (.pointer call)))
    (e : MouseWheel) : Within allowed t (t.wheel e) := by
  simp only [wheel]
  split
  · exact t.within_emit rfl (h _)
  · exact .refl t

theorem within_fingerTouch {allowed : Deed → Prop} (h : ∀ call, allowed (.effect (.pointer call)))
    (e : FingerTouch) : Within allowed t (t.fingerTouch e) := by
  simp only [fingerTouch]
  split
  · exact t.within_emit rfl (h _)
  · exact .refl t

theorem within_fileDrop {allowed : Deed → Prop} {path : String}
    (h : ∀ action accepted, allowed (.effect (.file action path accepted))) :
    Within allowed t (t.fileDrop path) := by
  unfold fileDrop
  split
  · exact .refl t
  · exact t.within_emit rfl (h _ _)

theorem within_addController (index : UInt32) :
    Within (Of .hotPlug) t (t.addController index) := by
  unfold addController
  split
  · exact .refl t
  split
  · exact .refl t
  · rename_i host hhost
    have hopen : Within (Of .hotPlug) t
        ({ t with session.host := some (host.open? index).2 }.emit
          (.openController index (host.open? index).1)) :=
      .trans (.one (.host t _) trivial) (within_emit _ rfl trivial)
    refine hopen.trans ?_
    dsimp only
    split
    · exact .refl _
    · split
      · exact .trans (.one (.slots _ _) trivial) (within_push _ trivial)
      · exact .trans (.one (.host _ _) trivial) (within_emit _ rfl trivial)

theorem within_freeSlot (id : ControllerId) :
    Within (Of .hotPlug) t (match t.session.slots.erase id with
      | .ok (_, slots) =>
        { t with session.slots := slots }.push (.injectControllerDevice id .removed)
      | .error _ => t) := by
  split
  · exact .trans (.one (.slots t _) trivial) (within_push _ trivial)
  · exact .refl t

theorem within_removeController (id : ControllerId) :
    Within (Of .hotPlug) t (t.removeController id) := by
  unfold removeController
  split
  · refine .trans ?_ (within_freeSlot _ id)
    split
    · exact .refl t
    · exact .trans (.one (.host t _) trivial) (within_emit _ rfl trivial)
  · exact .refl t

theorem within_hotPlug (e : HotPlug) : Within (Of .hotPlug) t (t.hotPlug e) := by
  cases e with
  | added index => exact t.within_addController index
  | removed id => exact t.within_removeController id

theorem within_runBinding (e : MouseClick) (binding : MouseBinding) :
    Within (fun d ↦ d.Untouching ∧ d.Of .pointer) t (t.runBinding e binding) := by
  cases binding with
  | click | auto | disabled => exact .refl t
  | back | home | appSwitch =>
    simp only [runBinding]
    split
    · exact t.within_push ⟨trivial, trivial⟩
    · exact .refl t
  | expandNotificationPanel =>
    simp only [runBinding]
    split
    · split <;> exact t.within_push ⟨trivial, trivial⟩
    · exact .refl t

theorem within_countPress {allowed : Deed → Prop} (h : allowed (.change .repeats)) (e : KeyEvent) :
    Within allowed t (t.countPress e) := by
  unfold countPress
  split
  · exact .one (.repeats t _) h
  · exact .refl t

omit [CommandSink κ] in
theorem countPress_eq (s : Session κ) (e : KeyEvent) :
    ∃ repeats, Turn.countPress ⟨s, []⟩ e = ⟨{ s with repeats }, []⟩ := by
  unfold countPress
  split
  · exact ⟨_, rfl⟩
  · exact ⟨s.repeats, rfl⟩

section Clipboard

variable {allowed : Deed → Prop} (hread : allowed (.effect .readClipboard))
include hread

theorem within_readClipboard : Within allowed t t.readClipboard.2 := by
  unfold readClipboard
  split
  · exact t.within_emit rfl hread
  · exact .refl t

theorem within_injectClipboard (htype : ∀ text, allowed (.offer (.injectText text))) :
    Within allowed t t.injectClipboard := by
  have hread := t.within_readClipboard hread
  unfold injectClipboard
  split <;> rename_i h <;> rw [h] at hread
  · exact hread.trans (within_push _ (htype _))
  · exact hread

theorem within_setClipboard (paste : Bool) {sequence : AckSequence}
    (hset : ∀ text, allowed (.offer (.setClipboard sequence text paste))) :
    Within allowed t (t.setClipboard paste sequence).2 := by
  have hread := t.within_readClipboard hread
  unfold setClipboard
  split <;> rename_i h <;> rw [h] at hread
  · exact hread.trans (within_push _ (hset _))
  · exact hread

theorem within_paste (htype : ∀ text, allowed (.offer (.injectText text)))
    (hset : ∀ text, allowed (.offer (.setClipboard .none text true))) (asText : Bool) :
    Within allowed t (t.paste asText) := by
  unfold paste
  split
  · exact t.within_injectClipboard hread htype
  · exact t.within_setClipboard hread true hset

theorem within_beforeCtrlV (htype : ∀ text, allowed (.offer (.injectText text)))
    (hset : ∀ sequence text, allowed (.offer (.setClipboard sequence text false)))
    (hsync : allowed (.change .sync)) (asyncPaste : Bool) :
    Within allowed t (t.beforeCtrlV asyncPaste).2 := by
  simp only [beforeCtrlV]
  split
  · exact .refl t
  split
  · exact t.within_injectClipboard hread htype
  · generalize (if asyncPaste then t.session.sync.next else .none) = sequence
    have hset := t.within_setClipboard hread false (hset sequence)
    cases h : t.setClipboard false sequence with
    | mk requested t' =>
      rw [h] at hset
      cases requested with
      | false => exact hset
      | true =>
        dsimp only
        split
        · exact hset
        · exact hset.trans (.one (.sync t' _) hsync)

end Clipboard

theorem within_act (state : ButtonState) {action : ShortcutAction}
    (hkey : ∀ key, action ≠ .deviceKey key) (hload : action ≠ .loadTouchmap)
    (hunload : action ≠ .unloadTouchmap) :
    Within (fun d ↦ d.Incidental ∧ d.Keyless ∧ d.Of .keyboard) t (t.act state action) := by
  cases action with
  | deviceKey key => exact absurd rfl (hkey key)
  | screenPower mode | copyFromDevice key | collapsePanels | rotateDevice
  | openHardKeyboardSettings =>
    exact t.within_push ⟨⟨trivial, trivial, trivial, trivial⟩, trivial, trivial⟩
  | pause paused | orient o | toggleFullscreen | resizeToFit | resizeToPixelPerfect
  | toggleFpsCounter =>
    exact .one (.screen t rfl) ⟨⟨trivial, trivial, trivial, trivial⟩, trivial, trivial⟩
  | expandPanels =>
    simp only [act]
    split <;> exact t.within_push ⟨⟨trivial, trivial, trivial, trivial⟩, trivial, trivial⟩
  | paste asText =>
    simp only [act]
    split
    · exact t.within_paste ⟨⟨trivial, trivial, trivial, trivial⟩, trivial, trivial⟩
        (fun _ ↦ ⟨⟨trivial, trivial, trivial, trivial⟩, trivial, trivial⟩)
        (fun _ ↦ ⟨⟨trivial, rfl, trivial, trivial⟩, trivial, trivial⟩) asText
    · exact .refl t
  | loadTouchmap => exact absurd rfl hload
  | unloadTouchmap => exact absurd rfl hunload

theorem shortcut_cases (e : KeyEvent) :
    Within (fun d ↦ d.Incidental ∧ d.Keyless ∧ d.Of .keyboard) t (t.shortcut e) ∨
      (∃ key guard, Shortcut.find? e.key e.mods.hasShift = some ⟨.deviceKey key, guard⟩ ∧
        t.shortcut e = t.push (.press key e.state)) ∨
      t.shortcut e = t.pickTouchmap ∨ t.shortcut e = t.unloadTouchmap := by
  unfold shortcut
  split
  · exact Or.inl (.refl t)
  · rename_i s hs
    split
    · by_cases hkey : ∃ key, s.action = .deviceKey key
      · obtain ⟨key, hkey⟩ := hkey
        exact Or.inr (Or.inl ⟨key, s.guard, by rw [hs, ← hkey], by rw [hkey, act]⟩)
      by_cases hload : s.action = .loadTouchmap
      · exact Or.inr (Or.inr (Or.inl (by rw [hload, act])))
      by_cases hunload : s.action = .unloadTouchmap
      · exact Or.inr (Or.inr (Or.inr (by rw [hunload, act])))
      · exact Or.inl (t.within_act e.state (not_exists.mp hkey) hload hunload)
    · exact Or.inl (.refl t)

theorem within_forwardKey (keys : KeyProcessor) (e : KeyEvent) :
    Within (fun d ↦ d.Untouching ∧ d.Unrouted ∧ d.Of .keyboard) t (t.forwardKey keys e) := by
  unfold forwardKey
  split
  · split
    · have hbefore : Within (fun d ↦ d.Untouching ∧ d.Unrouted ∧ d.Of .keyboard) t
          (t.beforeCtrlV keys.asyncPaste).2 :=
        t.within_beforeCtrlV ⟨trivial, trivial, trivial⟩ (fun _ ↦ ⟨trivial, trivial, trivial⟩)
          (fun _ _ ↦ ⟨trivial, trivial, trivial⟩) ⟨trivial, trivial, trivial⟩ _
      split <;> rename_i h <;> rw [h] at hbefore
      · exact hbefore.trans (within_emit _ rfl ⟨trivial, trivial, trivial⟩)
      · exact hbefore
    · exact .refl t
  · exact t.within_emit rfl ⟨trivial, trivial, trivial⟩

theorem within_touch {allowed : Deed → Prop} {finger : PointerId} {action : MotionAction}
    (h : ∀ position pressure,
      allowed (.offer (.injectTouch action finger position pressure .none .none)))
    (point : Point) : Within allowed t (t.touch finger action point).2 :=
  within_push t (h _ _)

theorem within_sendTouches_of {allowed : Deed → Prop} (hengine : allowed (.change .engine))
    {touches : List SyntheticTouch}
    (h : ∀ u ∈ touches, ∀ position pressure,
      allowed (.offer (.injectTouch u.action u.finger position pressure .none .none)))
    (lost : List PointerId) : Within allowed t (t.sendTouches lost touches) := by
  induction touches generalizing t lost with
  | nil => exact .refl t
  | cons touch touches ih =>
    have htouch := t.within_touch (h touch List.mem_cons_self) touch.point
    have ih := fun t ↦ ih t fun u hu ↦ h u (List.mem_cons_of_mem touch hu)
    unfold sendTouches
    split
    · exact ih t lost
    · split <;> rename_i t' ht <;> rw [ht] at htouch
      · exact htouch.trans (.trans (.one (.engine t' _) hengine) (ih _ lost))
      · exact htouch.trans (ih t' _)

theorem within_sendTouches (lost : List PointerId) (touches : List SyntheticTouch) :
    Within Touching t (t.sendTouches lost touches) :=
  t.within_sendTouches_of trivial (fun _ _ _ _ ↦ trivial) lost

theorem within_releaseContacts : Within Touching t t.releaseContacts := by
  unfold releaseContacts
  split
  · exact .refl t
  · exact .trans (.one (.engine t _) trivial) (within_sendTouches _ _ _)

theorem within_loadTouchmap (path : String) :
    Within Replacing t (t.loadTouchmap path).2 := by
  unfold loadTouchmap
  split
  · exact .refl t
  · rename_i map hmap
    exact (t.within_releaseContacts.mono Touching.replacing).trans
      (.trans (.one (.engine _ (some (.ofTouchmap map))) trivial)
        (.one (.forwards _ false) trivial))

theorem within_unloadTouchmap : Within Replacing t t.unloadTouchmap :=
  (t.within_releaseContacts.mono Touching.replacing).trans
    (.trans (.one (.engine _ none) trivial) (.one (.forwards _ true) trivial))

theorem within_pickTouchmap : Within Replacing t t.pickTouchmap := by
  unfold pickTouchmap
  split
  · exact .refl t
  · rename_i answers hanswers
    have hask : Within Replacing t
        ({ t with session.picker := some answers.tail }.emit (.pickFile answers.head?.join)) :=
      .trans (.one (.picker t _) trivial) (within_emit _ rfl trivial)
    refine hask.trans ?_
    dsimp only
    split
    · exact .refl _
    · exact within_loadTouchmap _ _

theorem within_axis {allowed : Deed → Prop} (e : AxisMotion)
    (hoffer : allowed (.offer (.injectControllerAxis e))) (htouch : ∀ d, d.Touching → allowed d) :
    Within allowed t (t.axis e) := by
  unfold axis
  split
  · exact t.within_push hoffer
  · split
    · exact .refl t
    · exact .trans (.one (.engine t _) (htouch _ trivial)) ((within_sendTouches _ _ _).mono htouch)

theorem within_padButton {allowed : Deed → Prop} (e : PadButton)
    (hoffer : allowed (.offer (.injectControllerButton e))) (htouch : ∀ d, d.Touching → allowed d) :
    Within allowed t (t.padButton e) := by
  unfold padButton
  split
  · exact t.within_push hoffer
  · split
    · exact .refl t
    · exact (t.within_sendTouches _ _).mono htouch

theorem within_pointerCall (call : PointerCall) :
    Within (fun d ↦ d.Untouching ∧ d.Of .pointer) t (t.emit (.pointer call)) :=
  t.within_emit rfl ⟨trivial, trivial⟩

theorem within_moveFinger (p : Point) : Within Fingering t (t.moveFinger p) := by
  unfold moveFinger
  split
  · exact .refl t
  · exact t.within_touch (fun _ _ ↦ trivial) _

theorem within_motion (e : MouseMotion) : Within (Of .pointer) t (t.motion e) := by
  simp only [motion]
  split
  · exact .refl t
  · exact ((t.within_pointerCall _).mono fun _ hd ↦ hd.2).trans
      ((within_moveFinger _ e.point).mono Fingering.of_pointer)

theorem within_updateFinger (e : MouseClick) : Within Fingering t (t.updateFinger e) := by
  unfold updateFinger
  split
  · exact .refl t
  · rename_i transition htransition
    have htouch : Within Fingering t (t.touch t.session.fingerId transition.action
        ((t.session.screen.windowToFrame e.point).mirror t.session.screen.frame
          transition.inversion)).2 :=
      t.within_touch (fun _ _ ↦ trivial) _
    dsimp only
    split <;> rename_i t' h <;> rw [h] at htouch
    · exact htouch.trans (.one (.finger t' _) trivial)
    · exact htouch

def reachesFinger (s : Session κ) (e : MouseClick) : Bool :=
  !e.fromTouch && !s.isPaused && s.pointer.isSome && !s.isRelative && e.button == .left &&
    !isBorderClick s e

theorem click_cases (e : MouseClick) :
    (reachesFinger t.session e = false ∧
        Within (fun d ↦ d.Untouching ∧ d.Of .pointer) t (t.click e)) ∨
      (reachesFinger t.session e = true ∧ t.click e =
        (t.emit (.pointer (.click (t.session.position e.point) e.state e.button t.session.pointerId
          (t.session.bindings.forwarded e.held)))).updateFinger e) := by
  simp only [click]
  split
  · rename_i htouch
    exact Or.inl ⟨by simp [reachesFinger, htouch], .refl t⟩
  rename_i htouch
  split
  · rename_i hbound
    refine Or.inl ⟨?_, t.within_runBinding e _⟩
    cases hbutton : e.button <;> simp_all [reachesFinger, MouseBindings.get]
  split
  · rename_i hborder
    refine Or.inl ⟨by simp [reachesFinger, hborder], ?_⟩
    split
    · exact .one (.screen t rfl) ⟨trivial, trivial⟩
    · exact .refl t
  rename_i hborder
  split
  · rename_i hidle
    refine Or.inl ⟨?_, .refl t⟩
    rcases Bool.or_eq_true_iff.mp hidle with h | h
    · simp [reachesFinger, Option.isNone_iff_eq_none.mp h]
    · simp [reachesFinger, h]
  · rename_i hidle
    rw [Bool.or_eq_true, not_or, Bool.not_eq_true, Option.isNone_eq_false_iff] at hidle
    simp only [forwardClick]
    split
    · rename_i hleft
      refine Or.inr ⟨?_, rfl⟩
      simp_all [reachesFinger]
    · rename_i hleft
      refine Or.inl ⟨?_, t.within_pointerCall _⟩
      cases hrelative : t.session.isRelative <;> simp_all [reachesFinger]

theorem within_click (e : MouseClick) : Within (Of .pointer) t (t.click e) := by
  rcases t.click_cases e with ⟨-, h⟩ | ⟨-, h⟩
  · exact h.mono fun _ hd ↦ hd.2
  · rw [h]
    exact ((t.within_pointerCall _).mono fun _ hd ↦ hd.2).trans
      ((within_updateFinger _ e).mono Fingering.of_pointer)

theorem key_eq_cases (e : KeyEvent) :
    (t.session.shortcutMods.isShortcut e.key e.mods = true ∧
        t.key e = (t.countPress e).shortcut e) ∨
      (t.session.shortcutMods.isShortcut e.key e.mods = false ∧
        (t.key e = t.countPress e ∨ ∃ keys, t.key e = (t.countPress e).forwardKey keys e)) := by
  have hcount : Within Incidental t (t.countPress e) :=
    t.within_countPress ⟨trivial, trivial, trivial, trivial⟩ e
  simp only [key, hcount.settings_eq.2.2]
  split
  · rename_i hshortcut
    exact Or.inl ⟨hshortcut, rfl⟩
  · rename_i hplain
    refine Or.inr ⟨Bool.not_eq_true _ ▸ hplain, ?_⟩
    split
    · exact Or.inl rfl
    · split
      · exact Or.inl rfl
      · exact Or.inr ⟨_, rfl⟩

/-- Of all that a key can do, only the two shortcuts that replace the touchmap concern fingers. -/
theorem key_cases (e : KeyEvent) :
    Within Untouching t (t.key e) ∨ t.key e = (t.countPress e).pickTouchmap ∨
      t.key e = (t.countPress e).unloadTouchmap := by
  have hcount : Within Untouching t (t.countPress e) := t.within_countPress trivial e
  rcases t.key_eq_cases e with ⟨-, h⟩ | ⟨-, h | ⟨keys, h⟩⟩ <;> rw [h]
  · rcases shortcut_cases (t.countPress e) e with h | ⟨_, _, -, h⟩ | h | h
    · exact Or.inl (hcount.trans (h.mono fun _ hd ↦ hd.1.untouching))
    · exact Or.inl (hcount.trans (h ▸ within_push _ trivial))
    · exact Or.inr (Or.inl h)
    · exact Or.inr (Or.inr h)
  · exact Or.inl hcount
  · exact Or.inl (hcount.trans ((within_forwardKey _ keys e).mono fun _ hd ↦ hd.1))

/-- Only a key that is handed on as a Ctrl+V concerns the numbers of acknowledgments. -/
theorem key_unacknowledged_cases (e : KeyEvent) :
    Within Unacknowledged t (t.key e) ∨
      ∃ keys, isCtrlV e = true ∧ t.key e = (t.countPress e).forwardKey keys e := by
  have hcount : Within Unacknowledged t (t.countPress e) := t.within_countPress trivial e
  rcases t.key_eq_cases e with ⟨-, h⟩ | ⟨-, h | ⟨keys, h⟩⟩ <;> rw [h]
  · refine Or.inl (hcount.trans ?_)
    rcases shortcut_cases (t.countPress e) e with h | ⟨_, _, -, h⟩ | h | h
    · exact h.mono fun _ hd ↦ hd.1.unacknowledged
    · exact h ▸ within_push _ trivial
    · exact h ▸ (within_pickTouchmap _).mono Replacing.unacknowledged
    · exact h ▸ (within_unloadTouchmap _).mono Replacing.unacknowledged
  · exact Or.inl hcount
  · by_cases hpaste : isCtrlV e = true
    · exact Or.inr ⟨keys, hpaste, rfl⟩
    · rw [forwardKey, if_neg hpaste]
      exact Or.inl (hcount.trans (within_emit _ rfl rfl))

theorem within_key (e : KeyEvent) : Within (Of .keyboard) t (t.key e) := by
  have hcount : Within (Of .keyboard) t (t.countPress e) := t.within_countPress trivial e
  rcases t.key_eq_cases e with ⟨-, h⟩ | ⟨-, h | ⟨keys, h⟩⟩ <;> rw [h]
  · refine hcount.trans ?_
    rcases shortcut_cases (t.countPress e) e with h | ⟨_, _, -, h⟩ | h | h
    · exact h.mono fun _ hd ↦ hd.2.2
    · exact h ▸ within_push _ trivial
    · exact h ▸ (within_pickTouchmap _).mono Replacing.of_keyboard
    · exact h ▸ (within_unloadTouchmap _).mono Replacing.of_keyboard
  · exact hcount
  · exact hcount.trans ((within_forwardKey _ keys e).mono fun _ hd ↦ hd.2.2)

/-- What an event does is up to its family. -/
theorem within_handle (e : Event) : Within (Of e.family) t (t.handle e) := by
  cases e with
  | key e => exact t.within_key e
  | text e => exact t.within_text trivial
  | motion e => exact t.within_motion e
  | click e => exact t.within_click e
  | wheel e => exact t.within_wheel (fun _ ↦ trivial) e
  | touch e => exact t.within_fingerTouch (fun _ ↦ trivial) e
  | fileDrop path =>
    simp only [handle]
    split
    · exact t.within_fileDrop fun _ _ ↦ trivial
    · exact .refl t
  | axis e =>
    simp only [handle]
    split
    · exact t.within_axis e trivial Touching.of_gamepad
    · exact .refl t
  | padButton e =>
    simp only [handle]
    split
    · exact t.within_padButton e trivial Touching.of_gamepad
    · exact .refl t
  | hotPlug e =>
    simp only [handle]
    split
    · exact t.within_hotPlug e
    · exact .refl t

end Turn

end InputRelay
