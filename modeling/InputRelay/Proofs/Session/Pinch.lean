import InputRelay.Proofs.Session.Mapped

namespace InputRelay

open MotionAction Effect

theorem Inversion.ofModifiers?_eq (mods : Modifiers) :
    ofModifiers? mods =
      if mods.hasCtrl ≠ mods.hasShift then some ⟨true, mods.hasCtrl⟩ else none := by
  unfold ofModifiers?
  rw [ite_not]

def MouseClick.inversion (press : MouseClick) : Inversion :=
  ⟨true, press.mods.hasCtrl⟩

/-- What a click asks of the virtual finger, when a press holds it or none does. -/
def MouseClick.asks (e : MouseClick) (press : Option MouseClick) :
    Option VirtualFinger.Transition :=
  match press, e.state with
  | none, .pressed => if e.mods.hasCtrl ≠ e.mods.hasShift then some ⟨.down, e.inversion⟩ else none
  | some press, .released => some ⟨.up, press.inversion⟩
  | _, _ => none

theorem VirtualFinger.onLeftButton_eq {f : VirtualFinger} {press : Option MouseClick}
    (h : f.active = press.map (·.inversion)) (e : MouseClick) :
    f.onLeftButton e.state.isPressed e.mods = e.asks press := by
  obtain ⟨active⟩ := f
  obtain rfl : active = press.map (·.inversion) := h
  unfold MouseClick.asks
  cases press <;> cases e.state
  · change (Inversion.ofModifiers? e.mods).map _ = _
    rw [Inversion.ofModifiers?_eq]
    dsimp only
    split <;> rfl
  all_goals rfl

def Screen.mirrored (s : Screen) (p : Point) (axes : Inversion) : Point :=
  (s.windowToFrame p).mirror s.frame axes

namespace Effect

/-- A touch that was offered to the device, whether it was taken or not. -/
def offeredTouch? : Effect → Option SyntheticTouch
  | .push (.injectTouch action finger position ..) _ => some ⟨finger, action, position.point⟩
  | _ => none

def offeredTouches (effects : List Effect) : List SyntheticTouch :=
  effects.filterMap offeredTouch?

theorem offeredTouch?_eq_none {e : Effect} (h : e.Due Deed.Untouching) :
    e.offeredTouch? = none := by
  rcases e with ⟨c, verdict⟩ | _
  · cases c <;> first | rfl | exact h.elim
  all_goals rfl

end Effect

variable {κ : Type}

/-- The press that holds a finger down after a call, if there is one: a click whose down was taken,
until a click has its up taken. -/
def Record.gesture (id : PointerId) (press : Option MouseClick) (r : Record κ) :
    Option MouseClick :=
  match r.call, (touchesOf id r.effects).getLast? with
  | .event (.click e), some .down => some e
  | .event (.click _), some .up => none
  | _, _ => press

def gesture (id : PointerId) (log : List (Record κ)) : Option MouseClick :=
  log.foldl (Record.gesture id) none

theorem gesture_concat (id : PointerId) (log : List (Record κ)) (r : Record κ) :
    gesture id (log ++ [r]) = r.gesture id (gesture id log) :=
  List.foldl_concat _ _ _ _

theorem Record.gesture_of_not_click {r : Record κ} (h : ∀ e, r.call ≠ .event (.click e))
    (id : PointerId) (press : Option MouseClick) : r.gesture id press = press := by
  unfold gesture
  split
  · exact absurd ‹_› (h _)
  · exact absurd ‹_› (h _)
  · rfl

namespace Turn

variable [CommandSink κ] {t t' : Turn κ}

theorem Within.offeredTouches_eq (h : Within Deed.Untouching t t') :
    offeredTouches t'.effects = offeredTouches t.effects :=
  h.filterMap_eq fun _ ↦ offeredTouch?_eq_none

theorem Within.finger_of_mem_offeredTouches {fingers : List PointerId} {s : Session κ}
    (h : Within (Deed.Mapped fingers) ⟨s, []⟩ t') :
    ∀ touch ∈ offeredTouches t'.effects, touch.finger ∈ fingers := by
  intro touch htouch
  obtain ⟨e, he, htouch⟩ := List.mem_filterMap.mp htouch
  have hdue := h.due_of_mem he
  unfold offeredTouch? at htouch
  split at htouch
  · obtain rfl := Option.some.inj htouch
    exact hdue
  · cases htouch

def touchCommand (t : Turn κ) (finger : PointerId) (action : MotionAction) (point : Point) :
    Command :=
  .injectTouch action finger ⟨t.session.screen.frame, point⟩
    (if action = .up then .zero else .one) .none .none

theorem exists_touch (h : t.session.channel.isSome = true) (finger : PointerId)
    (action : MotionAction) (point : Point) : ∃ (channel : κ) (verdict : Except PushError Unit),
      t.touch finger action point = (verdict.toBool,
        { t with session.channel := some channel }.emit
          (.push (t.touchCommand finger action point) verdict)) := by
  rcases t.attempt_cases (t.touchCommand finger action point) with
    ⟨hnone, -⟩ | ⟨channel, verdict, -, htouch⟩
  · rw [hnone] at h
    cases h
  · exact ⟨channel, verdict, htouch⟩

theorem finger_moveFinger (t : Turn κ) (p : Point) :
    (t.moveFinger p).session.finger = t.session.finger := by
  unfold moveFinger
  split
  · rfl
  · dsimp only
    obtain ⟨channel, -, hsession⟩ := t.push_session (t.touchCommand t.session.fingerId .move _)
    exact congrArg (·.finger) hsession

theorem offeredTouches_moveFinger (h : t.session.channel.isSome = true) (p : Point) :
    offeredTouches (t.moveFinger p).effects = offeredTouches t.effects ++
      t.session.finger.active.toList.map fun axes ↦
        ⟨t.session.fingerId, .move, t.session.screen.mirrored p axes⟩ := by
  unfold moveFinger
  cases t.session.finger.active with
  | none => simp
  | some axes =>
    obtain ⟨channel, verdict, htouch⟩ :=
      exists_touch h t.session.fingerId .move (t.session.screen.mirrored p axes)
    rw [Screen.mirrored] at htouch
    simp only [htouch]
    simp [emit, offeredTouches, offeredTouch?, Screen.mirrored, touchCommand]

theorem finger_motion (t : Turn κ) (e : MouseMotion) :
    (t.motion e).session.finger = t.session.finger := by
  simp only [motion]
  split
  · rfl
  · exact finger_moveFinger _ e.point

theorem finger_call (t : Turn κ) {call : Call} (h : ∀ e, call ≠ .event (.click e)) :
    (t.call call).session.finger = t.session.finger := by
  cases hmouse : call.isMouse with
  | true =>
    unfold Call.isMouse at hmouse
    split at hmouse
    · exact t.finger_motion _
    · exact absurd rfl (h _)
    · cases hmouse
  | false => exact (t.within_mapped_call hmouse).same (p := .finger) id

theorem updateFinger_cases (h : t.session.channel.isSome = true) (e : MouseClick) :
    (t.session.finger.onLeftButton e.state.isPressed e.mods = none ∧ t.updateFinger e = t) ∨
      ∃ (transition : VirtualFinger.Transition) (verdict : Except PushError Unit),
        t.session.finger.onLeftButton e.state.isPressed e.mods = some transition ∧
        (t.updateFinger e).effects = t.effects ++ [.push (t.touchCommand t.session.fingerId
          transition.action (t.session.screen.mirrored e.point transition.inversion)) verdict] ∧
        (t.updateFinger e).session.finger =
          if verdict.toBool then VirtualFinger.commit transition else t.session.finger := by
  unfold updateFinger
  cases htransition : t.session.finger.onLeftButton e.state.isPressed e.mods with
  | none => exact Or.inl ⟨rfl, rfl⟩
  | some transition =>
    obtain ⟨channel, verdict, htouch⟩ := exists_touch h t.session.fingerId transition.action
      (t.session.screen.mirrored e.point transition.inversion)
    refine Or.inr ⟨transition, verdict, rfl, ?_⟩
    rw [Screen.mirrored] at htouch
    simp only [htouch]
    cases verdict <;> exact ⟨rfl, rfl⟩

end Turn

namespace Session

def asked (s : Session κ) (press : Option MouseClick) (e : MouseClick) :
    Option VirtualFinger.Transition :=
  if Turn.reachesFinger s e then e.asks press else none

/-- What the virtual finger sends in a call, when a press holds it or none does. -/
def pinch (s : Session κ) (id : PointerId) (press : Option MouseClick) :
    Call → List SyntheticTouch
  | .event (.motion e) =>
    if e.fromTouch || s.isPaused then []
    else press.toList.map fun press ↦ ⟨id, .move, s.screen.mirrored e.point press.inversion⟩
  | .event (.click e) =>
    (s.asked press e).toList.map fun transition ↦
      ⟨id, transition.action, s.screen.mirrored e.point transition.inversion⟩
  | _ => []

/-- A press holds the virtual finger, or no press does and it is up. -/
structure Grip (press : Option MouseClick) (finger : VirtualFinger)
    (pointer : Option PointerProcessor) : Prop where
  active : finger.active = press.map (·.inversion)
  pointer : press.isSome → pointer.isSome

structure HeldBy (press : Option MouseClick) (s : Session κ) : Prop
    extends Grip press s.finger s.pointer where
  channel : s.pointer.isSome → s.channel.isSome

variable {s : Session κ} {press : Option MouseClick}

theorem pointer_of_asked {e : MouseClick} {transition : VirtualFinger.Transition}
    (h : s.asked press e = some transition) :
    s.pointer.isSome = true ∧ e.asks press = some transition := by
  unfold asked at h
  split at h
  · rename_i hreaches
    simp only [Turn.reachesFinger, Bool.and_eq_true] at hreaches
    exact ⟨by tauto, h⟩
  · cases h

variable [CommandSink κ] {config : Config} {c : Collaborators κ} {log : List (Record κ)}

theorem HeldBy.offeredTouches_motion (h : s.HeldBy press) (e : MouseMotion) :
    offeredTouches (s.handle (.motion e)).effects =
      s.pinch s.fingerId press (.event (.motion e)) := by
  rw [show s.handle (.motion e) = Turn.motion ⟨s, []⟩ e from rfl, pinch]
  simp only [Turn.motion]
  by_cases hidle : (e.fromTouch || s.isPaused) = true
  · rw [if_pos (by simp [hidle]), if_pos hidle]
    rfl
  rw [if_neg hidle]
  cases hpointer : s.pointer with
  | none =>
    have hpress : press = none := by
      by_contra hsome
      have := h.pointer (Option.isSome_iff_ne_none.mpr hsome)
      rw [hpointer] at this
      cases this
    rw [if_pos (by simp), hpress]
    rfl
  | some p =>
    rw [if_neg (by simpa [hpointer] using hidle)]
    rw [Turn.offeredTouches_moveFinger (h.channel (by simp [hpointer]))]
    have hactive : ∀ call, (Turn.emit ⟨s, []⟩ call).session.finger.active =
      press.map (·.inversion) := fun _ ↦ h.active
    rw [hactive]
    cases press <;> rfl

theorem HeldBy.click_cases (h : s.HeldBy press) (e : MouseClick) :
    (s.asked press e = none ∧ offeredTouches (s.handle (.click e)).effects = [] ∧
        (∀ id, touchesOf id (s.handle (.click e)).effects = []) ∧
        (s.handle (.click e)).session.finger = s.finger) ∨
      ∃ (transition : VirtualFinger.Transition) (verdict : Except PushError Unit),
        s.asked press e = some transition ∧
        offeredTouches (s.handle (.click e)).effects =
          [⟨s.fingerId, transition.action, s.screen.mirrored e.point transition.inversion⟩] ∧
        touchesOf s.fingerId (s.handle (.click e)).effects =
          (if verdict.toBool then [transition.action] else []) ∧
        (s.handle (.click e)).session.finger =
          if verdict.toBool then VirtualFinger.commit transition else s.finger := by
  rw [show s.handle (.click e) = Turn.click ⟨s, []⟩ e from rfl]
  rcases Turn.click_cases ⟨s, []⟩ e with ⟨hreaches, hclick⟩ | ⟨hreaches, hclick⟩
  · have hwithin := hclick.mono fun _ hd ↦ hd.1
    refine Or.inl ⟨by simp [asked, hreaches], hwithin.offeredTouches_eq, ?_, ?_⟩
    · exact hwithin.touchesOf_eq
    · exact hwithin.same (p := .finger) id
  · have hchannel : s.channel.isSome = true := by
      apply h.channel
      simp only [Turn.reachesFinger, Bool.and_eq_true] at hreaches
      tauto
    rw [hclick, asked, if_pos hreaches, ← VirtualFinger.onLeftButton_eq h.active]
    dsimp only
    generalize PointerCall.click _ _ _ _ _ = call
    rcases Turn.updateFinger_cases (t := Turn.emit ⟨s, []⟩ (.pointer call)) hchannel e with
      ⟨hnone, hsame⟩ | ⟨transition, verdict, hsome, heffects, hfinger⟩
    · rw [hsame]
      exact Or.inl ⟨hnone, rfl, fun _ ↦ rfl, rfl⟩
    · rw [heffects]
      refine Or.inr ⟨transition, verdict, hsome, rfl, ?_, hfinger⟩
      cases verdict with
      | error => rfl
      | ok => exact (touchesOf_taken _ _ _ _ _ _ _ _).trans (congrArg ([] ++ ·) (if_pos rfl))

theorem HeldBy.offeredTouches_click (h : s.HeldBy press) (e : MouseClick) :
    offeredTouches (s.handle (.click e)).effects =
      s.pinch s.fingerId press (.event (.click e)) := by
  dsimp only [pinch]
  rcases h.click_cases e with ⟨hnone, htouches, -⟩ | ⟨transition, _, hsome, htouches, -⟩
  · rw [hnone, htouches]
    rfl
  · rw [hsome, htouches]
    rfl

theorem HeldBy.click (h : s.HeldBy press) {r : Record κ} {e : MouseClick}
    (he : r.call = .event (.click e)) (heffects : r.effects = (s.handle (.click e)).effects) :
    Grip (r.gesture s.fingerId press) (s.handle (.click e)).session.finger s.pointer := by
  unfold Record.gesture
  rw [he, heffects]
  rcases h.click_cases e with ⟨-, -, htouches, hfinger⟩ |
    ⟨transition, verdict, hasked, -, htouches, hfinger⟩
  · rw [htouches, hfinger]
    exact h.toGrip
  rw [htouches, hfinger]
  cases verdict with
  | error => exact h.toGrip
  | ok =>
    obtain ⟨hpointer, hasks⟩ := pointer_of_asked hasked
    refine ⟨?_, fun _ ↦ hpointer⟩
    unfold MouseClick.asks at hasks
    split at hasks
    · split at hasks <;> cases hasks
      rfl
    · cases hasks
      rfl
    · cases hasks

/-- Only an accepted touch of a click changes the press that holds the finger. -/
theorem HeldBy.call (h : s.HeldBy press) (r : Record κ)
    (heffects : r.effects = (s.call r.call).effects) :
    Grip (r.gesture s.fingerId press) (s.call r.call).session.finger s.pointer := by
  by_cases hclick : ∃ e, r.call = .event (.click e)
  · obtain ⟨e, he⟩ := hclick
    rw [he] at heffects ⊢
    exact h.click he heffects
  · have hclick : ∀ e, r.call ≠ .event (.click e) := fun e he ↦ hclick ⟨e, he⟩
    have hfinger : (s.call r.call).session.finger = s.finger := Turn.finger_call ⟨s, []⟩ hclick
    rw [Record.gesture_of_not_click hclick, hfinger]
    exact h.toGrip

theorem Run.fingerId_eq (h : Run config c log s) :
    s.fingerId = VirtualFinger.pointer config.bindings.hasSecondaryClick := by
  rw [fingerId, h.settings_eq.1]

theorem Run.heldBy_amid (h : Run config c log s) {around : Collaborators κ}
    (hpointer : around.pointer = c.pointer) (hchannel : around.channel.isSome = s.channel.isSome)
    (hgrip : Grip press s.finger c.pointer) : HeldBy press (s.amid around) where
  active := hgrip.active
  pointer hsome := (congrArg Option.isSome hpointer).trans (hgrip.pointer hsome)
  channel hsome := hchannel.trans (h.channel_of_processor (.inr (hpointer ▸ hsome)))

/-- While the pointer processor stays as it is, the finger is down exactly for the press that holds
it, and keeps the axes of that press. -/
theorem Run.grip (h : Run config c log s) (hfixed : ∀ r ∈ log, r.around.pointer = c.pointer) :
    Grip (gesture (VirtualFinger.pointer config.bindings.hasSecondaryClick) log) s.finger
      c.pointer := by
  induction h with
  | start h =>
    rw [finger_of_start h]
    exact ⟨rfl, nofun⟩
  | @call log s around call hrun hchannel ih =>
    obtain ⟨hfixed, hpointer⟩ := List.forall_mem_append.mp hfixed
    have hpointer : around.pointer = c.pointer := hpointer _ (List.mem_singleton_self _)
    have hheld := hrun.heldBy_amid hpointer hchannel (ih hfixed)
    rw [← hrun.fingerId_eq] at hheld ⊢
    rw [gesture_concat, ← hpointer]
    exact hheld.call ⟨around, call, _⟩ rfl

/-- The virtual finger mirrors the pointer from a press until its release, on the axes that the
press settled. No other call makes it touch the device. -/
theorem finger_mirrors_pointer (hrun : Run config c log s)
    (hfixed : ∀ r ∈ log, r.around.pointer = c.pointer) {around : Collaborators κ}
    (hpointer : around.pointer = c.pointer) (hchannel : around.channel.isSome = s.channel.isSome)
    (call : Call) :
    let id := VirtualFinger.pointer config.bindings.hasSecondaryClick
    let press := gesture id log
    let touches := offeredTouches ((s.amid around).call call).effects
    s.finger.active = press.map (·.inversion) ∧
      (call.isMouse = true → touches = (s.amid around).pinch id press call) ∧
      (call.isMouse = false → ∀ touch ∈ touches, touch.finger ∈ s.mapped ∧
        (c.disk.Bounded → (∀ r ∈ log, r.around.disk.Bounded) → touch.finger ≠ id)) := by
  have hid : (s.amid around).fingerId = _ := hrun.fingerId_eq
  have hgrip := hrun.grip hfixed
  have hheld := hrun.heldBy_amid hpointer hchannel hgrip
  refine ⟨hgrip.active, fun hmouse ↦ ?_, fun hmouse touch htouch ↦ ?_⟩
  · rw [← hid] at hheld ⊢
    unfold Call.isMouse at hmouse
    split at hmouse
    · exact hheld.offeredTouches_motion _
    · exact hheld.offeredTouches_click _
    · cases hmouse
  · have hmapped : touch.finger ∈ s.mapped :=
      (Turn.within_mapped_call ⟨s.amid around, []⟩ hmouse).finger_of_mem_offeredTouches touch htouch
    refine ⟨hmapped, fun hdisk hdisks heq ↦ ?_⟩
    rw [heq, ← hrun.fingerId_eq] at hmapped
    exact hrun.fingerId_not_mapped hdisk hdisks hmapped

def Collaborators.pointing (failing : Bool) : Collaborators Channel :=
  { Collaborators.recording .oneButton failing with pointer := some {} }

def ctrlPress : MouseClick where
  button := .left
  state := .pressed
  point := ⟨10, 20⟩
  clicks := 2
  held := .left
  mods := .lctrl

theorem finger_mirrors_refused_lift : ∃ (log : List (Record Channel)) (s : Session Channel),
    Run {} (.pointing false) log s ∧ offeredTouches ((s.amid (.pointing false)).call
      (.event (.motion ⟨⟨30, 20⟩, 0, 0, .none, false⟩))).effects =
        [⟨.virtualFinger, .move, ⟨70, 80⟩⟩] := by
  have hstart : Run {} (.pointing false) [] _ := .start rfl
  have hpress := hstart.call (.pointing false) (.event (.click ctrlPress)) rfl
  have hrefused := hpress.call (.pointing true)
    (.event (.click ⟨.left, .released, ⟨10, 20⟩, 1, .none, .none, false⟩)) (by decide)
  refine ⟨_, _, hrefused, ?_⟩
  have hmotion := (finger_mirrors_pointer hrefused ?_ rfl ?_
    (.event (.motion ⟨⟨30, 20⟩, 0, 0, .none, false⟩))).2.1 rfl
  · exact hmotion.trans (by decide)
  · decide
  · decide

/-- The virtual finger is down on some axes, and nothing keeps the device from being touched. -/
structure Pinching (s : Session κ) (axes : Inversion) : Prop where
  active : s.finger.active = some axes
  pointer : s.pointer.isSome = true
  absolute : s.isRelative = false
  unpaused : s.isPaused = false
  accepting : ∃ channel, s.channel = some channel ∧
    ∀ command, (CommandSink.push channel command).1 = .ok ()

theorem Pinching.touch {axes : Inversion} (h : s.Pinching axes) (effects : List Effect)
    (action : MotionAction) (point : Point) : ∃ channel,
      Turn.touch ⟨s, effects⟩ s.fingerId action point = (true,
        Turn.emit ⟨{ s with channel := some channel }, effects⟩
          (.push (Turn.touchCommand ⟨s, effects⟩ s.fingerId action point) (.ok ()))) := by
  obtain ⟨channel, hchannel, haccepts⟩ := h.accepting
  unfold Turn.touch Turn.attempt
  dsimp only
  rw [hchannel]
  dsimp only
  rw [haccepts]
  exact ⟨_, rfl⟩

/-- A release lifts the finger, unless it counts as a double-click beside the device, which is left
to the window. -/
theorem release_lifts_finger {axes : Inversion} (h : s.Pinching axes) {e : MouseClick}
    (hbutton : e.button = .left) (hstate : e.state = .released) (htouch : e.fromTouch = false) :
    (s.handle (.click e)).effects =
        (if Turn.isBorderClick s e then []
        else
          [.pointer (.click ⟨s.screen.frame, s.screen.windowToFrame e.point⟩ .released .left
            s.pointerId (s.bindings.forwarded e.held)),
          .push (.injectTouch .up s.fingerId
            ⟨s.screen.frame, s.screen.mirrored e.point axes⟩ .zero .none .none) (.ok ())]) ∧
      (s.handle (.click e)).session.finger.active =
        if Turn.isBorderClick s e then some axes else none := by
  rw [show s.handle (.click e) = Turn.click ⟨s, []⟩ e from rfl]
  by_cases hborder : Turn.isBorderClick s e = true
  · have hclick : Turn.click ⟨s, []⟩ e = ⟨s, []⟩ := by
      simp [Turn.click, htouch, hbutton, MouseBindings.get, hborder, hstate, ButtonState.isPressed]
    rw [hclick, if_pos hborder, if_pos hborder]
    exact ⟨rfl, h.active⟩
  · have hreaches : Turn.reachesFinger s e = true := by
      simp [Turn.reachesFinger, htouch, h.unpaused, h.pointer, h.absolute, hbutton, hborder]
    rcases Turn.click_cases ⟨s, []⟩ e with ⟨hnot, -⟩ | ⟨-, hclick⟩
    · exact absurd (hreaches.symm.trans hnot) (by decide)
    have hup : s.finger.onLeftButton e.state.isPressed e.mods = some ⟨.up, axes⟩ := by
      unfold VirtualFinger.onLeftButton
      rw [hstate, h.active]
      rfl
    rw [hclick, if_neg hborder, if_neg hborder]
    obtain ⟨channel, htaken⟩ := h.touch [.pointer (.click (s.position e.point) e.state e.button
      s.pointerId (s.bindings.forwarded e.held))] .up (s.screen.mirrored e.point axes)
    unfold Turn.updateFinger
    dsimp only [Turn.emit, List.nil_append]
    rw [hup]
    dsimp only
    rw [Screen.mirrored] at htaken
    rw [htaken]
    rw [hbutton, hstate, position, h.absolute]
    exact ⟨rfl, rfl⟩

theorem pinching_of_start {t : Turn Channel} (h : Session.start {} (.pointing false) = .ok t) :
    ((t.session.amid (.pointing false)).call (.event (.click ctrlPress))).session.Pinching
      ⟨true, true⟩ := by
  obtain rfl := Except.ok.inj h
  exact ⟨by decide, rfl, by decide, by decide, _, rfl, fun _ ↦ rfl⟩

theorem release_lifts_finger_beside : ∃ (log : List (Record Channel)) (s : Session Channel),
    Run {} (.pointing false) log s ∧ s.Pinching ⟨true, true⟩ ∧ (s.handle
      (.click ⟨.left, .released, ⟨200, 20⟩, 1, .none, .none, false⟩)).session.finger.active =
        none := by
  have hstart : Run {} (.pointing false) [] _ := .start rfl
  have hpress := hstart.call (.pointing false) (.event (.click ctrlPress)) rfl
  have hpinching := pinching_of_start rfl
  refine ⟨_, _, hpress, hpinching, ?_⟩
  exact (release_lifts_finger hpinching rfl rfl rfl).2.trans (by decide)

/-- The end of a double-click that began on the device is swallowed beside it, and the finger stays
down. -/
theorem release_swallowed_beside : ∃ (log : List (Record Channel)) (s : Session Channel),
    Run {} (.pointing false) log s ∧ log.map (·.call) = [.event (.click ctrlPress)] ∧
      s.Pinching ⟨true, true⟩ ∧
      (s.handle (.click ⟨.left, .released, ⟨200, 20⟩, 2, .none, .lctrl, false⟩)).effects = [] ∧
      (s.handle (.click ⟨.left, .released, ⟨200, 20⟩, 2, .none, .lctrl, false⟩)).session.finger =
        s.finger := by
  have hstart : Run {} (.pointing false) [] _ := .start rfl
  have hpress := hstart.call (.pointing false) (.event (.click ctrlPress)) rfl
  refine ⟨_, _, hpress, rfl, pinching_of_start rfl, ?_, ?_⟩
  · rfl
  · decide

end Session

end InputRelay
