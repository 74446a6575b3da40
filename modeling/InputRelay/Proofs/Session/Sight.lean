import InputRelay.Proofs.Session.Routing

namespace InputRelay

variable {κ κ' : Type}

/-- What the events of a family see of a session, with another channel in the place of its own. No
family but the keyboard's sees the count of presses or what only another family has to do with. -/
def Session.seenBy (f : Family) (g : κ → κ') (s : Session κ) : Session κ' :=
  match f with
  | .keyboard => { s with channel := s.channel.map g }
  | .pointer =>
    { s with
      channel := s.channel.map g
      repeats := {}
      engine := none
      host := none
      slots := .empty }
  | .gamepad =>
    { s with
      channel := s.channel.map g
      repeats := {}
      screen := .ofFrame s.screen.frame
      finger := {}
      host := none
      slots := .empty }
  | .hotPlug =>
    { s with
      channel := s.channel.map g
      repeats := {}
      screen := .ofFrame s.screen.frame
      finger := {}
      engine := none }
  | .files =>
    { s with
      channel := s.channel.map g
      repeats := {}
      screen := .ofFrame s.screen.frame
      finger := {}
      engine := none
      host := none
      slots := .empty }

def CommandSink.Follows [CommandSink κ] [CommandSink κ'] (g : κ → κ') : Prop :=
  ∀ channel c, push (g channel) c = ((push channel c).1, g (push channel c).2)

theorem CommandSink.follows_id [CommandSink κ] : Follows (id : κ → κ) :=
  fun _ _ ↦ rfl

theorem Session.eq_of_seenBy {f : Family} (hf : f ≠ .keyboard) {s s' : Session κ}
    (hseen : s'.seenBy f id = s.seenBy f id)
    (hrest : ∀ p : Part, p ≠ .repeats → ¬Deed.Of f (.change p) → p.Same s s') :
    s' = { s with repeats := s'.repeats } := by
  have hscreen := hrest .screen nofun
  have hfinger := hrest .finger nofun
  have hengine := hrest .engine nofun
  have hhost := hrest .host nofun
  have hslots := hrest .slots nofun
  cases s
  cases s'
  cases f <;> simp_all [seenBy, Part.Same, Deed.Of]

namespace Turn

def seenBy (f : Family) (g : κ → κ') (t : Turn κ) : Turn κ' :=
  ⟨t.session.seenBy f g, t.effects⟩

variable (t : Turn κ) (g : κ → κ')

theorem session_seenBy (f : Family) : (t.seenBy f g).session = t.session.seenBy f g :=
  rfl

theorem emit_seenBy (f : Family) (e : Effect) :
    (t.emit e).seenBy f g = (t.seenBy f g).emit e :=
  rfl

theorem channel_seenBy (f : Family) :
    (t.seenBy f g).session.channel = t.session.channel.map g := by
  cases f <;> rfl

theorem frame_seenBy (f : Family) :
    (t.seenBy f g).session.screen.frame = t.session.screen.frame := by
  cases f <;> rfl

theorem with_channel_seenBy (f : Family) (channel : Option κ) :
    ({ t with session.channel := channel } : Turn κ).seenBy f g =
      { t.seenBy f g with session.channel := channel.map g } := by
  cases f <;> rfl

theorem wheel_seenBy (e : MouseWheel) :
    (t.wheel e).seenBy .pointer g = (t.seenBy .pointer g).wheel e := by
  dsimp +instances only [wheel, session_seenBy, Session.seenBy, Session.isPaused, Session.position,
    Session.isRelative]
  split <;> rfl

theorem fingerTouch_seenBy (e : FingerTouch) :
    (t.fingerTouch e).seenBy .pointer g = (t.seenBy .pointer g).fingerTouch e := by
  dsimp +instances only [fingerTouch, session_seenBy, Session.seenBy, Session.isPaused]
  split <;> rfl

theorem fileDrop_seenBy (path : String) :
    (t.fileDrop path).seenBy .files g = (t.seenBy .files g).fileDrop path := by
  dsimp +instances only [fileDrop, session_seenBy, Session.seenBy]
  split <;> rfl

theorem guarded_seenBy {f : Family} (h : Turn κ → Turn κ) (h' : Turn κ' → Turn κ')
    (hh : (h t).seenBy f g = h' (t.seenBy f g)) :
    (if t.session.channel.isSome then h t else t).seenBy f g =
      if (t.seenBy f g).session.channel.isSome then h' (t.seenBy f g) else t.seenBy f g := by
  rw [channel_seenBy, Option.isSome_map, ← hh]
  split <;> rfl

variable [CommandSink κ] [CommandSink κ'] {g} (hg : CommandSink.Follows g)
include hg

theorem attempt_seenBy (f : Family) (c : Command) :
    (t.seenBy f g).attempt c = ((t.attempt c).1, (t.attempt c).2.seenBy f g) := by
  unfold attempt
  rw [channel_seenBy]
  cases t.session.channel with
  | none => rfl
  | some channel =>
    simp only [Option.map_some, hg channel c, emit_seenBy, with_channel_seenBy]

theorem push_seenBy (f : Family) (c : Command) :
    (t.push c).seenBy f g = (t.seenBy f g).push c := by
  rw [push, push, t.attempt_seenBy hg]

theorem touch_seenBy (f : Family) (finger : PointerId) (action : MotionAction) (point : Point) :
    (t.seenBy f g).touch finger action point =
      ((t.touch finger action point).1, (t.touch finger action point).2.seenBy f g) := by
  unfold touch
  rw [frame_seenBy, t.attempt_seenBy hg]

theorem sendTouches_seenBy (lost : List PointerId) (touches : List SyntheticTouch) :
    (t.sendTouches lost touches).seenBy .gamepad g =
      (t.seenBy .gamepad g).sendTouches lost touches := by
  induction touches generalizing t lost with
  | nil => rfl
  | cons touch touches ih =>
    unfold sendTouches
    rw [t.touch_seenBy hg]
    split
    · exact ih t lost
    · obtain ⟨taken, t'⟩ := t.touch touch.finger touch.action touch.point
      cases taken
      · exact ih t' _
      · exact ih (t'.commit touch) lost

theorem control_seenBy (raw : Command) (event : EngineEvent) :
    (t.control raw event).seenBy .gamepad g = (t.seenBy .gamepad g).control raw event := by
  dsimp +instances only [control, session_seenBy, Session.seenBy]
  split
  · exact t.push_seenBy hg .gamepad raw
  split
  · rfl
  · rename_i engine _
    exact sendTouches_seenBy { t with session.engine := some (engine.react event).2 } hg _ _

theorem moveFinger_seenBy (p : Point) :
    (t.moveFinger p).seenBy .pointer g = (t.seenBy .pointer g).moveFinger p := by
  dsimp +instances only [moveFinger, session_seenBy, Session.seenBy, Session.fingerId]
  split
  · rfl
  · exact (congrArg Prod.snd (t.touch_seenBy hg .pointer _ _ _)).symm

theorem motion_seenBy (e : MouseMotion) :
    (t.motion e).seenBy .pointer g = (t.seenBy .pointer g).motion e := by
  dsimp +instances only [motion, session_seenBy, Session.seenBy, Session.isPaused, Session.position,
    Session.isRelative, Session.pointerId]
  split
  · rfl
  · exact moveFinger_seenBy (t.emit _) hg e.point

theorem runBinding_seenBy (e : MouseClick) (binding : MouseBinding) :
    (t.runBinding e binding).seenBy .pointer g =
      (t.seenBy .pointer g).runBinding e binding := by
  cases binding with
  | click | auto | disabled => rfl
  | back | home | appSwitch | expandNotificationPanel =>
    dsimp +instances only [runBinding, session_seenBy, Session.seenBy]
    split
    · exact t.push_seenBy hg .pointer _
    · rfl

theorem updateFinger_seenBy (e : MouseClick) :
    (t.updateFinger e).seenBy .pointer g = (t.seenBy .pointer g).updateFinger e := by
  unfold updateFinger
  dsimp +instances only [session_seenBy, Session.seenBy, Session.fingerId]
  split
  · rfl
  · rw [t.touch_seenBy hg]
    generalize t.touch _ _ _ = result
    obtain ⟨_ | _, t'⟩ := result <;> rfl

theorem forwardClick_seenBy (e : MouseClick) :
    (t.forwardClick e).seenBy .pointer g = (t.seenBy .pointer g).forwardClick e := by
  dsimp +instances only [forwardClick, session_seenBy, Session.seenBy, Session.position,
    Session.isRelative, Session.pointerId]
  split
  · exact updateFinger_seenBy (t.emit _) hg e
  · rfl

theorem click_seenBy (e : MouseClick) :
    (t.click e).seenBy .pointer g = (t.seenBy .pointer g).click e := by
  have hchannel : (t.seenBy .pointer g).session.channel.isSome = t.session.channel.isSome := by
    rw [channel_seenBy, Option.isSome_map]
  simp only [click, hchannel]
  dsimp +instances only [session_seenBy, Session.seenBy, isBorderClick, Session.isPaused,
    Session.isRelative]
  split
  · rfl
  split
  · exact t.runBinding_seenBy hg e _
  split
  · split <;> rfl
  split
  · rfl
  · exact t.forwardClick_seenBy hg e

theorem addController_seenBy (index : UInt32) :
    (t.addController index).seenBy .hotPlug g = (t.seenBy .hotPlug g).addController index := by
  unfold addController
  dsimp +instances only [session_seenBy, Session.seenBy]
  split
  · rfl
  split
  · rfl
  · rename_i host _
    dsimp only [emit]
    split
    · rfl
    · rename_i id _
      cases t.session.slots.insert id with
      | error e => rfl
      | ok inserted =>
        exact push_seenBy
          ⟨{ t.session with host := some (host.open? index).2, slots := inserted.2 },
            t.effects ++ [.openController index (host.open? index).1]⟩ hg .hotPlug _

theorem freeSlot_seenBy (id : ControllerId) :
    (match t.session.slots.erase id with
      | .ok (_, slots) =>
        { t with session.slots := slots }.push (.injectControllerDevice id .removed)
      | .error _ => t).seenBy .hotPlug g =
    (match (t.seenBy .hotPlug g).session.slots.erase id with
      | .ok (_, slots) =>
        { t.seenBy .hotPlug g with session.slots := slots }.push
          (.injectControllerDevice id .removed)
      | .error _ => t.seenBy .hotPlug g) := by
  dsimp only [session_seenBy, Session.seenBy]
  cases t.session.slots.erase id with
  | error e => rfl
  | ok erased => exact push_seenBy { t with session.slots := erased.2 } hg .hotPlug _

theorem removeController_seenBy (id : ControllerId) :
    (t.removeController id).seenBy .hotPlug g = (t.seenBy .hotPlug g).removeController id := by
  unfold removeController
  dsimp +instances only [session_seenBy, Session.seenBy]
  split
  · cases t.session.host with
    | none => exact t.freeSlot_seenBy hg id
    | some host =>
      exact freeSlot_seenBy
        ({ t with session.host := some (host.close id) }.emit (.closeController id)) hg id
  · rfl

theorem hotPlug_seenBy (e : HotPlug) :
    (t.hotPlug e).seenBy .hotPlug g = (t.seenBy .hotPlug g).hotPlug e := by
  cases e with
  | added index => exact t.addController_seenBy hg index
  | removed id => exact t.removeController_seenBy hg id

theorem handle_seenBy {e : Event} (he : e.family ≠ .keyboard) :
    (t.handle e).seenBy e.family g = (t.seenBy e.family g).handle e := by
  cases e with
  | key | text => exact absurd rfl he
  | motion e => exact t.motion_seenBy hg e
  | click e => exact t.click_seenBy hg e
  | wheel e => exact t.wheel_seenBy g e
  | touch e => exact t.fingerTouch_seenBy g e
  | fileDrop path =>
    exact t.guarded_seenBy g (·.fileDrop path) (·.fileDrop path) (t.fileDrop_seenBy g path)
  | axis e =>
    refine t.guarded_seenBy g (·.axis e) (·.axis e) ?_
    rw [axis_eq_control, axis_eq_control]
    exact t.control_seenBy hg _ _
  | padButton e =>
    refine t.guarded_seenBy g (·.padButton e) (·.padButton e) ?_
    rw [padButton_eq_control, padButton_eq_control]
    exact t.control_seenBy hg _ _
  | hotPlug e => exact t.guarded_seenBy g (·.hotPlug e) (·.hotPlug e) (t.hotPlug_seenBy hg e)

end Turn

/-- What a family sees is all that its events go by. -/
theorem Session.handle_seenBy_congr {κ'' : Type} [CommandSink κ] [CommandSink κ'] [CommandSink κ'']
    {g : κ → κ''} (hg : CommandSink.Follows g) {g' : κ' → κ''} (hg' : CommandSink.Follows g')
    {s : Session κ} {s' : Session κ'} {e : Event} (he : e.family ≠ .keyboard)
    (h : s'.seenBy e.family g' = s.seenBy e.family g) :
    (s'.handle e).seenBy e.family g' = (s.handle e).seenBy e.family g :=
  calc (s'.handle e).seenBy e.family g'
      = (s'.seenBy e.family g').handle e := Turn.handle_seenBy ⟨s', []⟩ hg' he
    _ = (s.seenBy e.family g).handle e := by rw [h]
    _ = (s.handle e).seenBy e.family g := (Turn.handle_seenBy ⟨s, []⟩ hg he).symm

end InputRelay
