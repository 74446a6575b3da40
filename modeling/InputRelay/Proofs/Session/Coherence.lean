import InputRelay.Proofs.Session.Touches
import InputRelay.Proofs.Touchmap.Fingers

namespace InputRelay

open MotionAction Effect

theorem VirtualFinger.advance_onLeftButton {f : VirtualFinger} {pressed : Bool} {mods : Modifiers}
    {transition : Transition} (h : f.onLeftButton pressed mods = some transition) :
    advance f.active.isSome transition.action = some (commit transition).active.isSome := by
  obtain ⟨_ | inversion⟩ := f
  · cases pressed with
    | true =>
      obtain ⟨inversion, -, rfl⟩ := Option.map_eq_some_iff.mp h
      rfl
    | false => exact absurd h (by simp [onLeftButton])
  · cases pressed with
    | true => exact absurd h (by simp [onLeftButton])
    | false =>
      obtain rfl := Option.some.inj h
      rfl

def Disk.OwnFingers (d : Disk) : Prop :=
  ∀ path map, Touchmap.ofFile d path = .ok map → map.OwnFingers

variable {κ : Type}

namespace Session

def holds (s : Session κ) (id : PointerId) : Bool :=
  s.engine.any (·.holds id) || (s.finger.active.isSome && s.fingerId == id)

theorem holds_congr {s s' : Session κ} {id : PointerId}
    (hengine : s'.engine.any (·.holds id) = s.engine.any (·.holds id))
    (hfinger : s'.finger = s.finger) (hbindings : s'.bindings = s.bindings) :
    s'.holds id = s.holds id := by
  simp only [holds, fingerId, hengine, hfinger, hbindings]

theorem fingerId_mem_reserved (s : Session κ) : s.fingerId ∈ PointerId.reserved := by
  unfold fingerId VirtualFinger.pointer
  split <;> simp [PointerId.reserved]

theorem holds_of_not_reserved {s : Session κ} {e : TouchmapEngine} (he : s.engine = some e)
    {id : PointerId} (hid : id ∉ PointerId.reserved) : s.holds id = e.holds id := by
  have hne : (s.fingerId == id) = false :=
    beq_eq_false_iff_ne.mpr fun heq ↦ hid (heq ▸ s.fingerId_mem_reserved)
  simp [holds, he, hne]

end Session

namespace Turn

/-- The device and the session agree on the fingers that are down. -/
structure Coherent (past : List Effect) (t : Turn κ) : Prop where
  own : ∀ e, t.session.engine = some e → e.touchmap.OwnFingers
  idle : t.session.channel = none → ∀ e, t.session.engine = some e → ∀ f, e.holds f = false
  seen : ∀ id, t.sees past id = some (t.session.holds id)

theorem any_holds_eq_false {engine : Option TouchmapEngine}
    (h : ∀ e, engine = some e → ∀ f, e.holds f = false) (f : PointerId) :
    engine.any (·.holds f) = false := by
  cases engine with
  | none => rfl
  | some e => exact h e rfl f

variable {past : List Effect} {t t' : Turn κ}

theorem Coherent.engine_holds_fingerId (h : Coherent past t) :
    t.session.engine.any (·.holds t.session.fingerId) = false := by
  cases hengine : t.session.engine with
  | none => rfl
  | some e =>
    refine eq_false_of_ne_true fun hheld ↦ ?_
    exact (h.own e hengine).not_reserved _ (TouchmapEngine.mem_fingers_of_holds hheld)
      t.session.fingerId_mem_reserved

theorem Coherent.holds_fingerId (h : Coherent past t) :
    t.session.holds t.session.fingerId = t.session.finger.active.isSome := by
  simp [Session.holds, h.engine_holds_fingerId]

theorem Coherent.of_same (h : Coherent past t) (hengine : t'.session.engine = t.session.engine)
    (hfinger : t'.session.finger = t.session.finger)
    (hbindings : t'.session.bindings = t.session.bindings)
    (hchannel : t'.session.channel.isSome = t.session.channel.isSome)
    (hsees : ∀ id, t'.sees past id = t.sees past id) : Coherent past t' := by
  refine ⟨?_, ?_, ?_⟩
  · rw [hengine]
    exact h.own
  · intro hnone
    rw [hengine]
    rw [hnone] at hchannel
    exact h.idle (Option.not_isSome_iff_eq_none.mp (by simp [← hchannel]))
  · intro id
    rw [hsees, Session.holds_congr (by rw [hengine]) hfinger hbindings]
    exact h.seen id

theorem Coherent.next (h : Coherent past t) : Coherent (past ++ t.effects) ⟨t.session, []⟩ := by
  refine ⟨h.own, h.idle, fun id ↦ ?_⟩
  rw [sees, List.append_nil]
  exact h.seen id

theorem Coherent.of_engine (h : Coherent past t) {e e' : TouchmapEngine}
    (he : t.session.engine = some e) (htouchmap : e'.touchmap = e.touchmap)
    (hcontacts : e'.contacts = e.contacts) :
    Coherent past { t with session.engine := some e' } := by
  have hholds : ∀ f, e'.holds f = e.holds f := by
    intro f
    simp only [TouchmapEngine.holds, hcontacts]
  refine ⟨?_, ?_, ?_⟩
  · intro e'' he''
    obtain rfl : e' = e'' := Option.some.inj he''
    exact htouchmap ▸ h.own e he
  · intro hnone e'' he'' f
    obtain rfl : e' = e'' := Option.some.inj he''
    exact (hholds f).trans (h.idle hnone e he f)
  · intro id
    have hsame : Session.holds { t.session with engine := some e' } id = t.session.holds id := by
      refine Session.holds_congr ?_ rfl rfl
      rw [he]
      exact hholds id
    exact (h.seen id).trans (congrArg some hsame.symm)

/-- An engine that holds nothing may make way for another one. -/
theorem Coherent.replace (h : Coherent past t)
    (hfree : ∀ e, t.session.engine = some e → ∀ f, e.holds f = false)
    {engine : Option TouchmapEngine} (hown : ∀ e, engine = some e → e.touchmap.OwnFingers)
    (hfree' : ∀ e, engine = some e → ∀ f, e.holds f = false) (forwards : Bool) :
    Coherent past { t with session.engine := engine, session.forwards := forwards } := by
  refine ⟨hown, fun _ ↦ hfree', fun id ↦ ?_⟩
  have hsame : Session.holds { t.session with engine, forwards } id = t.session.holds id :=
    Session.holds_congr ((any_holds_eq_false hfree' id).trans (any_holds_eq_false hfree id).symm)
      rfl rfl
  exact (h.seen id).trans (congrArg some hsame.symm)

variable [CommandSink κ] {finger : PointerId} {action : MotionAction} {point : Point}

theorem sees_releaseContacts (h : Coherent past t)
    (hlost : ∀ e ∈ t.releaseContacts.effects, e.isLostLift = false) (id : PointerId) :
    t.releaseContacts.sees past id =
      if t.session.engine.any (·.holds id) then some false else t.sees past id := by
  unfold releaseContacts at hlost ⊢
  split
  · rename_i hnone
    rw [hnone]
    rfl
  · rename_i engine he
    rw [he] at hlost
    have hnodup := (h.own engine he).nodup
    have hheld : ∀ f, f ∈ engine.releaseAll.1.map (·.finger) ↔ engine.holds f = true :=
      TouchmapEngine.mem_map_finger_releaseAll hnodup
    refine (sees_sendTouches_lifts (fun _ ↦ TouchmapEngine.action_of_mem_releaseAll)
      (TouchmapEngine.nodup_map_finger_releaseAll hnodup) ?_ ?_ hlost id).trans ?_
    · intro hne
      obtain ⟨u, hu⟩ := List.exists_mem_of_ne_nil _ hne
      have hu := (hheld u.finger).mp (List.mem_map_of_mem hu)
      by_contra hchannel
      have hidle := h.idle (Option.not_isSome_iff_eq_none.mp hchannel) engine he u.finger
      simp [hu] at hidle
    · intro u hu
      have hu := (hheld u.finger).mp (List.mem_map_of_mem hu)
      refine (h.seen u.finger).trans ?_
      simp [Session.holds, he, hu]
    · rw [he]
      simp only [hheld, Option.any_some]
      rfl

namespace Coherent

theorem within (h : Coherent past t) (hw : Within Deed.Untouching t t') : Coherent past t' := by
  refine h.of_same (hw.same (p := .engine) id) (hw.same (p := .finger) id) hw.settings_eq.1
    hw.channel_isSome fun id ↦ ?_
  simp only [sees, touchesOf, List.filterMap_append]
  exact congrArg (fun actions ↦ follow false (touchesOf id past ++ actions)) (hw.touchesOf_eq id)

theorem refused (h : Coherent past t) (ht : t.touch finger action point = (false, t')) :
    Coherent past t' := by
  obtain ⟨channel, hsome, hsession⟩ := session_of_touch ht
  exact h.of_same (by rw [hsession]) (by rw [hsession]) (by rw [hsession])
    (by rw [hsession]; exact hsome) (sees_refused ht past)

theorem taken (h : Coherent past t) (ht : t.touch finger action point = (true, t')) {u : Turn κ}
    (heffects : u.effects = t'.effects) (hchannel : u.session.channel = t'.session.channel)
    (hown : ∀ e, u.session.engine = some e → e.touchmap.OwnFingers)
    (hself : advance (t.session.holds finger) action = some (u.session.holds finger))
    (hothers : ∀ id, finger ≠ id → u.session.holds id = t.session.holds id) :
    Coherent past u := by
  obtain ⟨channel, hsome, hsession⟩ := session_of_touch ht
  refine ⟨hown, ?_, ?_⟩
  · intro hnone
    rw [(eq_of_taken ht).1] at hsome
    rw [hchannel, hsession] at hnone
    simp [show channel = none from hnone] at hsome
  · intro id
    have hsees : u.sees past id = t'.sees past id := by rw [sees, sees, heffects]
    rw [hsees, sees_taken ht, h.seen]
    by_cases hid : finger = id
    · subst hid
      rw [if_pos rfl]
      exact hself
    · rw [if_neg hid, hothers id hid]

theorem moveFinger (h : Coherent past t) (p : Point) : Coherent past (t.moveFinger p) := by
  unfold Turn.moveFinger
  split
  · exact h
  · rename_i inversion hactive
    dsimp only
    cases ht : t.touch t.session.fingerId .move
      ((t.session.screen.windowToFrame p).mirror t.session.screen.frame inversion) with
    | mk accepted t' =>
      obtain ⟨channel, hsome, hsession⟩ := session_of_touch ht
      have hholds : ∀ id, t'.session.holds id = t.session.holds id := by
        intro id
        rw [hsession]
        rfl
      cases accepted with
      | false => exact h.refused ht
      | true =>
        refine h.taken ht rfl rfl ?_ ?_ fun id _ ↦ hholds id
        · rw [hsession]
          exact h.own
        · rw [hholds, h.holds_fingerId, hactive]
          rfl

theorem updateFinger (h : Coherent past t) (e : MouseClick) : Coherent past (t.updateFinger e) := by
  unfold Turn.updateFinger
  split
  · exact h
  · rename_i transition htransition
    dsimp only
    generalize (t.session.screen.windowToFrame e.point).mirror t.session.screen.frame
      transition.inversion = point
    split <;> rename_i t' ht
    · obtain ⟨channel, hsome, hsession⟩ := session_of_touch ht
      refine h.taken ht rfl rfl ?_ ?_ ?_
      · simp only [hsession]
        exact h.own
      · have hholds : Session.holds { t'.session with finger := VirtualFinger.commit transition }
            t.session.fingerId = (VirtualFinger.commit transition).active.isSome := by
          rw [hsession]
          simp only [Session.holds, h.engine_holds_fingerId, Bool.false_or]
          rw [Bool.and_eq_left_iff_imp]
          exact fun _ ↦ beq_self_eq_true _
        rw [hholds, h.holds_fingerId]
        exact VirtualFinger.advance_onLeftButton htransition
      · intro id hid
        have hne : (t.session.fingerId == id) = false := beq_eq_false_iff_ne.mpr hid
        have hholds :
            Session.holds { t'.session with finger := VirtualFinger.commit transition } id =
            (t.session.engine.any (·.holds id) ||
              ((VirtualFinger.commit transition).active.isSome && t.session.fingerId == id)) := by
          rw [hsession]
          rfl
        rw [hholds, Session.holds, hne, Bool.and_false, Bool.and_false]
    · exact h.refused ht

theorem sendTouches {e : TouchmapEngine} {lost : List PointerId} {touches : List SyntheticTouch}
    (h : Coherent past t) (he : t.session.engine = some e) (hfits : e.Fits lost touches) :
    Coherent past (t.sendTouches lost touches) := by
  -- the touches that are left fit the engine that has noted the taken ones
  induction touches generalizing t e lost with
  | nil => exact h
  | cons touch touches ih =>
    unfold Turn.sendTouches
    split
    · rename_i hlost
      exact ih h he (hfits.skip (List.contains_iff_mem.mp hlost))
    · rename_i hlost
      have hkept : touch.finger ∉ lost := fun hmem ↦ hlost (List.contains_iff_mem.mpr hmem)
      split <;> rename_i t' ht <;> obtain ⟨channel, hsome, hsession⟩ := session_of_touch ht
      · have he' : (t'.commit touch).session.engine = some (e.commit touch) := by
          simp only [Turn.commit, hsession, he, Option.map_some]
        refine ih (h.taken ht rfl rfl ?_ ?_ ?_) he' (hfits.commit hkept)
        · intro e' hengine
          obtain rfl : e.commit touch = e' := Option.some.inj (he'.symm.trans hengine)
          rw [TouchmapEngine.touchmap_commit]
          exact h.own e he
        · have hreserved := (h.own e he).not_reserved _ (hfits.known touch List.mem_cons_self)
          have hafter := Session.holds_of_not_reserved he' hreserved
          rw [Session.holds_of_not_reserved he hreserved]
          exact (hfits.advance_eq hkept).trans (congrArg some hafter.symm)
        · intro id hid
          have hholds := TouchmapEngine.holds_commit (hfits.known touch List.mem_cons_self) id
          rw [if_neg (Ne.symm hid)] at hholds
          refine Session.holds_congr ?_ (by rw [Turn.commit, hsession])
            (by rw [Turn.commit, hsession])
          rw [he', he]
          exact hholds
      · exact ih (h.refused ht) (by rw [hsession]; exact he) hfits.lose

theorem axis (h : Coherent past t) (e : AxisMotion) : Coherent past (t.axis e) := by
  unfold Turn.axis
  split
  · exact h.within (within_push t trivial)
  split
  · exact h
  · rename_i engine he
    have hnodup := (h.own engine he).nodup
    have hengine : Coherent past
        { t with session.engine := some (engine.axis e.axis e.value).2 } := by
      refine h.of_engine he ?_ ?_
      · exact engine.touchmap_axis e.axis e.value
      · exact engine.contacts_axis e.axis e.value
    exact hengine.sendTouches rfl (TouchmapEngine.fits_axis hnodup e.axis e.value)

theorem padButton (h : Coherent past t) (e : PadButton) : Coherent past (t.padButton e) := by
  unfold Turn.padButton
  split
  · exact h.within (within_push t trivial)
  split
  · exact h
  · rename_i engine he
    exact h.sendTouches he (TouchmapEngine.fits_button (h.own engine he).nodup _ _)

theorem releaseContacts (h : Coherent past t)
    (hlost : ∀ e ∈ t.releaseContacts.effects, e.isLostLift = false) :
    Coherent past t.releaseContacts := by
  have hwithin := t.within_releaseContacts
  refine ⟨?_, fun _ ↦ t.holds_releaseContacts, ?_⟩
  · intro e he
    obtain ⟨e', he', htouchmap, -⟩ := t.exists_engine_of_releaseContacts he
    exact htouchmap ▸ h.own e' he'
  · intro id
    have hfinger : t.releaseContacts.session.finger = t.session.finger :=
      hwithin.same (p := .finger) not_false
    have hfree := any_holds_eq_false t.holds_releaseContacts id
    rw [sees_releaseContacts h hlost, h.seen]
    cases hheld : t.session.engine.any (·.holds id) with
    | false =>
      rw [if_neg (by simp), Session.holds_congr (hfree.trans hheld.symm) hfinger
        hwithin.settings_eq.1]
    | true =>
      obtain ⟨e, he, hheld⟩ := (Option.any_eq_true _ _).mp hheld
      have hid := (h.own e he).not_reserved id (TouchmapEngine.mem_fingers_of_holds hheld)
      have hne : (t.releaseContacts.session.fingerId == id) = false :=
        beq_eq_false_iff_ne.mpr fun heq ↦ hid (heq ▸ Session.fingerId_mem_reserved _)
      rw [if_pos rfl, Session.holds, hfree, hne, Bool.and_false, Bool.or_false]

theorem unloadTouchmap (h : Coherent past t)
    (hlost : ∀ e ∈ t.unloadTouchmap.effects, e.isLostLift = false) :
    Coherent past t.unloadTouchmap :=
  (h.releaseContacts hlost).replace t.holds_releaseContacts (by simp) (by simp) true

theorem loadTouchmap (h : Coherent past t) (hdisk : t.session.disk.OwnFingers) (path : String)
    (hlost : ∀ e ∈ (t.loadTouchmap path).2.effects, e.isLostLift = false) :
    Coherent past (t.loadTouchmap path).2 := by
  unfold Turn.loadTouchmap at hlost ⊢
  split
  · exact h
  · rename_i map hmap
    rw [hmap] at hlost
    refine (h.releaseContacts hlost).replace t.holds_releaseContacts ?_ ?_ false
    · intro e he
      obtain rfl := Option.some.inj he
      rw [TouchmapEngine.touchmap_ofTouchmap]
      exact hdisk path map hmap
    · intro e he
      obtain rfl := Option.some.inj he
      exact TouchmapEngine.holds_eq_false (TouchmapEngine.contacts_ofTouchmap map)

theorem pickTouchmap (h : Coherent past t) (hdisk : t.session.disk.OwnFingers)
    (hlost : ∀ e ∈ t.pickTouchmap.effects, e.isLostLift = false) :
    Coherent past t.pickTouchmap := by
  unfold Turn.pickTouchmap at hlost ⊢
  split
  · exact h
  · rename_i answers hanswers
    rw [hanswers] at hlost
    dsimp only at hlost ⊢
    generalize answers.head?.join = answer at hlost ⊢
    have hask : Coherent past ({ t with session.picker := some answers.tail }.emit
        (.pickFile answer)) :=
      h.within (.trans (.one (.picker t _) trivial) (within_emit _ rfl trivial))
    cases answer with
    | none => exact hask
    | some path => exact hask.loadTouchmap hdisk path hlost

theorem motion (h : Coherent past t) (e : MouseMotion) : Coherent past (t.motion e) := by
  simp only [Turn.motion]
  split
  · exact h
  · exact (h.within (within_emit t rfl trivial)).moveFinger e.point

theorem click (h : Coherent past t) (e : MouseClick) : Coherent past (t.click e) := by
  rcases t.click_cases e with ⟨-, hclick⟩ | ⟨-, hclick⟩
  · exact h.within (hclick.mono fun _ hd ↦ hd.1)
  · rw [hclick]
    exact (h.within ((t.within_pointerCall _).mono fun _ hd ↦ hd.1)).updateFinger e

theorem key (h : Coherent past t) (hdisk : t.session.disk.OwnFingers) (e : KeyEvent)
    (hlost : ∀ effect ∈ (t.key e).effects, effect.isLostLift = false) :
    Coherent past (t.key e) := by
  have hcount : Within Deed.Untouching t (t.countPress e) := t.within_countPress trivial e
  rcases t.key_cases e with hkey | hkey | hkey
  · exact h.within hkey
  · rw [hkey] at hlost ⊢
    exact (h.within hcount).pickTouchmap (hcount.settings_eq.2.1 ▸ hdisk) hlost
  · rw [hkey] at hlost ⊢
    exact (h.within hcount).unloadTouchmap hlost

end Coherent

end Turn

end InputRelay