import InputRelay.Proofs.Touchmap.Buttons
import Mathlib.Data.List.DropRight

namespace InputRelay

namespace EngineCall

def isDown (f : PointerId) : EngineCall → Bool
  | .commit t => t.finger = f && t.action = .down
  | .event _ => false

def value? (axis : ControllerAxis) : EngineCall → Option Int16
  | .event e => e.value? axis
  | .commit _ => none

/-- The last value that was reported for an axis since a down of the finger was last committed. -/
def latestSince (f : PointerId) (axis : ControllerAxis) (calls : List EngineCall) : Option Int16 :=
  ((calls.rtakeWhile fun call ↦ !call.isDown f).filterMap (value? axis)).getLast?

theorem latestSince_concat (f : PointerId) (axis : ControllerAxis) (calls : List EngineCall)
    (call : EngineCall) : latestSince f axis (calls ++ [call]) =
      if call.isDown f then none else (call.value? axis).or (latestSince f axis calls) := by
  unfold latestSince
  rw [List.rtakeWhile_concat]
  cases call.isDown f with
  | true => rfl
  | false => cases hvalue : call.value? axis <;> simp [hvalue]

end EngineCall

/-- The point at which a skill aims: on each axis its centre is deflected by the last value of the
right stick since the skill was pressed. -/
def Control.aimAfter (k : Control) (calls : List EngineCall) : Point where
  x := match EngineCall.latestSince k.finger .rightX calls with
    | none => k.center.x
    | some value => deflect k.center.x value k.radius
  y := match EngineCall.latestSince k.finger .rightY calls with
    | none => k.center.y
    | some value => deflect k.center.y value k.radius

namespace Control

variable (k : Control) (calls : List EngineCall)

theorem aimAfter_rightX (value : Int16) : k.aimAfter (calls ++ [.event (.axis .rightX value)]) =
    (k.aimAfter calls).deflectAxis true k.center value k.radius := by
  simp [aimAfter, EngineCall.latestSince_concat, EngineCall.isDown, EngineCall.value?,
    EngineEvent.value?, Point.deflectAxis]

theorem aimAfter_rightY (value : Int16) : k.aimAfter (calls ++ [.event (.axis .rightY value)]) =
    (k.aimAfter calls).deflectAxis false k.center value k.radius := by
  simp [aimAfter, EngineCall.latestSince_concat, EngineCall.isDown, EngineCall.value?,
    EngineEvent.value?, Point.deflectAxis]

theorem aimAfter_down (call : EngineCall) (h : call.isDown k.finger = true) :
    k.aimAfter (calls ++ [call]) = k.center := by
  simp [aimAfter, EngineCall.latestSince_concat, h]

theorem aimAfter_other (call : EngineCall) (h : call.isDown k.finger = false)
    (hx : call.value? .rightX = none) (hy : call.value? .rightY = none) :
    k.aimAfter (calls ++ [call]) = k.aimAfter calls := by
  simp [aimAfter, EngineCall.latestSince_concat, h, hx, hy]

end Control

namespace TouchmapEngine

variable {m : Touchmap} {calls : List EngineCall}

def Aimed (m : Touchmap) (calls : List EngineCall) : Prop :=
  ∀ c ∈ ((ofTouchmap m).run calls).controls, c.isAiming = true → c.point = c.control.aimAfter calls

theorem controls_axis (e : TouchmapEngine) {axis : ControllerAxis}
    (h : axis ≠ .rightX ∧ axis ≠ .rightY) (value : Int16) :
    (e.axis axis value).2.controls = e.controls := by
  obtain ⟨walk, controls⟩ := e
  cases axis with
  | leftX | leftY => cases walk <;> rfl
  | rightX => exact absurd rfl h.1
  | rightY => exact absurd rfl h.2
  | triggerLeft | triggerRight => rfl

theorem isAiming_aim (c : Contact Control) (horizontal : Bool) (value : Int16) :
    (c.aim horizontal value).isAiming = c.isAiming := by
  rw [Contact.isAiming, Contact.held_aim, Contact.control_aim, Contact.isAiming]

theorem point_aim {c : Contact Control} (h : c.isAiming = true) (horizontal : Bool)
    (value : Int16) : (c.aim horizontal value).point =
      c.point.deflectAxis horizontal c.control.center value c.control.radius := by
  rw [Contact.aim, if_pos h]

theorem Aimed.event (h : Aimed m calls) (event : EngineEvent) :
    Aimed m (calls ++ [.event event]) := by
  intro c hc haiming
  rw [run_concat] at hc
  have hsame : c ∈ ((ofTouchmap m).run calls).controls →
      event.value? .rightX = none → event.value? .rightY = none →
      c.point = c.control.aimAfter (calls ++ [.event event]) := by
    intro hc hx hy
    rw [Control.aimAfter_other _ _ (.event event) rfl hx hy]
    exact h c hc haiming
  cases event with
  | axis axis value =>
    cases axis with
    | rightX =>
      obtain ⟨d, hd, rfl⟩ := List.mem_map.mp hc
      rw [isAiming_aim] at haiming
      rw [point_aim haiming, Contact.control_aim, Control.aimAfter_rightX, h d hd haiming]
    | rightY =>
      obtain ⟨d, hd, rfl⟩ := List.mem_map.mp hc
      rw [isAiming_aim] at haiming
      rw [point_aim haiming, Contact.control_aim, Control.aimAfter_rightY, h d hd haiming]
    | leftX | leftY | triggerLeft | triggerRight =>
      refine hsame ?_ rfl rfl
      rwa [TouchmapEngine.call, react, controls_axis _ (by decide)] at hc
  | button code pressed => exact hsame hc rfl rfl
  | releaseAll =>
    obtain ⟨d, -, rfl⟩ := List.mem_map.mp hc
    cases haiming

theorem Aimed.commit (hm : m.fingers.Nodup) (h : Aimed m calls) {t : SyntheticTouch}
    (ht : Proposable m t) : Aimed m (calls ++ [.commit t]) := by
  have hmap : ((ofTouchmap m).run calls).touchmap = m := touchmap_run_ofTouchmap m calls
  intro c hc haiming
  rw [run_concat, call, controls_commit (hmap.symm ▸ hm)] at hc
  obtain ⟨d, hd, rfl⟩ := List.mem_map.mp hc
  have hdm : d.control ∈ m.controls := hmap ▸ List.mem_map_of_mem hd
  by_cases hfinger : d.control.finger = t.finger
  · rw [if_pos hfinger] at haiming ⊢
    rw [Contact.control_commit]
    cases haction : t.action with
    | down =>
      have hcenter : t.point = d.control.center := by
        obtain ⟨w, hw, hwalk⟩ | ⟨code, i, k, hlookup, hk, hpoint⟩ := ht.down_cases haction
        · exact absurd (hwalk.symm.trans hfinger.symm) (walk_finger_ne hm hw hdm)
        · obtain ⟨-, hkm, -⟩ := Touchmap.getElem?_of_lookup? hlookup
          rw [eq_of_finger_eq hm hdm (List.mem_of_getElem? hkm) (hfinger.trans hk), hpoint]
      rw [Control.aimAfter_down _ _ (.commit t) (by simp [EngineCall.isDown, hfinger, haction]),
        Contact.commit, haction, hcenter]
    | up => simp [Contact.commit, Contact.isAiming, haction] at haiming
    | move =>
      rw [Contact.commit, haction] at haiming ⊢
      rw [Control.aimAfter_other _ _ (.commit t) (by simp [EngineCall.isDown, haction]) rfl rfl]
      exact h d hd haiming
  · rw [if_neg hfinger] at haiming ⊢
    have hdown : (EngineCall.commit t).isDown d.control.finger = false := by
      simp [EngineCall.isDown, Ne.symm hfinger]
    rw [Control.aimAfter_other _ _ (.commit t) hdown rfl rfl]
    exact h d hd haiming

theorem Drives.aimed (hm : m.fingers.Nodup) (h : Drives m calls) : Aimed m calls := by
  refine h.invariant (P := Aimed m) ?_ (fun _ event h ↦ h.event event)
    (fun _ _ ht h ↦ h.commit hm ht)
  intro c hc haiming
  obtain ⟨k, -, rfl⟩ := List.mem_map.mp hc
  cases haiming

/-- An event of the right stick moves the skills that are held and nothing else. Where a skill is
moved to follows from the values that the stick has reported since the skill went down. -/
theorem aim_follows_stick (hm : m.fingers.Nodup) (h : Drives m calls) {axis : ControllerAxis}
    (haxis : axis = .rightX ∨ axis = .rightY) (value : Int16) :
    let e := (ofTouchmap m).run calls
    (e.react (.axis axis value)).1 =
      (m.controls.filter fun k ↦ k.isSkill && e.holds k.finger).map fun k ↦
        ⟨k.finger, .move, k.aimAfter (calls ++ [.event (.axis axis value)])⟩ := by
  intro e
  let e' := (e.react (.axis axis value)).2
  have hmap : e'.touchmap = m :=
    (touchmap_react e _).trans (touchmap_run_ofTouchmap m calls)
  have haimed : ∀ c ∈ e'.controls, c.isAiming = true →
      c.point = c.control.aimAfter (calls ++ [.event (.axis axis value)]) := by
    have h' := (h.aimed hm).event (.axis axis value)
    rwa [Aimed, run_concat] at h'
  have hproposed : (e.react (.axis axis value)).1 =
      (e'.controls.filter (·.isAiming)).map fun c ↦ ⟨c.control.finger, .move, c.point⟩ := by
    rcases haxis with rfl | rfl <;> rfl
  have haiming : ∀ c ∈ e'.controls,
      c.isAiming = (c.control.isSkill && e.holds c.control.finger) := by
    intro c hc
    have hsame : EngineEvent.axis axis value ≠ .releaseAll := by simp
    rw [Contact.isAiming, Bool.and_comm, ← holds_react e hsame,
      holds_of_mem (hmap.symm ▸ hm) (mem_contacts_of_control hc)]
  have hcontrols : m.controls = e'.controls.map (·.control) := by
    rw [← hmap]
    rfl
  rw [hproposed, hcontrols, List.filter_map, List.map_map, List.filter_congr haiming]
  refine List.map_congr_left fun c hc ↦ ?_
  obtain ⟨hc, hheld⟩ := List.mem_filter.mp hc
  simp only [Function.comp_apply, haimed c hc ((haiming c hc).trans hheld)]

theorem aim_follows_stick_apart :
    let m : Touchmap := { controls := [⟨⟨0⟩, ⟨100, 100⟩, .skill 50, ⟨100⟩⟩,
      ⟨⟨1⟩, ⟨500, 500⟩, .skill (-80), ⟨101⟩⟩, ⟨⟨2⟩, ⟨900, 900⟩, .skill 10, ⟨102⟩⟩] }
    let calls : List EngineCall := [.event (.button ⟨0⟩ true), .commit ⟨⟨100⟩, .down, ⟨100, 100⟩⟩,
      .event (.axis .rightX 32767), .event (.button ⟨1⟩ true), .commit ⟨⟨101⟩, .down, ⟨500, 500⟩⟩]
    let e := (ofTouchmap m).run calls
    m.fingers.Nodup ∧ Drives m calls ∧ (e.react (.axis .rightY 32767)).1 =
      [⟨⟨100⟩, .move, ⟨150, 150⟩⟩, ⟨⟨101⟩, .move, ⟨500, 420⟩⟩] := by
  intro m calls e
  have hm : m.fingers.Nodup := by decide
  have hfirst :=
    @Drives.react m _ [⟨⟨100⟩, .down, ⟨100, 100⟩⟩] (.button ⟨0⟩ true) .start (by decide)
  have hstick := @Drives.react m _ [] (.axis .rightX 32767) hfirst (List.nil_subset _)
  have h : Drives m calls :=
    @Drives.react m _ [⟨⟨101⟩, .down, ⟨500, 500⟩⟩] (.button ⟨1⟩ true) hstick (by decide)
  exact ⟨hm, h, (aim_follows_stick hm h (Or.inr rfl) 32767).trans (by decide)⟩

end TouchmapEngine

end InputRelay
