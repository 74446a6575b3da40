import InputRelay.Proofs.Touchmap.Reaction
import InputRelay.Proofs.Touchmap.Strokes

namespace InputRelay

namespace SyntheticTouch

def actionsOf (f : PointerId) (touches : List SyntheticTouch) : List MotionAction :=
  (touches.filter (·.finger = f)).map (·.action)

theorem actionsOf_cons_self (t : SyntheticTouch) (touches : List SyntheticTouch) :
    actionsOf t.finger (t :: touches) = t.action :: actionsOf t.finger touches := by
  simp [actionsOf]

theorem actionsOf_cons_of_ne {f : PointerId} {t : SyntheticTouch} (h : f ≠ t.finger)
    (touches : List SyntheticTouch) : actionsOf f (t :: touches) = actionsOf f touches := by
  simp [actionsOf, h.symm]

theorem exists_of_mem_actionsOf {f : PointerId} {touches : List SyntheticTouch}
    {action : MotionAction} (h : action ∈ actionsOf f touches) :
    ∃ t ∈ touches, t.finger = f ∧ t.action = action := by
  obtain ⟨t, ht, hta⟩ := List.mem_map.mp h
  obtain ⟨hmem, hf⟩ := List.mem_filter.mp ht
  exact ⟨t, hmem, of_decide_eq_true hf, hta⟩

end SyntheticTouch

namespace MotionAction

theorem follow_moves {actions : List MotionAction} (h : ∀ a ∈ actions, a = .move) :
    follow true actions = some true := by
  induction actions with
  | nil => rfl
  | cons a actions ih =>
    rw [h a List.mem_cons_self, follow_cons]
    exact ih fun b hb ↦ h b (List.mem_cons_of_mem a hb)

end MotionAction

namespace Contact

theorem finger_of_mem_walkTouches (c : Contact WalkControl) :
    ∀ t ∈ c.walkTouches, t.finger = c.control.finger := by
  intro t ht
  simp only [walkTouches] at ht
  split at ht <;> split at ht <;> simp only [List.mem_cons, List.not_mem_nil, or_false] at ht
  · rw [ht]
  · rw [ht]
  · rcases ht with rfl | rfl <;> rfl

theorem follow_walkTouches (c : Contact WalkControl) :
    ∃ down, MotionAction.follow c.held (c.walkTouches.map (·.action)) = some down := by
  simp only [walkTouches]
  split <;> split <;> rename_i hheld
  · rw [hheld]
    exact ⟨false, rfl⟩
  · exact ⟨c.held, rfl⟩
  · rw [hheld]
    exact ⟨true, rfl⟩
  · rw [eq_false_of_ne_true hheld]
    exact ⟨true, rfl⟩

end Contact

namespace TouchmapEngine

open SyntheticTouch MotionAction

/-- Touches that an engine may offer one after another, so that each makes sense of its finger
unless an earlier one of that finger was lost. -/
structure Fits (e : TouchmapEngine) (lost : List PointerId) (touches : List SyntheticTouch) :
    Prop where
  known : ∀ t ∈ touches, t.finger ∈ e.touchmap.fingers
  sensible : ∀ f ∉ lost, ∃ down, follow (e.holds f) (actionsOf f touches) = some down

namespace Fits

variable {e : TouchmapEngine} {lost : List PointerId} {t : SyntheticTouch}
  {touches : List SyntheticTouch}

theorem nil (e : TouchmapEngine) (lost : List PointerId) : e.Fits lost [] :=
  ⟨by simp, fun f _ ↦ ⟨e.holds f, rfl⟩⟩

theorem lose (h : e.Fits lost (t :: touches)) : e.Fits (t.finger :: lost) touches := by
  refine ⟨fun t' ht' ↦ h.known t' (List.mem_cons_of_mem t ht'), ?_⟩
  intro f hf
  obtain ⟨hne, hf⟩ := List.ne_and_not_mem_of_not_mem_cons hf
  rw [← actionsOf_cons_of_ne hne]
  exact h.sensible f hf

theorem skip (h : e.Fits lost (t :: touches)) (ht : t.finger ∈ lost) : e.Fits lost touches := by
  refine ⟨h.lose.known, ?_⟩
  intro f hf
  have hne : f ≠ t.finger := fun heq ↦ hf (heq ▸ ht)
  exact h.lose.sensible f (List.not_mem_cons_of_ne_of_not_mem hne hf)

theorem advance_eq (h : e.Fits lost (t :: touches)) (ht : t.finger ∉ lost) :
    advance (e.holds t.finger) t.action = some ((e.commit t).holds t.finger) := by
  obtain ⟨down, hdown⟩ := h.sensible t.finger ht
  rw [actionsOf_cons_self, follow_cons] at hdown
  obtain ⟨down', hadvance, -⟩ := Option.bind_eq_some_iff.mp hdown
  rw [holds_commit (h.known t List.mem_cons_self), if_pos rfl, settle_of_advance hadvance]
  exact hadvance

theorem commit (h : e.Fits lost (t :: touches)) (ht : t.finger ∉ lost) :
    (e.commit t).Fits lost touches := by
  constructor
  · intro t' ht'
    rw [touchmap_commit]
    exact h.lose.known t' ht'
  · intro f hf
    obtain ⟨down, hdown⟩ := h.sensible f hf
    by_cases hne : f = t.finger
    · subst hne
      rw [actionsOf_cons_self, follow_cons, h.advance_eq ht] at hdown
      exact ⟨down, hdown⟩
    · rw [actionsOf_cons_of_ne hne] at hdown
      rw [holds_commit (h.known t List.mem_cons_self), if_neg hne]
      exact ⟨down, hdown⟩

end Fits

variable {e : TouchmapEngine}

theorem holds_of_mem (h : e.touchmap.fingers.Nodup) {f : PointerId} {held : Bool}
    (hmem : (f, held) ∈ e.contacts) : e.holds f = held := by
  obtain ⟨before, after, hcontacts⟩ := List.append_of_mem hmem
  have hlookup : e.contacts.lookup f = some held := by
    refine List.lookup_eq_some_iff.mpr ⟨before, after, hcontacts, ?_⟩
    intro p hp
    rw [← map_fst_contacts, hcontacts, List.map_append, List.map_cons] at h
    have hne := (List.nodup_append.mp h).2.2 p.1 (List.mem_map_of_mem hp) f List.mem_cons_self
    exact bne_iff_ne.mpr hne.symm
  rw [holds, hlookup]
  cases held <;> rfl

theorem mem_contacts_iff (h : e.touchmap.fingers.Nodup) (f : PointerId) :
    (f, true) ∈ e.contacts ↔ e.holds f = true :=
  ⟨holds_of_mem h, mem_of_holds⟩

theorem mem_map_finger_releaseAll (h : e.touchmap.fingers.Nodup) (f : PointerId) :
    f ∈ e.releaseAll.1.map (·.finger) ↔ e.holds f = true := by
  rw [map_finger_releaseAll, ← mem_contacts_iff h]
  simp [List.mem_map, List.mem_filter]

theorem nodup_map_finger_releaseAll (h : e.touchmap.fingers.Nodup) :
    (e.releaseAll.1.map (·.finger)).Nodup := by
  rw [map_finger_releaseAll]
  rw [← map_fst_contacts] at h
  exact h.sublist (List.filter_sublist.map Prod.fst)

theorem mem_contacts_of_walk {w : Contact WalkControl} (h : e.walk = some w) :
    (w.control.finger, w.held) ∈ e.contacts := by
  simp [contacts, h]

theorem mem_contacts_of_control {c : Contact Control} (h : c ∈ e.controls) :
    (c.control.finger, c.held) ∈ e.contacts :=
  List.mem_append_right _ (List.mem_map_of_mem h)

theorem mem_fingers_of_mem_contacts {f : PointerId} {held : Bool} (h : (f, held) ∈ e.contacts) :
    f ∈ e.touchmap.fingers := by
  rw [← map_fst_contacts]
  exact List.mem_map_of_mem h

theorem fits_of_finger {f : PointerId} {touches : List SyntheticTouch}
    (hf : f ∈ e.touchmap.fingers) (htouches : ∀ t ∈ touches, t.finger = f)
    (h : ∃ down, follow (e.holds f) (touches.map (·.action)) = some down) :
    e.Fits [] touches := by
  refine ⟨fun t ht ↦ htouches t ht ▸ hf, ?_⟩
  intro g _
  by_cases hg : g = f
  · subst hg
    have hall : actionsOf g touches = touches.map (·.action) := by
      rw [actionsOf, List.filter_eq_self.mpr fun t ht ↦ decide_eq_true (htouches t ht)]
    rw [hall]
    exact h
  · have hnone : actionsOf g touches = [] := by
      rw [actionsOf, List.filter_eq_nil_iff.mpr, List.map_nil]
      intro t ht htg
      exact hg (of_decide_eq_true htg ▸ htouches t ht)
    rw [hnone]
    exact ⟨e.holds g, rfl⟩

theorem fits_button (h : e.touchmap.fingers.Nodup) (code : ButtonCode) (pressed : Bool) :
    e.Fits [] (e.button code pressed) := by
  rcases e.button_cases code pressed with hbutton | ⟨c, hc, hheld, hbutton⟩ <;> rw [hbutton]
  · exact .nil e []
  · have hmem := mem_contacts_of_control hc
    refine fits_of_finger (mem_fingers_of_mem_contacts hmem) (by simp) ?_
    rw [holds_of_mem h hmem]
    cases hc : c.held <;> cases pressed <;> simp_all [follow, advance]

theorem fits_steer (h : e.touchmap.fingers.Nodup) (horizontal : Bool) (value : Int16) :
    (e.steer horizontal value).2.Fits [] (e.steer horizontal value).1 := by
  obtain ⟨_ | w, controls⟩ := e
  · exact .nil _ []
  · let w' : Contact WalkControl :=
      { w with
        point := w.point.deflectAxis horizontal w.control.center value w.control.radius }
    have hmem : (w'.control.finger, w'.held) ∈ contacts ⟨some w', controls⟩ :=
      mem_contacts_of_walk rfl
    have hholds : holds ⟨some w', controls⟩ w'.control.finger = w'.held := holds_of_mem h hmem
    refine fits_of_finger (mem_fingers_of_mem_contacts hmem) w'.finger_of_mem_walkTouches ?_
    exact hholds ▸ w'.follow_walkTouches

theorem fits_aim (h : e.touchmap.fingers.Nodup) (horizontal : Bool) (value : Int16) :
    (e.aim horizontal value).2.Fits [] (e.aim horizontal value).1 := by
  have hnodup : (e.aim horizontal value).2.touchmap.fingers.Nodup := by
    cases horizontal with
    | true => exact (e.touchmap_axis .rightX value).symm ▸ h
    | false => exact (e.touchmap_axis .rightY value).symm ▸ h
  have hheld : ∀ t ∈ (e.aim horizontal value).1,
      t.action = .move ∧ (t.finger, true) ∈ (e.aim horizontal value).2.contacts := by
    intro t ht
    obtain ⟨c, hc, rfl⟩ := List.mem_map.mp ht
    obtain ⟨hmem, haiming⟩ := List.mem_filter.mp hc
    obtain ⟨hheld, -⟩ := Bool.and_eq_true_iff.mp haiming
    exact ⟨rfl, hheld ▸ mem_contacts_of_control hmem⟩
  refine ⟨fun t ht ↦ mem_fingers_of_mem_contacts (hheld t ht).2, ?_⟩
  intro f _
  cases hactions : actionsOf f (e.aim horizontal value).1 with
  | nil => exact ⟨_, rfl⟩
  | cons action actions =>
    have hmem : action ∈ actionsOf f (e.aim horizontal value).1 := hactions ▸ List.mem_cons_self
    obtain ⟨t, ht, rfl, -⟩ := exists_of_mem_actionsOf hmem
    refine ⟨true, ?_⟩
    rw [holds_of_mem hnodup (hheld t ht).2, ← hactions]
    refine follow_moves fun a ha ↦ ?_
    obtain ⟨t', ht', -, rfl⟩ := exists_of_mem_actionsOf ha
    exact (hheld t' ht').1

theorem finger_mem_of_mem_react (event : EngineEvent) {t : SyntheticTouch}
    (ht : t ∈ (e.react event).1) : t.finger ∈ e.touchmap.fingers := by
  have hbutton : ∀ {code pressed}, t ∈ e.button code pressed → t.finger ∈ e.touchmap.fingers := by
    intro code pressed ht
    rcases e.button_cases code pressed with h | ⟨c, hc, -, h⟩ <;> rw [h] at ht
    · cases ht
    · rw [List.mem_singleton.mp ht]
      exact mem_fingers_of_mem_contacts (mem_contacts_of_control hc)
  have hsteer : ∀ {horizontal value}, t ∈ (e.steer horizontal value).1 →
      t.finger ∈ e.touchmap.fingers := by
    intro horizontal value ht
    cases hwalk : e.walk with
    | none => simp [steer, hwalk] at ht
    | some w =>
      simp only [steer, hwalk] at ht
      rw [Contact.finger_of_mem_walkTouches _ t ht]
      change w.control.finger ∈ e.touchmap.fingers
      exact mem_fingers_of_mem_contacts (mem_contacts_of_walk hwalk)
  have haim : ∀ {horizontal value}, t ∈ (e.aim horizontal value).1 →
      t.finger ∈ e.touchmap.fingers := by
    intro horizontal value ht
    obtain ⟨c, hc, rfl⟩ := List.mem_map.mp ht
    obtain ⟨k, hk, rfl⟩ := List.mem_map.mp (List.mem_filter.mp hc).1
    rw [Contact.control_aim]
    exact mem_fingers_of_mem_contacts (mem_contacts_of_control hk)
  cases event with
  | axis axis value =>
    cases axis with
    | leftX | leftY => exact hsteer ht
    | rightX | rightY => exact haim ht
    | triggerLeft | triggerRight => exact hbutton ht
  | button code pressed => exact hbutton ht
  | releaseAll =>
    have hf := List.mem_map_of_mem (f := (·.finger)) ht
    change t.finger ∈ e.releaseAll.1.map (·.finger) at hf
    rw [map_finger_releaseAll] at hf
    rw [← map_fst_contacts]
    exact (List.filter_sublist.map Prod.fst).subset hf

theorem fits_axis (h : e.touchmap.fingers.Nodup) (axis : ControllerAxis) (value : Int16) :
    (e.axis axis value).2.Fits [] (e.axis axis value).1 := by
  cases axis with
  | leftX => exact fits_steer h true value
  | leftY => exact fits_steer h false value
  | rightX => exact fits_aim h true value
  | rightY => exact fits_aim h false value
  | triggerLeft => exact fits_button h ⟨25⟩ (triggerPressed value)
  | triggerRight => exact fits_button h ⟨26⟩ (triggerPressed value)

end TouchmapEngine

end InputRelay
