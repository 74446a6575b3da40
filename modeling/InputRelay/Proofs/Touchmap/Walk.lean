import InputRelay.Proofs.Touchmap.Reaction
import Mathlib.Tactic.Linarith
import Mathlib.Tactic.Ring

namespace InputRelay

def EngineEvent.value? (axis : ControllerAxis) : EngineEvent → Option Int16
  | .axis a value => if a = axis then some value else none
  | _ => none

/-- The last value that was reported for an axis, zero before there was one. -/
def EngineEvent.latest (axis : ControllerAxis) (events : List EngineEvent) : Int16 :=
  (events.filterMap (value? axis)).getLast?.getD 0

theorem EngineEvent.latest_append (axis : ControllerAxis) (events : List EngineEvent)
    (event : EngineEvent) :
    latest axis (events ++ [event]) = (event.value? axis).getD (latest axis events) := by
  cases h : event.value? axis <;> simp [latest, h]

def Point.squaredDistance (p q : Point) : ℤ :=
  (p.x.toInt - q.x.toInt) ^ 2 + (p.y.toInt - q.y.toInt) ^ 2

def WalkControl.target (w : WalkControl) (x y : Int16) : Point :=
  ⟨deflect w.center.x x w.radius, deflect w.center.y y w.radius⟩

theorem deflect_zero (center radius : Int32) : deflect center 0 radius = center := by
  simp [deflect]

theorem WalkControl.target_zero (w : WalkControl) : w.target 0 0 = w.center := by
  simp [target, deflect_zero]

theorem toInt_sub_toInt64 (a b : Int32) : (a.toInt64 - b.toInt64).toInt = a.toInt - b.toInt := by
  have ha := a.toInt_lt
  have ha' := a.le_toInt
  have hb := b.toInt_lt
  have hb' := b.le_toInt
  rw [Int64.toInt_sub, Int32.toInt_toInt64, Int32.toInt_toInt64, Int.bmod_eq_of_le] <;> omega

theorem toInt_sub_mul_self {a b : Int32} (h : (a.toInt - b.toInt) ^ 2 < 2 ^ 63) :
    ((a.toInt64 - b.toInt64) * (a.toInt64 - b.toInt64)).toInt = (a.toInt - b.toInt) ^ 2 := by
  have hnonneg := sq_nonneg (a.toInt - b.toInt)
  rw [Int64.toInt_mul, toInt_sub_toInt64, ← sq, Int.bmod_eq_of_le] <;> omega

theorem Point.toInt_distanceSquared {p q : Point} (h : p.squaredDistance q < 2 ^ 63) :
    (p.distanceSquared q).toInt = p.squaredDistance q := by
  have hx := sq_nonneg (p.x.toInt - q.x.toInt)
  have hy := sq_nonneg (p.y.toInt - q.y.toInt)
  rw [squaredDistance] at h ⊢
  simp only [distanceSquared, Int64.toInt_add]
  rw [toInt_sub_mul_self, toInt_sub_mul_self, Int.bmod_eq_of_le] <;> omega

theorem Point.distanceSquared_lt_walkDeadZone {p q : Point} (h : p.squaredDistance q < 2 ^ 63) :
    p.distanceSquared q < walkDeadZone ↔ p.squaredDistance q < 25 := by
  rw [Int64.lt_iff_toInt_lt, toInt_distanceSquared h]
  rfl

theorem WalkControl.deflectAxis_target (w : WalkControl) (x y value : Int16) (horizontal : Bool) :
    (w.target x y).deflectAxis horizontal w.center value w.radius =
      if horizontal then w.target value y else w.target x value := by
  cases horizontal <;> rfl

namespace TouchmapEngine

theorem walk_commit (e : TouchmapEngine) (t : SyntheticTouch) :
    (e.commit t).walk =
      e.walk.map fun c ↦ if c.control.finger = t.finger then c.commit t else c := by
  obtain ⟨_ | w, controls⟩ := e
  · rfl
  · by_cases hw : w.control.finger = t.finger <;> simp [commit, hw]

theorem walk_foldl_commit {w : WalkControl} {p : Point} {taken : List SyntheticTouch}
    (ht : ∀ t ∈ taken, t.finger = w.finger → t.action = .down → t.point = p)
    {e : TouchmapEngine} {held : Bool} (he : e.walk = some ⟨w, p, held⟩) :
    ∃ held, (taken.foldl commit e).walk = some ⟨w, p, held⟩ := by
  induction taken generalizing e held with
  | nil => exact ⟨held, he⟩
  | cons t taken ih =>
    have hwalk : ∃ held, (e.commit t).walk = some ⟨w, p, held⟩ := by
      rw [walk_commit, he]
      by_cases hf : w.finger = t.finger
      · have hdown := ht t (by simp) hf.symm
        cases ha : t.action <;> simp_all [Contact.commit]
      · simp [hf]
    obtain ⟨held', hheld⟩ := hwalk
    exact ih (fun t' ht' ↦ ht t' (by simp [ht'])) hheld

theorem finger_mem_of_mem_button {e : TouchmapEngine} {code : ButtonCode} {pressed : Bool}
    {t : SyntheticTouch} (ht : t ∈ e.button code pressed) :
    t.finger ∈ e.controls.map (·.control.finger) := by
  rcases e.button_cases code pressed with h | ⟨c, hc, -, h⟩ <;> rw [h] at ht
  · cases ht
  · rw [List.mem_singleton.mp ht]
    exact List.mem_map_of_mem hc

theorem action_of_mem_aim {e : TouchmapEngine} {horizontal : Bool} {value : Int16}
    {t : SyntheticTouch} (ht : t ∈ (e.aim horizontal value).1) : t.action = .move := by
  obtain ⟨c, -, rfl⟩ := List.mem_map.mp ht
  rfl

theorem point_of_mem_walkTouches {c : Contact WalkControl} {t : SyntheticTouch}
    (ht : t ∈ c.walkTouches) (hdown : t.action = .down) : t.point = c.point := by
  unfold Contact.walkTouches at ht
  split_ifs at ht <;> simp only [List.mem_cons, List.not_mem_nil, or_false] at ht
  · subst t
    cases hdown
  · subst t
    cases hdown
  · rcases ht with rfl | rfl
    · rfl
    · cases hdown

/-- A stick event moves the walk control to the target of the latest stick values, and every other
event leaves it where it is. -/
theorem walk_react {e : TouchmapEngine} {w : WalkControl} {x y : Int16} {held : Bool}
    (he : e.walk = some ⟨w, w.target x y, held⟩) (hw : w.finger ∉ e.controls.map (·.control.finger))
    (event : EngineEvent) :
    ∃ held, (e.react event).2.walk = some ⟨w, w.target ((event.value? .leftX).getD x)
        ((event.value? .leftY).getD y), held⟩ ∧
      ∀ t ∈ (e.react event).1, t.finger = w.finger → t.action = .down →
        t.point = w.target ((event.value? .leftX).getD x) ((event.value? .leftY).getD y) := by
  have hbutton : ∀ code pressed, ∀ t ∈ e.button code pressed, t.finger ≠ w.finger :=
    fun _ _ _ ht hf ↦ hw (hf ▸ finger_mem_of_mem_button ht)
  cases event with
  | axis axis value =>
    cases axis with
    | leftX | leftY =>
      refine ⟨held, ?_, fun t ht _ hdown ↦ ?_⟩
      · simp [react, TouchmapEngine.axis, steer, he, WalkControl.deflectAxis_target,
          EngineEvent.value?]
      · simp only [react, TouchmapEngine.axis, steer, he, WalkControl.deflectAxis_target] at ht
        simpa [EngineEvent.value?] using point_of_mem_walkTouches ht hdown
    | rightX | rightY =>
      refine ⟨held, he, fun t ht _ hdown ↦ ?_⟩
      cases (action_of_mem_aim ht).symm.trans hdown
    | triggerLeft => exact ⟨held, he, fun t ht hf _ ↦ absurd hf (hbutton ⟨25⟩ _ t ht)⟩
    | triggerRight => exact ⟨held, he, fun t ht hf _ ↦ absurd hf (hbutton ⟨26⟩ _ t ht)⟩
  | button code pressed => exact ⟨held, he, fun t ht hf _ ↦ absurd hf (hbutton _ _ t ht)⟩
  | releaseAll =>
    refine ⟨false, by simp [react, releaseAll, he, EngineEvent.value?], fun t ht _ hdown ↦ ?_⟩
    cases (action_of_mem_releaseAll ht).symm.trans hdown

theorem walk_not_mem_controls {m : Touchmap} {w : WalkControl} (hw : m.walk = some w)
    (hm : m.fingers.Nodup) {e : TouchmapEngine} (he : e.touchmap = m) :
    w.finger ∉ e.controls.map (·.control.finger) := by
  subst m
  intro hmem
  have hdisjoint := List.disjoint_of_nodup_append hm
  refine hdisjoint (a := w.finger) (by simp [hw]) ?_
  simpa [touchmap, Function.comp_def] using hmem

theorem Driven.walk_eq {m : Touchmap} {w : WalkControl} (hw : m.walk = some w)
    (hm : m.fingers.Nodup) {events : List EngineEvent} {e : TouchmapEngine}
    (h : Driven m events e) :
    ∃ held, e.walk = some ⟨w, w.target (EngineEvent.latest .leftX events)
      (EngineEvent.latest .leftY events), held⟩ := by
  induction h with
  | start =>
    refine ⟨false, ?_⟩
    simp [ofTouchmap, hw, EngineEvent.latest, WalkControl.target_zero]
  | react event h ht ih =>
    obtain ⟨held, he⟩ := ih
    obtain ⟨held', he', hpoint⟩ :=
      walk_react he (walk_not_mem_controls hw hm h.touchmap_eq) event
    simp only [EngineEvent.latest_append]
    exact walk_foldl_commit (fun t htaken ↦ hpoint t (ht.subset htaken)) he'

theorem held_foldl_walkTouches (e : TouchmapEngine) {c : Contact WalkControl}
    (hc : c.point.squaredDistance c.control.center < 2 ^ 63) :
    (c.walkTouches.foldl commit { e with walk := some c }).walk.any (·.held) = true ↔
      25 ≤ c.point.squaredDistance c.control.center := by
  have hnear := Point.distanceSquared_lt_walkDeadZone hc
  unfold Contact.walkTouches
  by_cases hz : c.point.distanceSquared c.control.center < walkDeadZone
  · have hlt := hnear.mp hz
    cases hh : c.held <;> simp [hz, hh, walk_commit, Contact.commit, hlt]
  · have hge := not_lt.mp (mt hnear.mpr hz)
    cases hh : c.held <;> simp [hz, hh, walk_commit, Contact.commit, hge]

/-- What a left stick event proposes follows from the latest stick values and from whether the
walk contact is held, whatever came before and was lost. When all of it is committed, the contact
is held outside of the dead zone and not inside of it. The fingers of a map are distinct because
its builder hands out each only once. -/
theorem walk_memoryless {m : Touchmap} {w : WalkControl} (hw : m.walk = some w)
    (hm : m.fingers.Nodup) {events : List EngineEvent} {e : TouchmapEngine}
    (h : Driven m events e) {axis : ControllerAxis} (haxis : axis = .leftX ∨ axis = .leftY)
    (value : Int16) {p : Point}
    (hp : p = w.target (EngineEvent.latest .leftX (events ++ [.axis axis value]))
      (EngineEvent.latest .leftY (events ++ [.axis axis value])))
    (hfit : p.squaredDistance w.center < 2 ^ 63) :
    (e.axis axis value).1 =
      (if p.squaredDistance w.center < 25 then
        if e.walk.any (·.held) then [⟨w.finger, .up, w.center⟩] else []
      else if e.walk.any (·.held) then [⟨w.finger, .move, p⟩]
      else [⟨w.finger, .down, p⟩, ⟨w.finger, .move, p⟩]) ∧
    (((e.axis axis value).1.foldl commit (e.axis axis value).2).walk.any (·.held) = true ↔
      25 ≤ p.squaredDistance w.center) := by
  obtain ⟨held, he⟩ := h.walk_eq hw hm
  have haxis' : e.axis axis value = ((⟨w, p, held⟩ : Contact WalkControl).walkTouches,
      { e with walk := some ⟨w, p, held⟩ }) := by
    rw [EngineEvent.latest_append, EngineEvent.latest_append] at hp
    rcases haxis with rfl | rfl <;>
      simp [TouchmapEngine.axis, steer, he, WalkControl.deflectAxis_target, hp, EngineEvent.value?]
  rw [haxis']
  refine ⟨?_, held_foldl_walkTouches e hfit⟩
  simp only [Contact.walkTouches, Point.distanceSquared_lt_walkDeadZone hfit, he, Option.any_some]

theorem walk_memoryless_edge :
    let m : Touchmap :=
      ⟨some ⟨⟨0, 0⟩, 32767, ⟨100⟩⟩, [⟨ControllerButton.a.code, ⟨10, 10⟩, .button, ⟨101⟩⟩]⟩
    let e := ((ofTouchmap m).axis .leftX 7).2
    let e' := (e.axis .leftX 3).2
    m.fingers.Nodup ∧ Driven m [.axis .leftX 7, .axis .leftX 3] e' ∧
      (e'.axis .leftY 4).1 = [⟨⟨100⟩, .down, ⟨3, 4⟩⟩, ⟨⟨100⟩, .move, ⟨3, 4⟩⟩] ∧
      ((e'.axis .leftY 4).1.foldl commit (e'.axis .leftY 4).2).walk.any (·.held) = true := by
  intro m e e'
  have hm : m.fingers.Nodup := by decide
  have h : Driven m [.axis .leftX 7, .axis .leftX 3] e' :=
    .react (.axis .leftX 3) (.react (.axis .leftX 7) .start (List.nil_sublist _))
      (List.nil_sublist _)
  have hwalk := walk_memoryless (m := m) rfl hm h (Or.inr rfl) 4 (p := ⟨3, 4⟩) (by decide)
    (by decide)
  exact ⟨hm, h, hwalk.1.trans (by decide), hwalk.2.mpr (by decide)⟩

end TouchmapEngine

end InputRelay
