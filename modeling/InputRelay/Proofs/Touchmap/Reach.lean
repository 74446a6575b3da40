import InputRelay.Proofs.Touchmap.Deflection

namespace InputRelay

def EngineEvent.InScale : EngineEvent → Prop
  | .axis _ value => WithinScale value
  | _ => True

instance : DecidablePred EngineEvent.InScale
  | .axis _ value => inferInstanceAs (Decidable (WithinScale value))
  | .button _ _ => .isTrue trivial
  | .releaseAll => .isTrue trivial

theorem EngineEvent.InScale.getD_value? {event : EngineEvent} (h : event.InScale)
    (axis : ControllerAxis) {value : Int16} (hvalue : WithinScale value) :
    WithinScale ((event.value? axis).getD value) := by
  cases event with
  | axis a v =>
    rw [value?]
    split
    · exact h
    · exact hvalue
  | button code pressed => exact hvalue
  | releaseAll => exact hvalue

namespace WalkControl

variable {w : WalkControl} {p : Point}

/-- Some stick values within the scale deflect the walk control to the point. -/
def Reaches (w : WalkControl) (p : Point) : Prop :=
  ∃ x y, WithinScale x ∧ WithinScale y ∧ p = w.target x y

theorem reaches_center (w : WalkControl) : w.Reaches w.center :=
  ⟨0, 0, by decide, by decide, w.target_zero.symm⟩

theorem natAbs_radius_le (h : w.radius ≠ Int32.minValue) :
    w.radius.toInt.natAbs ≤ 2 ^ 31 - 1 := by
  have hlt := w.radius.toInt_lt
  have hle := w.radius.le_toInt
  have hne : w.radius.toInt ≠ -2 ^ 31 := fun heq ↦ h (Int32.toInt_inj.mp heq)
  omega

theorem Reaches.squaredDistance_lt (h : w.Reaches p) (hradius : w.radius ≠ Int32.minValue) :
    p.squaredDistance w.center < 2 ^ 63 := by
  obtain ⟨x, y, hx, hy, rfl⟩ := h
  have hbound := natAbs_radius_le hradius
  have hsquare : ∀ d : ℤ, d.natAbs ≤ w.radius.toInt.natAbs → d ^ 2 ≤ (2 ^ 31 - 1) ^ 2 := by
    intro d hd
    refine sq_le_sq' ?_ ?_ <;> omega
  -- twice the square of `2 ^ 31 - 1` is just below the bound, which twice that of `2 ^ 31` meets
  have hdx := hsquare _ (hx.natAbs_deflect_sub_le w.center.x w.radius)
  have hdy := hsquare _ (hy.natAbs_deflect_sub_le w.center.y w.radius)
  simp only [Point.squaredDistance, target]
  omega

end WalkControl

namespace TouchmapEngine

/-- A map's engine after the events, told of any of the touches that it proposed so far: at once or
later, in any order, more than once or never. -/
inductive Told (m : Touchmap) : List EngineEvent → List SyntheticTouch → TouchmapEngine → Prop
  | start : Told m [] [] (ofTouchmap m)
  | event {events : List EngineEvent} {proposed : List SyntheticTouch} {e : TouchmapEngine}
      (event : EngineEvent) : Told m events proposed e →
      Told m (events ++ [event]) (proposed ++ (e.react event).1) (e.react event).2
  | commit {events : List EngineEvent} {proposed : List SyntheticTouch} {e : TouchmapEngine}
      {t : SyntheticTouch} : Told m events proposed e → t ∈ proposed →
      Told m events proposed (e.commit t)

variable {m : Touchmap} {w : WalkControl} {events : List EngineEvent}
  {proposed : List SyntheticTouch} {e : TouchmapEngine}

theorem Told.touchmap_eq (h : Told m events proposed e) : e.touchmap = m := by
  induction h with
  | start => exact touchmap_ofTouchmap m
  | event event h ih => exact (touchmap_react _ _).trans ih
  | commit h ht ih => exact (touchmap_commit _ _).trans ih

/-- The walk control is within reach, and so are its downs that may still be committed. -/
structure InReach (w : WalkControl) (proposed : List SyntheticTouch) (e : TouchmapEngine) :
    Prop where
  point : ∃ p held, e.walk = some ⟨w, p, held⟩ ∧ w.Reaches p
  downs : ∀ t ∈ proposed, t.finger = w.finger → t.action = .down → w.Reaches t.point

theorem InReach.start (hw : m.walk = some w) : InReach w [] (ofTouchmap m) := by
  refine ⟨⟨w.center, false, ?_, w.reaches_center⟩, by simp⟩
  simp [ofTouchmap, hw]

theorem InReach.react (h : InReach w proposed e)
    (hw : w.finger ∉ e.controls.map (·.control.finger)) {event : EngineEvent}
    (hevent : event.InScale) :
    InReach w (proposed ++ (e.react event).1) (e.react event).2 := by
  obtain ⟨⟨p, held, he, x, y, hx, hy, rfl⟩, hdowns⟩ := h
  obtain ⟨held', he', hproposed⟩ := walk_react he hw event
  have hreaches := hevent.getD_value? .leftX hx
  have hreaches' := hevent.getD_value? .leftY hy
  refine ⟨⟨_, held', he', _, _, hreaches, hreaches', rfl⟩, fun t ht hfinger hdown ↦ ?_⟩
  rcases List.mem_append.mp ht with ht | ht
  · exact hdowns t ht hfinger hdown
  · exact ⟨_, _, hreaches, hreaches', hproposed t ht hfinger hdown⟩

theorem InReach.commit (h : InReach w proposed e) {t : SyntheticTouch} (ht : t ∈ proposed) :
    InReach w proposed (e.commit t) := by
  obtain ⟨⟨p, held, he, hp⟩, hdowns⟩ := h
  refine ⟨?_, hdowns⟩
  rw [walk_commit, he]
  by_cases hfinger : w.finger = t.finger
  · cases haction : t.action with
    | down =>
      refine ⟨t.point, true, ?_, hdowns t ht hfinger.symm haction⟩
      simp [hfinger, Contact.commit, haction]
    | up => exact ⟨p, false, by simp [hfinger, Contact.commit, haction], hp⟩
    | move => exact ⟨p, held, by simp [Contact.commit, haction], hp⟩
  · exact ⟨p, held, by simp [hfinger], hp⟩

theorem Told.inReach (hw : m.walk = some w) (hm : m.fingers.Nodup)
    (h : Told m events proposed e) (hscale : ∀ event ∈ events, event.InScale) :
    InReach w proposed e := by
  induction h with
  | start => exact .start hw
  | event event h ih =>
    have hevents := ih fun event' h' ↦ hscale event' (List.mem_append_left _ h')
    exact hevents.react (walk_not_mem_controls hw hm h.touchmap_eq) (hscale event (by simp))
  | commit h ht ih => exact (ih hscale).commit ht

theorem axis_of_reaches {p : Point} {held : Bool} (he : e.walk = some ⟨w, p, held⟩)
    (hp : w.Reaches p) {axis : ControllerAxis} (haxis : axis = .leftX ∨ axis = .leftY)
    {value : Int16} (hvalue : WithinScale value) :
    ∃ q, w.Reaches q ∧ e.axis axis value =
      ((⟨w, q, held⟩ : Contact WalkControl).walkTouches, { e with walk := some ⟨w, q, held⟩ }) := by
  obtain ⟨x, y, hx, hy, rfl⟩ := hp
  rcases haxis with rfl | rfl
  · refine ⟨w.target value y, ⟨value, y, hvalue, hy, rfl⟩, ?_⟩
    simp [TouchmapEngine.axis, steer, he, WalkControl.deflectAxis_target]
  · refine ⟨w.target x value, ⟨x, value, hx, hvalue, rfl⟩, ?_⟩
    simp [TouchmapEngine.axis, steer, he, WalkControl.deflectAxis_target]

/-- While the sticks keep to their scale, a left stick event compares the exact squared distance
with the dead zone: no step on the way to it leaves 64 bits, whatever was lost or committed late. -/
theorem walk_distance_exact (hw : m.walk = some w) (hm : m.fingers.Nodup)
    (hradius : w.radius ≠ Int32.minValue) (h : Told m events proposed e)
    (hscale : ∀ event ∈ events, event.InScale) {axis : ControllerAxis}
    (haxis : axis = .leftX ∨ axis = .leftY) {value : Int16} (hvalue : WithinScale value) :
    ∃ p held, e.axis axis value = ((⟨w, p, held⟩ : Contact WalkControl).walkTouches,
        { e with walk := some ⟨w, p, held⟩ }) ∧
      let dx := p.x.toInt64 - w.center.x.toInt64
      let dy := p.y.toInt64 - w.center.y.toInt64
      (dx.toInt = p.x.toInt - w.center.x.toInt ∧ dy.toInt = p.y.toInt - w.center.y.toInt) ∧
      ((dx * dx).toInt = (p.x.toInt - w.center.x.toInt) ^ 2 ∧
        (dy * dy).toInt = (p.y.toInt - w.center.y.toInt) ^ 2) ∧
      (p.distanceSquared w.center).toInt = p.squaredDistance w.center ∧
      p.squaredDistance w.center < 2 ^ 63 := by
  obtain ⟨⟨p, held, he, hp⟩, -⟩ := h.inReach hw hm hscale
  obtain ⟨q, hq, hevent⟩ := axis_of_reaches he hp haxis hvalue
  have hlt := hq.squaredDistance_lt hradius
  have hx := sq_nonneg (q.x.toInt - w.center.x.toInt)
  have hy := sq_nonneg (q.y.toInt - w.center.y.toInt)
  refine ⟨q, held, hevent, ⟨toInt_sub_toInt64 _ _, toInt_sub_toInt64 _ _⟩,
    ⟨toInt_sub_mul_self ?_, toInt_sub_mul_self ?_⟩, Point.toInt_distanceSquared hlt, hlt⟩
  · rw [Point.squaredDistance] at hlt
    omega
  · rw [Point.squaredDistance] at hlt
    omega

theorem walk_distance_exact_farthest :
    let w : WalkControl := ⟨⟨0, 0⟩, 0x7fffffff, ⟨100⟩⟩
    let m : Touchmap := ⟨some w, [⟨ControllerButton.a.code, ⟨10, 10⟩, .button, ⟨101⟩⟩]⟩
    let events : List EngineEvent := [.axis .leftX 32767, .axis .leftX 3]
    let e := ((((ofTouchmap m).axis .leftX 32767).2.axis .leftX 3).2).commit
      ⟨⟨100⟩, .down, ⟨0x7fffffff, 0⟩⟩
    (m.walk = some w ∧ m.fingers.Nodup ∧ w.radius ≠ Int32.minValue ∧
      (∃ proposed, Told m events proposed e) ∧ (∀ event ∈ events, event.InScale) ∧
      WithinScale (-32767)) ∧
    ((e.axis .leftY (-32767)).2.walk.map fun c ↦
      (c.point, (c.point.distanceSquared w.center).toInt)) =
        some (⟨0x7fffffff, -0x7fffffff⟩, 2 * (2 ^ 31 - 1) ^ 2) := by
  intro w m events e
  have hm : m.fingers.Nodup := by decide
  have hradius : w.radius ≠ Int32.minValue := by decide
  have hscale : ∀ event ∈ events, event.InScale := by decide
  have hvalue : WithinScale (-32767) := by decide
  have htold : ∃ proposed, Told m events proposed e :=
    ⟨_, .commit (.event (.axis .leftX 3) (.event (.axis .leftX 32767) .start)) (by decide)⟩
  obtain ⟨proposed, h⟩ := htold
  obtain ⟨p, held, hevent, -, -, hexact, -⟩ :=
    walk_distance_exact rfl hm hradius h hscale (Or.inr rfl) hvalue
  refine ⟨⟨rfl, hm, hradius, ⟨proposed, h⟩, hscale, hvalue⟩, ?_⟩
  have hpoint : (e.axis .leftY (-32767)).2.walk.map (·.point) =
      some ⟨0x7fffffff, -0x7fffffff⟩ := by decide
  rw [hevent] at hpoint ⊢
  obtain rfl := Option.some_inj.mp hpoint
  exact congrArg (fun d ↦ some (_, d)) hexact

example : (WalkControl.target ⟨⟨0, 0⟩, -0x80000000, ⟨100⟩⟩ 32767 32767).distanceSquared ⟨0, 0⟩ <
    walkDeadZone := by
  decide

end TouchmapEngine

end InputRelay
