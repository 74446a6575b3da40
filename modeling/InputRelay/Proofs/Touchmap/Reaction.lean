import InputRelay.Proofs.Touchmap.Contacts
import InputRelay.Proofs.Touchmap.Table

namespace InputRelay

inductive EngineEvent
  | axis (axis : ControllerAxis) (value : Int16)
  | button (code : ButtonCode) (pressed : Bool)
  | releaseAll
deriving DecidableEq, Repr

theorem Point.deflectAxis_idem (p : Point) (horizontal : Bool) (center : Point) (value : Int16)
    (radius : Int32) :
    (p.deflectAxis horizontal center value radius).deflectAxis horizontal center value radius =
      p.deflectAxis horizontal center value radius := by
  cases horizontal <;> rfl

theorem Contact.aim_idem (c : Contact Control) (horizontal : Bool) (value : Int16) :
    (c.aim horizontal value).aim horizontal value = c.aim horizontal value := by
  by_cases h : c.isAiming = true
  · have h' : (c.aim horizontal value).isAiming = true := by
      simpa [isAiming, held_aim, control_aim] using h
    rw [aim, if_pos h', control_aim]
    simp only [aim, if_pos h, Point.deflectAxis_idem]
  · simp only [aim, if_neg h]

namespace TouchmapEngine

def react (e : TouchmapEngine) : EngineEvent → List SyntheticTouch × TouchmapEngine
  | .axis axis value => e.axis axis value
  | .button code pressed => (e.button code pressed, e)
  | .releaseAll => e.releaseAll

@[simp] theorem touchmap_react (e : TouchmapEngine) (event : EngineEvent) :
    (e.react event).2.touchmap = e.touchmap := by
  cases event with
  | axis axis value => exact e.touchmap_axis axis value
  | button code pressed => rfl
  | releaseAll => exact e.touchmap_releaseAll

theorem contacts_react (e : TouchmapEngine) {event : EngineEvent} (h : event ≠ .releaseAll) :
    (e.react event).2.contacts = e.contacts := by
  cases event with
  | axis axis value => exact e.contacts_axis axis value
  | button code pressed => rfl
  | releaseAll => exact absurd rfl h

theorem holds_react (e : TouchmapEngine) {event : EngineEvent} (h : event ≠ .releaseAll)
    (f : PointerId) : (e.react event).2.holds f = e.holds f := by
  unfold holds
  rw [contacts_react e h]

theorem holds_releaseAll (e : TouchmapEngine) (f : PointerId) :
    e.releaseAll.2.holds f = false :=
  holds_eq_false e.contacts_releaseAll f

theorem steer_steer (e : TouchmapEngine) (horizontal : Bool) (value : Int16) :
    ((e.steer horizontal value).2.steer horizontal value).1 = (e.steer horizontal value).1 := by
  obtain ⟨_ | w, controls⟩ := e
  · rfl
  · simp only [steer, Point.deflectAxis_idem]

theorem aim_aim (e : TouchmapEngine) (horizontal : Bool) (value : Int16) :
    ((e.aim horizontal value).2.aim horizontal value).1 = (e.aim horizontal value).1 := by
  simp [aim, Function.comp_def, Contact.aim_idem]

/-- What was proposed and not committed is proposed again when the event comes again. -/
theorem react_react (e : TouchmapEngine) {event : EngineEvent} (h : event ≠ .releaseAll) :
    ((e.react event).2.react event).1 = (e.react event).1 := by
  cases event with
  | axis axis value =>
    cases axis with
    | leftX | leftY => exact e.steer_steer _ value
    | rightX | rightY => exact e.aim_aim _ value
    | triggerLeft | triggerRight => rfl
  | button code pressed => rfl
  | releaseAll => exact absurd rfl h

theorem mem_releaseAll {e : TouchmapEngine} {f : PointerId} (h : (f, true) ∈ e.contacts) :
    ∃ center, ⟨f, .up, center⟩ ∈ e.releaseAll.1 := by
  obtain ⟨walk, controls⟩ := e
  simp only [contacts, List.mem_append, List.mem_map, Option.mem_toList, Prod.mk.injEq] at h
  obtain ⟨w, hw, rfl, hh⟩ | ⟨c, hc, rfl, hh⟩ := h
  · exact ⟨w.control.center, List.mem_append_left _ (by simp [Option.mem_def.mp hw, hh])⟩
  · exact ⟨c.control.center, List.mem_append_right _ (List.mem_map.mpr ⟨c, by simp [hc, hh], rfl⟩)⟩

theorem action_of_mem_releaseAll {e : TouchmapEngine} {t : SyntheticTouch}
    (h : t ∈ e.releaseAll.1) : t.action = .up := by
  rcases List.mem_append.mp h with h | h
  all_goals
    obtain ⟨c, -, rfl⟩ := List.mem_map.mp h
    rfl

theorem map_finger_releaseAll (e : TouchmapEngine) :
    e.releaseAll.1.map (·.finger) = (e.contacts.filter (·.2)).map Prod.fst := by
  obtain ⟨walk, controls⟩ := e
  simp [releaseAll, contacts, List.filter_map, Function.comp_def]

theorem button_of_lookup? {e : TouchmapEngine} {code : ButtonCode} {i : ℕ} {k : Control}
    (h : e.touchmap.lookup? code = some (i, k)) :
    ∃ c, e.controls[i]? = some c ∧ c.control = k ∧ ∀ pressed, e.button code pressed =
      if c.held = pressed then [] else [⟨k.finger, if pressed then .down else .up, k.center⟩] := by
  obtain ⟨-, hk, -⟩ := Touchmap.getElem?_of_lookup? h
  rw [touchmap, List.getElem?_map, Option.map_eq_some_iff] at hk
  obtain ⟨c, hc, rfl⟩ := hk
  exact ⟨c, hc, rfl, fun pressed ↦ by simp [button, h, hc]⟩

theorem button_cases (e : TouchmapEngine) (code : ButtonCode) (pressed : Bool) :
    e.button code pressed = [] ∨ ∃ c ∈ e.controls, c.held ≠ pressed ∧ e.button code pressed =
      [⟨c.control.finger, if pressed then .down else .up, c.control.center⟩] := by
  cases h : e.touchmap.lookup? code with
  | none => exact Or.inl (by simp [button, h])
  | some found =>
    obtain ⟨c, hc, hcontrol, hbutton⟩ := button_of_lookup? (i := found.1) (k := found.2) h
    rw [hbutton, ← hcontrol]
    split
    · exact Or.inl rfl
    · rename_i hheld
      exact Or.inr ⟨c, List.mem_of_getElem? hc, hheld, rfl⟩

/-- The engines that a map's engine can become when it is driven and any part of the touches that
each event proposes is committed, in order, before the next event. -/
inductive Driven (m : Touchmap) : List EngineEvent → TouchmapEngine → Prop
  | start : Driven m [] (ofTouchmap m)
  | react {events : List EngineEvent} {e : TouchmapEngine} {taken : List SyntheticTouch}
      (event : EngineEvent) : Driven m events e → taken.Sublist (e.react event).1 →
      Driven m (events ++ [event]) (taken.foldl commit (e.react event).2)

theorem touchmap_foldl_commit (e : TouchmapEngine) (taken : List SyntheticTouch) :
    (taken.foldl commit e).touchmap = e.touchmap := by
  induction taken generalizing e with
  | nil => rfl
  | cons t taken ih => exact (ih (e.commit t)).trans (e.touchmap_commit t)

theorem holds_foldl_commit_lifts {e : TouchmapEngine} {taken : List SyntheticTouch}
    (htaken : ∀ t ∈ taken, t.action = .up) (h : ∀ f, e.holds f = false) (f : PointerId) :
    (taken.foldl commit e).holds f = false := by
  induction taken generalizing e with
  | nil => exact h f
  | cons t taken ih =>
    refine ih (fun u hu ↦ htaken u (List.mem_cons_of_mem t hu)) fun g ↦ ?_
    have hg := h g
    unfold holds at hg ⊢
    rw [lookup_commit]
    split
    · rw [htaken t List.mem_cons_self]
      cases e.contacts.lookup g <;> rfl
    · exact hg

theorem Driven.touchmap_eq {m : Touchmap} {events : List EngineEvent} {e : TouchmapEngine}
    (h : Driven m events e) : e.touchmap = m := by
  induction h with
  | start => exact touchmap_ofTouchmap m
  | react event h ht ih => exact (touchmap_foldl_commit _ _).trans ((touchmap_react _ _).trans ih)

end TouchmapEngine

end InputRelay
