import InputRelay.Proofs.Session.TouchStream

namespace InputRelay

/-- Nothing but touches of the given fingers, and nothing that concerns the virtual finger. -/
def Deed.Mapped (fingers : List PointerId) : Deed → Prop
  | .offer (.injectTouch _ finger ..) => finger ∈ fingers
  | .change .finger => False
  | _ => True

theorem Deed.Untouching.mapped {d : Deed} (h : d.Untouching) (fingers : List PointerId) :
    d.Mapped fingers := by
  rcases d with e | c | p
  · trivial
  · cases c <;> first | exact h.elim | trivial
  · cases p <;> first | exact h.elim | trivial

def Call.isMouse : Call → Bool
  | .event (.motion _) | .event (.click _) => true
  | _ => false

variable {κ : Type}

namespace Session

def touchmap (s : Session κ) : Option Touchmap :=
  s.engine.map (·.touchmap)

def mapped (s : Session κ) : List PointerId :=
  s.touchmap.elim [] (·.fingers)

theorem mapped_of_engine {s : Session κ} {e : TouchmapEngine} (h : s.engine = some e) :
    s.mapped = e.touchmap.fingers := by
  simp [mapped, touchmap, h]

theorem touchmap_congr {s s' : Session κ} (h : s'.engine = s.engine) :
    s'.touchmap = s.touchmap := by
  rw [touchmap, h, touchmap]

theorem mapped_congr {s s' : Session κ} (h : s'.engine = s.engine) : s'.mapped = s.mapped := by
  rw [mapped, touchmap_congr h, mapped]

end Session

namespace Turn

open Deed

variable [CommandSink κ] (t : Turn κ)

theorem within_mapped_sendTouches {fingers : List PointerId} {touches : List SyntheticTouch}
    (h : ∀ u ∈ touches, u.finger ∈ fingers) (lost : List PointerId) :
    Within (Mapped fingers) t (t.sendTouches lost touches) :=
  t.within_sendTouches_of trivial (fun u hu _ _ ↦ h u hu) lost

theorem within_mapped_releaseContacts :
    Within (Mapped t.session.mapped) t t.releaseContacts := by
  unfold releaseContacts
  split
  · exact .refl t
  · rename_i engine hengine
    rw [Session.mapped_of_engine hengine]
    refine .trans (.one (.engine t _) trivial) (within_mapped_sendTouches _ ?_ [])
    intro u hu
    exact TouchmapEngine.finger_mem_of_mem_react .releaseAll hu

theorem within_mapped_loadTouchmap (path : String) :
    Within (Mapped t.session.mapped) t (t.loadTouchmap path).2 := by
  unfold loadTouchmap
  split
  · exact .refl t
  · rename_i map hmap
    exact t.within_mapped_releaseContacts.trans
      (.trans (.one (.engine _ (some (.ofTouchmap map))) trivial)
        (.one (.forwards _ false) trivial))

theorem within_mapped_unloadTouchmap : Within (Mapped t.session.mapped) t t.unloadTouchmap :=
  t.within_mapped_releaseContacts.trans
    (.trans (.one (.engine _ none) trivial) (.one (.forwards _ true) trivial))

theorem within_mapped_pickTouchmap : Within (Mapped t.session.mapped) t t.pickTouchmap := by
  unfold pickTouchmap
  split
  · exact .refl t
  · rename_i answers hanswers
    let asked : Turn κ :=
      { t with session.picker := some answers.tail }.emit (.pickFile answers.head?.join)
    have hask : Within (Mapped t.session.mapped) t asked :=
      .trans (.one (.picker t _) trivial) (within_emit _ rfl trivial)
    dsimp only
    split
    · exact hask
    · exact hask.trans (asked.within_mapped_loadTouchmap _)

theorem within_mapped_key (e : KeyEvent) : Within (Mapped t.session.mapped) t (t.key e) := by
  have hcount : Within Untouching t (t.countPress e) := t.within_countPress trivial e
  have hmapped : (t.countPress e).session.mapped = t.session.mapped :=
    Session.mapped_congr (hcount.same (p := .engine) id)
  have hcount := hcount.mono fun d hd ↦ hd.mapped t.session.mapped
  rcases t.key_cases e with h | h | h
  · exact h.mono fun d hd ↦ hd.mapped _
  · rw [h]
    exact hcount.trans (hmapped ▸ within_mapped_pickTouchmap _)
  · rw [h]
    exact hcount.trans (hmapped ▸ within_mapped_unloadTouchmap _)

theorem within_mapped_axis (e : AxisMotion) : Within (Mapped t.session.mapped) t (t.axis e) := by
  unfold axis
  split
  · exact t.within_push trivial
  split
  · exact .refl t
  · rename_i engine hengine
    rw [Session.mapped_of_engine hengine]
    refine .trans (.one (.engine t _) trivial) (within_mapped_sendTouches _ ?_ [])
    intro u hu
    exact TouchmapEngine.finger_mem_of_mem_react (.axis e.axis e.value) hu

theorem within_mapped_padButton (e : PadButton) :
    Within (Mapped t.session.mapped) t (t.padButton e) := by
  unfold padButton
  split
  · exact t.within_push trivial
  split
  · exact .refl t
  · rename_i engine hengine
    rw [Session.mapped_of_engine hengine]
    refine t.within_mapped_sendTouches ?_ []
    intro u hu
    exact TouchmapEngine.finger_mem_of_mem_react (.button _ _) hu

/-- What does not concern the mouse touches only what the loaded touchmap has. -/
theorem within_mapped_call {call : Call} (h : call.isMouse = false) :
    Within (Mapped t.session.mapped) t (t.call call) := by
  have hcall := t.handled_call call
  generalize t.call call = u at hcall ⊢
  cases hcall with
  | incidental hu => exact hu.mono fun d hd ↦ hd.1.mapped _
  | key e => exact t.within_mapped_key e
  | motion e | click e => cases h
  | axis e => exact t.within_mapped_axis e
  | padButton e => exact t.within_mapped_padButton e
  | load path => exact t.within_mapped_loadTouchmap path
  | unload => exact t.within_mapped_unloadTouchmap

theorem touchmap_sendTouches (lost : List PointerId) (touches : List SyntheticTouch) :
    (t.sendTouches lost touches).session.touchmap = t.session.touchmap := by
  obtain ⟨taken, -, hengine⟩ := t.exists_taken_sendTouches lost touches
  simp only [Session.touchmap, hengine, Option.map_map, Function.comp_def,
    TouchmapEngine.touchmap_foldl_commit]

theorem touchmap_axis (e : AxisMotion) : (t.axis e).session.touchmap = t.session.touchmap := by
  unfold axis
  split
  · obtain ⟨channel, -, hsession⟩ := t.push_session (.injectControllerAxis e)
    rw [hsession]
    rfl
  split
  · rfl
  · rename_i engine hengine
    rw [touchmap_sendTouches]
    simp [Session.touchmap, hengine, TouchmapEngine.touchmap_axis]

theorem touchmap_padButton (e : PadButton) :
    (t.padButton e).session.touchmap = t.session.touchmap := by
  unfold padButton
  split
  · obtain ⟨channel, -, hsession⟩ := t.push_session (.injectControllerButton e)
    rw [hsession]
    rfl
  split
  · rfl
  · exact t.touchmap_sendTouches _ _

inductive Remapped (disk : Disk) (before after : Option Touchmap) : Prop
  | same : after = before → Remapped disk before after
  | unloaded : after = none → Remapped disk before after
  | loaded {path : String} {map : Touchmap} :
      Touchmap.ofFile disk path = .ok map → after = some map → Remapped disk before after

theorem remapped_loadTouchmap (path : String) :
    Remapped t.session.disk t.session.touchmap (t.loadTouchmap path).2.session.touchmap := by
  unfold loadTouchmap
  split
  · exact .same rfl
  · rename_i map hmap
    exact .loaded hmap (by simp [Session.touchmap, TouchmapEngine.touchmap_ofTouchmap])

theorem remapped_pickTouchmap :
    Remapped t.session.disk t.session.touchmap t.pickTouchmap.session.touchmap := by
  unfold pickTouchmap
  split
  · exact .same rfl
  · rename_i answers hanswers
    let asked : Turn κ :=
      { t with session.picker := some answers.tail }.emit (.pickFile answers.head?.join)
    dsimp only
    split
    · exact .same rfl
    · exact asked.remapped_loadTouchmap _

theorem remapped_key (e : KeyEvent) :
    Remapped t.session.disk t.session.touchmap (t.key e).session.touchmap := by
  have hcount : Within Untouching t (t.countPress e) := t.within_countPress trivial e
  have htouchmap := Session.touchmap_congr (hcount.same (p := .engine) id)
  rcases t.key_cases e with h | h | h
  · exact .same (Session.touchmap_congr (h.same (p := .engine) id))
  · rw [h, ← htouchmap, ← hcount.settings_eq.2.1]
    exact remapped_pickTouchmap _
  · rw [h]
    exact .unloaded rfl

theorem remapped_call (call : Call) :
    Remapped t.session.disk t.session.touchmap (t.call call).session.touchmap := by
  have hpointing : ∀ {u : Turn κ}, Within Pointing t u →
      Remapped t.session.disk t.session.touchmap u.session.touchmap := by
    intro u hu
    exact .same (Session.touchmap_congr (hu.same (p := .engine) fun h ↦ h.2 rfl))
  have hcall := t.handled_call call
  generalize t.call call = u at hcall ⊢
  cases hcall with
  | incidental hu => exact hpointing (hu.mono Incidental.pointing)
  | key e => exact t.remapped_key e
  | motion e => exact hpointing ((t.within_motion e).mono Of.pointing)
  | click e => exact hpointing ((t.within_click e).mono Of.pointing)
  | axis e => exact .same (t.touchmap_axis e)
  | padButton e => exact .same (t.touchmap_padButton e)
  | load path => exact t.remapped_loadTouchmap path
  | unload => exact .unloaded rfl

theorem Remapped.ownFingers {disk : Disk} {before after : Option Touchmap}
    (h : Remapped disk before after) (hdisk : disk.OwnFingers)
    (hbefore : ∀ map, before = some map → map.OwnFingers) :
    ∀ map, after = some map → map.OwnFingers := by
  rintro map rfl
  cases h with
  | same h => exact hbefore map h.symm
  | unloaded h => cases h
  | loaded hmap h => exact hdisk _ map (Option.some.inj h ▸ hmap)

end Turn

namespace Session

variable [CommandSink κ] {config : Config} {c : Collaborators κ} {log : List (Record κ)}
  {s : Session κ}

theorem finger_of_start {t : Turn κ} (h : start config c = .ok t) : t.session.finger = {} := by
  obtain ⟨s, hs, rfl | ⟨path, rfl⟩⟩ := start_cases h
  · exact hs.finger
  · have hfinger := (Turn.within_mapped_loadTouchmap ⟨s, []⟩ path).same (p := .finger) id
    exact hfinger.trans hs.finger

theorem Run.ownFingers (hrun : Run config c log s) (hdisk : c.disk.Bounded)
    (hdisks : ∀ r ∈ log, r.around.disk.Bounded) :
    ∀ map, s.touchmap = some map → map.OwnFingers := by
  induction hrun with
  | start h =>
    obtain ⟨s, hs, ht⟩ := start_cases h
    have hnone : s.touchmap = none := by rw [touchmap, hs.engine, Option.map_none]
    rcases ht with rfl | ⟨path, rfl⟩
    · simp [hnone]
    · refine (Turn.remapped_loadTouchmap ⟨s, []⟩ path).ownFingers ?_ (by simp [hnone])
      exact hs.disk ▸ hdisk.ownFingers
  | @call log s around call hrun hchannel ih =>
    obtain ⟨hdisks, haround⟩ := List.forall_mem_append.mp hdisks
    refine (Turn.remapped_call ⟨s.amid around, []⟩ call).ownFingers ?_ (ih hdisks)
    exact (List.forall_mem_singleton.mp haround).ownFingers

theorem Run.not_reserved_of_mapped (hrun : Run config c log s) (hdisk : c.disk.Bounded)
    (hdisks : ∀ r ∈ log, r.around.disk.Bounded) {finger : PointerId} (h : finger ∈ s.mapped) :
    finger ∉ PointerId.reserved := by
  cases htouchmap : s.touchmap with
  | none => simp [mapped, htouchmap] at h
  | some map =>
    rw [mapped, htouchmap] at h
    exact (hrun.ownFingers hdisk hdisks map htouchmap).not_reserved finger h

theorem Run.fingerId_not_mapped (hrun : Run config c log s) (hdisk : c.disk.Bounded)
    (hdisks : ∀ r ∈ log, r.around.disk.Bounded) : s.fingerId ∉ s.mapped :=
  fun hmem ↦ hrun.not_reserved_of_mapped hdisk hdisks hmem s.fingerId_mem_reserved

end Session

end InputRelay
