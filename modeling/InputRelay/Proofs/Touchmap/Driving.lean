import InputRelay.Proofs.Touchmap.Holding
import InputRelay.Proofs.Touchmap.Proposals

namespace InputRelay

namespace TouchmapEngine

theorem run_concat (e : TouchmapEngine) (calls : List EngineCall) (call : EngineCall) :
    e.run (calls ++ [call]) = (e.run calls).call call := by
  rw [run, List.foldl_append]
  rfl

/-- The calls by which a map's engine is driven: after each event any of the touches that it
proposed are committed, in any order. -/
inductive Drives (m : Touchmap) : List EngineCall → Prop
  | start : Drives m []
  | react {calls : List EngineCall} {taken : List SyntheticTouch} (event : EngineEvent) :
      Drives m calls → taken ⊆ (((ofTouchmap m).run calls).react event).1 →
      Drives m (calls ++ .event event :: taken.map .commit)

def Proposable (m : Touchmap) (t : SyntheticTouch) : Prop :=
  ∃ e : TouchmapEngine, e.touchmap = m ∧ ∃ event, t ∈ (e.react event).1

theorem touchmap_run_ofTouchmap (m : Touchmap) (calls : List EngineCall) :
    ((ofTouchmap m).run calls).touchmap = m :=
  (touchmap_run _ calls).trans (touchmap_ofTouchmap m)

/-- What events keep, and commits of touches that were proposed, holds after all calls that drive
an engine. -/
theorem Drives.invariant {m : Touchmap} {P : List EngineCall → Prop} (start : P [])
    (event : ∀ calls event, P calls → P (calls ++ [.event event]))
    (commit : ∀ calls t, Proposable m t → P calls → P (calls ++ [.commit t]))
    {calls : List EngineCall} (h : Drives m calls) : P calls := by
  induction h with
  | start => exact start
  | @react calls taken ev h htaken ih =>
    have hproposable : ∀ t ∈ taken, Proposable m t :=
      fun t ht ↦ ⟨_, touchmap_run_ofTouchmap m calls, ev, htaken ht⟩
    clear htaken
    induction taken using List.reverseRecOn with
    | nil => exact event calls ev ih
    | append_singleton taken t iht =>
      have ht := hproposable t (by simp)
      have htaken := iht fun t' ht' ↦ hproposable t' (by simp [ht'])
      simpa using commit _ t ht htaken

theorem Drives.proposable {m : Touchmap} {calls : List EngineCall} (h : Drives m calls)
    {t : SyntheticTouch} (ht : .commit t ∈ calls) : Proposable m t := by
  refine h.invariant (P := fun calls ↦ .commit t ∈ calls → Proposable m t) ?_ ?_ ?_ ht
  · intro ht
    cases ht
  · intro calls event ih ht
    exact ih (by simpa using ht)
  · intro calls t' ht' ih ht
    rcases List.mem_append.mp ht with ht | ht
    · exact ih ht
    · cases List.mem_singleton.mp ht
      exact ht'

theorem Proposable.down_cases {m : Touchmap} {t : SyntheticTouch} (h : Proposable m t)
    (hdown : t.action = .down) :
    (∃ w, m.walk = some w ∧ t.finger = w.finger) ∨
      ∃ code i k, m.lookup? code = some (i, k) ∧ t.finger = k.finger ∧ t.point = k.center := by
  obtain ⟨e, rfl, event, ht⟩ := h
  have hbutton : ∀ {code pressed}, t ∈ e.button code pressed → ∃ code i k,
      e.touchmap.lookup? code = some (i, k) ∧ t.finger = k.finger ∧ t.point = k.center := by
    intro code pressed ht
    cases hlookup : e.touchmap.lookup? code with
    | none => simp [button, hlookup] at ht
    | some found =>
      obtain ⟨c, -, -, hbutton⟩ := button_of_lookup? (i := found.1) (k := found.2) hlookup
      rw [hbutton] at ht
      split at ht
      · cases ht
      · obtain rfl := List.mem_singleton.mp ht
        exact ⟨code, found.1, found.2, hlookup, rfl, rfl⟩
  have hsteer : ∀ {horizontal value}, t ∈ (e.steer horizontal value).1 →
      ∃ w, e.touchmap.walk = some w ∧ t.finger = w.finger := by
    intro horizontal value ht
    obtain ⟨_ | w, controls⟩ := e
    · cases ht
    · let w' : Contact WalkControl :=
        { w with
          point := w.point.deflectAxis horizontal w.control.center value w.control.radius }
      exact ⟨w.control, rfl, w'.finger_of_mem_walkTouches t ht⟩
  have haim : ∀ {horizontal value}, t ∉ (e.aim horizontal value).1 := by
    intro horizontal value ht
    obtain ⟨c, -, rfl⟩ := List.mem_map.mp ht
    cases hdown
  cases event with
  | axis axis value =>
    cases axis with
    | leftX | leftY => exact Or.inl (hsteer ht)
    | rightX | rightY => exact absurd ht haim
    | triggerLeft | triggerRight => exact Or.inr (hbutton ht)
  | button code pressed => exact Or.inr (hbutton ht)
  | releaseAll => cases (action_of_mem_releaseAll ht).symm.trans hdown

theorem map_ite_eq_self {t : SyntheticTouch} {cs : List (Contact Control)}
    (h : ∀ c ∈ cs, c.control.finger ≠ t.finger) :
    (cs.map fun c ↦ if c.control.finger = t.finger then c.commit t else c) = cs := by
  refine (List.map_congr_left fun c hc ↦ ?_).trans (List.map_id cs)
  rw [if_neg (h c hc), id]

theorem commitFirst_eq_map (t : SyntheticTouch) {cs : List (Contact Control)}
    (h : (cs.map (·.control.finger)).Nodup) :
    commitFirst t cs = cs.map fun c ↦ if c.control.finger = t.finger then c.commit t else c := by
  induction cs with
  | nil => rfl
  | cons c cs ih =>
    obtain ⟨hc, hcs⟩ := List.nodup_cons.mp h
    by_cases hf : c.control.finger = t.finger
    · rw [commitFirst, if_pos hf, List.map_cons, if_pos hf, map_ite_eq_self]
      intro d hd hdf
      exact hc (List.mem_map.mpr ⟨d, hd, hdf.trans hf.symm⟩)
    · rw [commitFirst, if_neg hf, List.map_cons, if_neg hf, ih hcs]

/-- Where fingers are distinct, a committed touch concerns the one control that has its finger. -/
theorem controls_commit {e : TouchmapEngine} (h : e.touchmap.fingers.Nodup) (t : SyntheticTouch) :
    (e.commit t).controls =
      e.controls.map fun c ↦ if c.control.finger = t.finger then c.commit t else c := by
  have hcontrols : (e.controls.map (·.control.finger)).Nodup := by
    simpa [touchmap, Function.comp_def] using (List.nodup_append.mp h).2.1
  have hfirst := commitFirst_eq_map t hcontrols
  obtain ⟨_ | w, controls⟩ := e
  · exact hfirst
  · by_cases hw : w.control.finger = t.finger
    · simp only [commit, if_pos hw]
      refine (map_ite_eq_self fun c hc hct ↦ ?_).symm
      have hdisjoint := List.disjoint_of_nodup_append h
      refine hdisjoint (a := t.finger) (by simp [touchmap, hw]) ?_
      exact List.mem_map.mpr ⟨c.control, List.mem_map_of_mem hc, hct⟩
    · simpa only [commit, if_neg hw] using hfirst

end TouchmapEngine

end InputRelay
