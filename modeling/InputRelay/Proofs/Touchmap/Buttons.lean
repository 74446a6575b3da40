import InputRelay.Proofs.Touchmap.Driving
import InputRelay.Proofs.Touchmap.Walk

namespace InputRelay

/-- The state of a digital source that an event reports. A trigger is one that is pressed from the
value 6554 on, to either side. -/
def EngineEvent.press? : EngineEvent → Option (ButtonCode × Bool)
  | .button code pressed => some (code, pressed)
  | .axis .triggerLeft value => some (⟨25⟩, decide (6554 ≤ value.toInt.natAbs))
  | .axis .triggerRight value => some (⟨26⟩, decide (6554 ≤ value.toInt.natAbs))
  | _ => none

namespace TouchmapEngine

theorem triggerPressed_eq (value : Int16) :
    triggerPressed value = decide (6554 ≤ value.toInt.natAbs) := by
  have hsign : Int.sign 32767 = 1 := rfl
  rw [Bool.eq_iff_iff, decide_eq_true_eq, triggerPressed, bne_iff_ne, ControllerAxis.fullScale,
    Int.tdiv_eq_ediv, hsign]
  omega

variable {m : Touchmap} {added : List Control} {e : TouchmapEngine} {event : EngineEvent}
  {code : ButtonCode} {pressed : Bool} {k : Control}

theorem react_of_press? (e : TouchmapEngine) (h : event.press? = some (code, pressed)) :
    e.react event = (e.button code pressed, e) := by
  unfold EngineEvent.press? at h
  split at h <;> cases h
  · rfl
  · rw [← triggerPressed_eq]
    rfl
  · rw [← triggerPressed_eq]
    rfl

theorem button_eq_nil (h : e.touchmap.lookup? code = none) (pressed : Bool) :
    e.button code pressed = [] := by
  simp [button, h]

/-- A source proposes the change of the first control that was added for it, unless that is in the
state that it reports. -/
theorem button_eq (htable : Tabulates added e.touchmap.controls) (hm : e.touchmap.fingers.Nodup)
    (hcode : code ≠ .invalid) (hk : added.find? (·.code = code) = some k) (pressed : Bool) :
    e.button code pressed = if e.holds k.finger = pressed then []
      else [⟨k.finger, if pressed then .down else .up, k.center⟩] := by
  rw [← htable.find?_eq, ← Touchmap.exists_lookup?_iff htable.sorted hcode] at hk
  obtain ⟨i, hlookup⟩ := hk
  obtain ⟨c, hc, rfl, hbutton⟩ := button_of_lookup? hlookup
  rw [hbutton, holds_of_mem hm (mem_contacts_of_control (List.mem_of_getElem? hc))]

theorem eq_of_finger_eq (hm : m.fingers.Nodup) {k k' : Control} (hk : k ∈ m.controls)
    (hk' : k' ∈ m.controls) (h : k.finger = k'.finger) : k = k' :=
  List.inj_on_of_nodup_map (List.nodup_append.mp hm).2.1 hk hk' h

theorem walk_finger_ne (hm : m.fingers.Nodup) {w : WalkControl} (hw : m.walk = some w)
    (hk : k ∈ m.controls) : w.finger ≠ k.finger := by
  intro h
  have hdisjoint := List.disjoint_of_nodup_append hm
  exact hdisjoint (a := w.finger) (by simp [hw]) (h ▸ List.mem_map_of_mem hk)

theorem control_mem {i : ℕ} {c : Contact Control} (hc : e.controls[i]? = some c) :
    c.control ∈ e.touchmap.controls :=
  List.mem_map_of_mem (List.mem_of_getElem? hc)

theorem commit_of_control (hm : e.touchmap.fingers.Nodup) (hk : k ∈ e.touchmap.controls)
    {t : SyntheticTouch} (ht : t.finger = k.finger) :
    (e.commit t).holds k.finger = t.action.settle (e.holds k.finger) ∧
      (e.commit t).walk = e.walk ∧
      ∀ (i : ℕ) c, e.controls[i]? = some c → c.control ≠ k →
        (e.commit t).controls[i]? = some c := by
  have hmem : k.finger ∈ e.touchmap.fingers := List.mem_append_right _ (List.mem_map_of_mem hk)
  refine ⟨?_, ?_, fun i c hc hck ↦ ?_⟩
  · rw [holds_commit (ht ▸ hmem), if_pos ht.symm]
  · rw [walk_commit]
    cases hw : e.walk with
    | none => rfl
    | some w =>
      have hne := walk_finger_ne hm (w := w.control) (by simp [touchmap, hw]) hk
      rw [← ht] at hne
      rw [Option.map_some, if_neg hne]
  · have hne : c.control.finger ≠ t.finger := by
      intro heq
      exact hck (eq_of_finger_eq hm (control_mem hc) hk (heq.trans ht))
    rw [controls_commit hm, List.getElem?_map, hc, Option.map_some, if_neg hne]

theorem Drives.exists_lookup?_of_holds (hm : m.fingers.Nodup) {calls : List EngineCall}
    (h : Drives m calls) (hk : k ∈ m.controls)
    (hheld : ((ofTouchmap m).run calls).holds k.finger = true) :
    ∃ code i, m.lookup? code = some (i, k) := by
  have hmem : k.finger ∈ (ofTouchmap m).touchmap.fingers := by
    rw [touchmap_ofTouchmap]
    exact List.mem_append_right _ (List.mem_map_of_mem hk)
  have hidle := holds_eq_false (contacts_ofTouchmap m) k.finger
  obtain ⟨before, point, after, rfl, -⟩ := (holds_run_iff hmem hidle calls).mp hheld
  have hproposable := h.proposable (t := ⟨k.finger, .down, point⟩) (by simp)
  obtain ⟨w, hw, hfinger⟩ | ⟨code, i, k', hlookup, hfinger, -⟩ := hproposable.down_cases rfl
  · exact absurd hfinger.symm (walk_finger_ne hm hw hk)
  · obtain ⟨-, hk', -⟩ := Touchmap.getElem?_of_lookup? hlookup
    obtain rfl := eq_of_finger_eq hm hk (List.mem_of_getElem? hk') hfinger
    exact ⟨code, i, hlookup⟩

theorem foldl_commit_button (htable : Tabulates added e.touchmap.controls)
    (hm : e.touchmap.fingers.Nodup) (hcode : code ≠ .invalid)
    (hk : added.find? (·.code = code) = some k) (pressed : Bool) :
    ((e.button code pressed).foldl commit e).holds k.finger = pressed ∧
      ((e.button code pressed).foldl commit e).walk = e.walk ∧
      ∀ (i : ℕ) c, e.controls[i]? = some c → c.control ≠ k →
        ((e.button code pressed).foldl commit e).controls[i]? = some c := by
  have hmem := htable.perm.mem_iff.mpr (List.mem_of_find?_eq_some hk)
  rw [button_eq htable hm hcode hk]
  split
  · rename_i hheld
    exact ⟨hheld, rfl, fun i c hc _ ↦ hc⟩
  · obtain ⟨hholds, hrest⟩ := commit_of_control hm hmem
      (t := ⟨k.finger, if pressed then .down else .up, k.center⟩) rfl
    refine ⟨?_, hrest⟩
    rw [List.foldl_cons, List.foldl_nil, hholds]
    cases pressed <;> rfl

/-- A digital source proposes one touch if the first control that was added for it is not in the
state that the source reports, and none otherwise. When it is committed this contact is in that
state and every other is as it was. A control without a code, and one that was added after another
with its code, is never held. -/
theorem held_mirrors_sources (htable : Tabulates added m.controls) (hm : m.fingers.Nodup)
    {calls : List EngineCall} (h : Drives m calls) :
    let e := (ofTouchmap m).run calls
    (∀ event code pressed, event.press? = some (code, pressed) → code ≠ .invalid →
      (∀ k, added.find? (·.code = code) = some k →
        (e.react event).1 = (if e.holds k.finger = pressed then []
          else [⟨k.finger, if pressed then .down else .up, k.center⟩]) ∧
        let e' := (e.react event).1.foldl commit (e.react event).2
        e'.holds k.finger = pressed ∧ e'.walk = e.walk ∧
        ∀ (i : ℕ) c, e.controls[i]? = some c → c.control ≠ k → e'.controls[i]? = some c) ∧
      ((∀ k ∈ added, k.code ≠ code) → e.react event = ([], e))) ∧
    (∀ event pressed, event.press? = some (.invalid, pressed) → e.react event = ([], e)) ∧
    ∀ before k after, added = before ++ k :: after →
      k.code = .invalid ∨ (∃ d ∈ before, d.code = k.code) → e.holds k.finger = false := by
  intro e
  have hmap : e.touchmap = m := touchmap_run_ofTouchmap m calls
  have htable' : Tabulates added e.touchmap.controls := hmap.symm ▸ htable
  have hm' : e.touchmap.fingers.Nodup := hmap.symm ▸ hm
  have hnone : ∀ {event code pressed}, event.press? = some (code, pressed) →
      (code = .invalid ∨ ∀ k ∈ added, k.code ≠ code) → e.react event = ([], e) := by
    intro event code pressed hpress hcode
    rw [react_of_press? e hpress,
      button_eq_nil ((Touchmap.lookup?_eq_none_iff_added htable').mpr hcode)]
  refine ⟨fun event code pressed hpress hcode ↦ ⟨fun k hk ↦ ?_, fun hadded ↦ ?_⟩, ?_, ?_⟩
  · rw [react_of_press? e hpress]
    exact ⟨button_eq htable' hm' hcode hk pressed, foldl_commit_button htable' hm' hcode hk pressed⟩
  · exact hnone hpress (Or.inr hadded)
  · exact fun event pressed hpress ↦ hnone hpress (Or.inl rfl)
  · rintro before k after rfl hk
    by_contra hheld
    have hmem : k ∈ m.controls := htable.perm.mem_iff.mpr (by simp)
    obtain ⟨code, i, hlookup⟩ := h.exists_lookup?_of_holds hm hmem (eq_true_of_ne_false hheld)
    obtain ⟨hvalid, -, hcode⟩ := Touchmap.getElem?_of_lookup? hlookup
    have hcontrols := (List.nodup_append.mp hm).2.1.of_map
    obtain ⟨-, hfind, -⟩ := (Touchmap.lookup?_eq_some_iff_find? htable hcontrols).mp hlookup
    rcases hk with hk | ⟨d, hd, hdk⟩
    · exact bne_iff_ne.mp hvalid (hcode.symm.trans hk)
    · have hadded := htable.perm.nodup_iff.mp hcontrols
      exact find?_ne_of_shadowed hadded hd hdk (hcode ▸ hfind)

theorem held_mirrors_sources_lost :
    let k : Control := ⟨ControllerButton.a.code, ⟨10, 10⟩, .button, ⟨102⟩⟩
    let k' : Control := ⟨ControllerButton.a.code, ⟨20, 20⟩, .button, ⟨103⟩⟩
    let trigger : Control := ⟨⟨25⟩, ⟨30, 30⟩, .skill 7, ⟨101⟩⟩
    let m : Touchmap := ⟨some ⟨⟨0, 0⟩, 5, ⟨100⟩⟩, [k, k', trigger]⟩
    let calls : List EngineCall := [.event (.axis .triggerLeft (-6554)),
      .commit ⟨⟨101⟩, .down, ⟨30, 30⟩⟩, .event (.button k.code true)]
    let e := (ofTouchmap m).run calls
    Tabulates [trigger, k, k'] m.controls ∧ m.fingers.Nodup ∧ Drives m calls ∧
      (e.react (.button k.code true)).1 = [⟨⟨102⟩, .down, ⟨10, 10⟩⟩] ∧
      (e.react (.axis .triggerLeft 6553)).1 = [⟨⟨101⟩, .up, ⟨30, 30⟩⟩] ∧
      (e.react (.axis .triggerLeft 6554)).1 = [] ∧ e.holds k'.finger = false := by
  intro k k' trigger m calls e
  have htable : Tabulates [trigger, k, k'] m.controls := by
    refine ⟨by decide, by decide, fun code ↦ ?_⟩
    by_cases hcode : code = ⟨25⟩
    · subst code
      decide
    · simp [m, k, k', trigger, List.filter_cons, Ne.symm hcode]
  have hm : m.fingers.Nodup := by decide
  have htrigger :=
    @Drives.react m _ [⟨⟨101⟩, .down, ⟨30, 30⟩⟩] (.axis .triggerLeft (-6554)) .start (by decide)
  have h : Drives m calls := @Drives.react m _ [] (.button k.code true) htrigger (List.nil_subset _)
  obtain ⟨hpress, -, hshadowed⟩ := held_mirrors_sources htable hm h
  refine ⟨htable, hm, h, ?_, ?_, ?_, ?_⟩
  · exact ((hpress (.button k.code true) _ _ rfl (by decide)).1 k (by decide)).1
  · exact ((hpress (.axis .triggerLeft 6553) _ _ rfl (by decide)).1 trigger (by decide)).1
  · exact ((hpress (.axis .triggerLeft 6554) _ _ rfl (by decide)).1 trigger (by decide)).1
  · exact hshadowed [trigger, k] k' [] rfl (Or.inr ⟨k, by decide, rfl⟩)

end TouchmapEngine

end InputRelay
