import InputRelay.Touchmap.Engine
import Mathlib.Data.List.Nodup
import Mathlib.Data.List.Perm.Basic

namespace InputRelay

def Touchmap.fingers (m : Touchmap) : List PointerId :=
  m.walk.toList.map (·.finger) ++ m.controls.map (·.finger)

def MotionAction.settle : MotionAction → Bool → Bool
  | .down, _ => true
  | .up, _ => false
  | .move, held => held

theorem Contact.held_commit {α : Type} (c : Contact α) (t : SyntheticTouch) :
    (c.commit t).held = t.action.settle c.held := by
  unfold Contact.commit
  split <;> rename_i h <;> simp only [h, MotionAction.settle]

theorem Contact.control_commit {α : Type} (c : Contact α) (t : SyntheticTouch) :
    (c.commit t).control = c.control := by
  unfold Contact.commit
  split <;> rfl

theorem Contact.control_aim (c : Contact Control) (horizontal : Bool) (value : Int16) :
    (c.aim horizontal value).control = c.control := by
  unfold Contact.aim
  split <;> rfl

theorem Contact.held_aim (c : Contact Control) (horizontal : Bool) (value : Int16) :
    (c.aim horizontal value).held = c.held := by
  unfold Contact.aim
  split <;> rfl

namespace TouchmapEngine

def contacts (e : TouchmapEngine) : List (PointerId × Bool) :=
  e.walk.toList.map (fun c ↦ (c.control.finger, c.held)) ++
    e.controls.map fun c ↦ (c.control.finger, c.held)

/-- Whether the contact is held that a committed touch of the finger concerns. -/
def holds (e : TouchmapEngine) (f : PointerId) : Bool :=
  e.contacts.lookup f == some true

theorem map_fst_contacts (e : TouchmapEngine) : e.contacts.map Prod.fst = e.touchmap.fingers := by
  obtain ⟨walk, controls⟩ := e
  cases walk <;> simp [contacts, touchmap, Touchmap.fingers, Function.comp_def]

theorem contacts_ofTouchmap (m : Touchmap) :
    (ofTouchmap m).contacts = m.fingers.map fun f ↦ (f, false) := by
  obtain ⟨walk, controls⟩ := m
  cases walk <;> simp [contacts, ofTouchmap, Touchmap.fingers, Function.comp_def]

theorem hasContacts_eq (e : TouchmapEngine) : e.hasContacts = e.contacts.any (·.2) := by
  obtain ⟨walk, controls⟩ := e
  cases walk <;> simp [hasContacts, contacts, List.any_map, Function.comp_def]

theorem mem_of_holds {e : TouchmapEngine} {f : PointerId} (h : e.holds f = true) :
    (f, true) ∈ e.contacts := by
  obtain ⟨before, after, he, -⟩ := List.lookup_eq_some_iff.mp (beq_iff_eq.mp h)
  simp [he]

theorem hasContacts_of_holds {e : TouchmapEngine} {f : PointerId} (h : e.holds f = true) :
    e.hasContacts = true := by
  rw [hasContacts_eq, List.any_eq_true]
  exact ⟨(f, true), mem_of_holds h, rfl⟩

theorem mem_fingers_of_holds {e : TouchmapEngine} {f : PointerId} (h : e.holds f = true) :
    f ∈ e.touchmap.fingers := by
  rw [← map_fst_contacts]
  exact List.mem_map_of_mem (mem_of_holds h)

theorem lookup_cons_of_ne {f g : PointerId} (h : f ≠ g) (held : Bool)
    (rest : List (PointerId × Bool)) : ((g, held) :: rest).lookup f = rest.lookup f := by
  rw [List.lookup_cons, beq_eq_false_iff_ne.mpr h]

theorem lookup_commitFirst (t : SyntheticTouch) (cs : List (Contact Control)) (f : PointerId) :
    ((commitFirst t cs).map fun c ↦ (c.control.finger, c.held)).lookup f =
      if f = t.finger then
        ((cs.map fun c ↦ (c.control.finger, c.held)).lookup f).map t.action.settle
      else (cs.map fun c ↦ (c.control.finger, c.held)).lookup f := by
  induction cs with
  | nil => simp [commitFirst]
  | cons c cs ih =>
    by_cases hf : f = c.control.finger
    · subst f
      by_cases hc : c.control.finger = t.finger
      · simp [commitFirst, Contact.held_commit, Contact.control_commit, hc]
      · simp [commitFirst, hc]
    · rw [List.map_cons, lookup_cons_of_ne hf, ← ih]
      by_cases hc : c.control.finger = t.finger
      · have hft : f ≠ t.finger := hc ▸ hf
        rw [ih, if_neg hft]
        simp [commitFirst, Contact.control_commit, hc, lookup_cons_of_ne hft]
      · simp [commitFirst, hc, lookup_cons_of_ne hf]

theorem lookup_commit (e : TouchmapEngine) (t : SyntheticTouch) (f : PointerId) :
    (e.commit t).contacts.lookup f =
      if f = t.finger then (e.contacts.lookup f).map t.action.settle else e.contacts.lookup f := by
  obtain ⟨_ | w, controls⟩ := e
  · simpa [commit, contacts] using lookup_commitFirst t controls f
  · by_cases hf : f = w.control.finger
    · subst f
      by_cases hw : w.control.finger = t.finger
      · simp [commit, contacts, Contact.held_commit, Contact.control_commit, hw]
      · simp [commit, contacts, hw]
    · by_cases hw : w.control.finger = t.finger
      · have hft : f ≠ t.finger := hw ▸ hf
        simp [commit, contacts, Contact.control_commit, hw, hft, lookup_cons_of_ne]
      · simpa [commit, contacts, hw, lookup_cons_of_ne hf] using lookup_commitFirst t controls f

theorem holds_commit {e : TouchmapEngine} {t : SyntheticTouch} (ht : t.finger ∈ e.touchmap.fingers)
    (f : PointerId) :
    (e.commit t).holds f = if f = t.finger then t.action.settle (e.holds f) else e.holds f := by
  unfold holds
  rw [lookup_commit]
  split
  · rename_i hf
    rw [← map_fst_contacts, ← hf] at ht
    obtain ⟨⟨g, held⟩, hg, rfl⟩ := List.mem_map.mp ht
    have hsome := List.lookup_isSome_iff.mpr ⟨(g, held), hg, beq_self_eq_true g⟩
    obtain ⟨held', hh⟩ := Option.isSome_iff_exists.mp hsome
    rw [hh]
    cases held' <;> cases t.action <;> rfl
  · rfl

theorem touchmap_commitFirst (t : SyntheticTouch) (cs : List (Contact Control)) :
    (commitFirst t cs).map (·.control) = cs.map (·.control) := by
  induction cs with
  | nil => rfl
  | cons c cs ih =>
    unfold commitFirst
    split
    · simp [Contact.control_commit]
    · simp [ih]

@[simp] theorem touchmap_commit (e : TouchmapEngine) (t : SyntheticTouch) :
    (e.commit t).touchmap = e.touchmap := by
  obtain ⟨_ | w, controls⟩ := e
  · simp [commit, touchmap, touchmap_commitFirst]
  · by_cases hw : w.control.finger = t.finger
    · simp [commit, touchmap, Contact.control_commit, hw]
    · simp [commit, touchmap, touchmap_commitFirst, hw]

theorem touchmap_axis (e : TouchmapEngine) (axis : ControllerAxis) (value : Int16) :
    (e.axis axis value).2.touchmap = e.touchmap := by
  obtain ⟨walk, controls⟩ := e
  cases axis with
  | leftX | leftY => cases walk <;> simp [TouchmapEngine.axis, steer, touchmap]
  | rightX | rightY =>
    simp [TouchmapEngine.axis, aim, touchmap, Function.comp_def, Contact.control_aim]
  | triggerLeft | triggerRight => rfl

theorem contacts_axis (e : TouchmapEngine) (axis : ControllerAxis) (value : Int16) :
    (e.axis axis value).2.contacts = e.contacts := by
  obtain ⟨walk, controls⟩ := e
  cases axis with
  | leftX | leftY => cases walk <;> simp [TouchmapEngine.axis, steer, contacts]
  | rightX | rightY =>
    simp [TouchmapEngine.axis, aim, contacts, Function.comp_def, Contact.control_aim,
      Contact.held_aim]
  | triggerLeft | triggerRight => rfl

theorem touchmap_releaseAll (e : TouchmapEngine) : e.releaseAll.2.touchmap = e.touchmap := by
  obtain ⟨walk, controls⟩ := e
  cases walk <;> simp [releaseAll, touchmap, Function.comp_def]

theorem contacts_releaseAll (e : TouchmapEngine) :
    e.releaseAll.2.contacts = e.touchmap.fingers.map fun f ↦ (f, false) := by
  obtain ⟨walk, controls⟩ := e
  cases walk <;> simp [releaseAll, contacts, touchmap, Touchmap.fingers, Function.comp_def]

theorem holds_eq_false {e : TouchmapEngine} {fingers : List PointerId}
    (h : e.contacts = fingers.map fun f ↦ (f, false)) (f : PointerId) : e.holds f = false := by
  by_contra hf
  have hmem := mem_of_holds (eq_true_of_ne_false hf)
  simp [h] at hmem

end TouchmapEngine

end InputRelay
