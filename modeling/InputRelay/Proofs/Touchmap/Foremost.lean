import InputRelay.Proofs.Touchmap.Reaction

namespace InputRelay

def settleFirst (t : SyntheticTouch) : List (PointerId × Bool) → List (PointerId × Bool)
  | [] => []
  | c :: cs =>
    if c.1 = t.finger then (c.1, t.action.settle c.2) :: cs else c :: settleFirst t cs

theorem exists_of_mem_settleFirst {t : SyntheticTouch} {cs : List (PointerId × Bool)}
    {c : PointerId × Bool} (h : c ∈ settleFirst t cs) : c ∈ cs ∨ c.1 = t.finger := by
  induction cs with
  | nil => cases h
  | cons d cs ih =>
    unfold settleFirst at h
    split at h <;> rename_i hd
    · rcases List.mem_cons.mp h with rfl | h
      · exact Or.inr hd
      · exact Or.inl (List.mem_cons_of_mem d h)
    · rcases List.mem_cons.mp h with rfl | h
      · exact Or.inl List.mem_cons_self
      · exact (ih h).imp_left (List.mem_cons_of_mem d)

theorem pairwise_settleFirst (t : SyntheticTouch) {cs : List (PointerId × Bool)}
    (h : cs.Pairwise fun c d ↦ d.2 = true → c.1 ≠ d.1) :
    (settleFirst t cs).Pairwise fun c d ↦ d.2 = true → c.1 ≠ d.1 := by
  induction h with
  | nil => exact .nil
  | @cons c cs hc hcs ih =>
    unfold settleFirst
    split <;> rename_i hfinger
    · exact .cons hc hcs
    · refine .cons ?_ ih
      intro d hd hheld
      rcases exists_of_mem_settleFirst hd with hd | hd
      · exact hc d hd hheld
      · exact hd ▸ hfinger

namespace TouchmapEngine

theorem contacts_commitFirst (t : SyntheticTouch) (cs : List (Contact Control)) :
    (commitFirst t cs).map (fun c ↦ (c.control.finger, c.held)) =
      settleFirst t (cs.map fun c ↦ (c.control.finger, c.held)) := by
  induction cs with
  | nil => rfl
  | cons c cs ih =>
    unfold commitFirst
    rw [List.map_cons, settleFirst]
    split
    · rw [List.map_cons, Contact.control_commit, Contact.held_commit]
    · rw [List.map_cons, ih]

theorem contacts_commit (e : TouchmapEngine) (t : SyntheticTouch) :
    (e.commit t).contacts = settleFirst t e.contacts := by
  obtain ⟨_ | w, controls⟩ := e
  · exact contacts_commitFirst t controls
  · by_cases hw : w.control.finger = t.finger
    · simp [commit, contacts, settleFirst, Contact.control_commit, Contact.held_commit, hw]
    · simpa [commit, contacts, settleFirst, hw] using contacts_commitFirst t controls

/-- A contact that is held is the first one of its finger. -/
def Foremost (e : TouchmapEngine) : Prop :=
  e.contacts.Pairwise fun c d ↦ d.2 = true → c.1 ≠ d.1

theorem foremost_ofTouchmap (m : Touchmap) : (ofTouchmap m).Foremost := by
  rw [Foremost, contacts_ofTouchmap, List.pairwise_map]
  exact List.pairwise_of_forall fun _ _ h ↦ absurd h (by simp)

theorem Foremost.commit {e : TouchmapEngine} (h : e.Foremost) (t : SyntheticTouch) :
    (e.commit t).Foremost := by
  rw [Foremost, contacts_commit]
  exact pairwise_settleFirst t h

theorem Foremost.foldl_commit {e : TouchmapEngine} (h : e.Foremost)
    (taken : List SyntheticTouch) : (taken.foldl TouchmapEngine.commit e).Foremost := by
  induction taken generalizing e with
  | nil => exact h
  | cons t taken ih => exact ih (h.commit t)

theorem Foremost.react {e : TouchmapEngine} (h : e.Foremost) {event : EngineEvent}
    (hevent : event ≠ .releaseAll) : (e.react event).2.Foremost := by
  rw [Foremost, contacts_react e hevent]
  exact h

theorem Foremost.nodup_map_finger {e : TouchmapEngine} (h : e.Foremost) :
    (e.releaseAll.1.map (·.finger)).Nodup := by
  rw [map_finger_releaseAll, List.Nodup, List.pairwise_map]
  refine (h.filter (·.2)).imp_of_mem ?_
  intro c d _ hd hne
  exact hne (List.mem_filter.mp hd).2

end TouchmapEngine

end InputRelay
