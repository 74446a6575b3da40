import InputRelay.Proofs.Session.Handlers
import InputRelay.Proofs.Touchmap.Proposals

namespace InputRelay

open MotionAction

namespace Effect

def touch? (id : PointerId) : Effect → Option MotionAction
  | .push (.injectTouch action finger ..) (.ok ()) => if finger = id then some action else none
  | _ => none

def touchesOf (id : PointerId) (effects : List Effect) : List MotionAction :=
  effects.filterMap (touch? id)

def isLostLift : Effect → Bool
  | .push (.injectTouch .up ..) (.error _) => true
  | _ => false

theorem touch?_eq_none {e : Effect} (h : e.Due Deed.Untouching) (id : PointerId) :
    e.touch? id = none := by
  rcases e with ⟨c, verdict⟩ | _
  · cases c <;> first | rfl | exact h.elim
  all_goals rfl

theorem touchesOf_concat {id : PointerId} {e : Effect} (h : e.touch? id = none)
    (effects : List Effect) : touchesOf id (effects ++ [e]) = touchesOf id effects := by
  simp [touchesOf, h]

theorem touchesOf_taken (id finger : PointerId) (action : MotionAction) (position : Position)
    (pressure : Binary32) (button held : MouseButtons) (effects : List Effect) :
    touchesOf id
        (effects ++ [.push (.injectTouch action finger position pressure button held) (.ok ())]) =
      touchesOf id effects ++ if finger = id then [action] else [] := by
  by_cases hid : finger = id <;> simp [touchesOf, touch?, hid]

end Effect

open Effect

variable {κ : Type}

namespace Turn

/-- Whether the device has a finger down, after what was done before the turn and in it. -/
def sees (past : List Effect) (t : Turn κ) (id : PointerId) : Option Bool :=
  follow false (touchesOf id (past ++ t.effects))

variable [CommandSink κ] {past : List Effect} {t t' : Turn κ} {finger : PointerId}
  {action : MotionAction} {point : Point}

theorem Within.touchesOf_eq (h : Within Deed.Untouching t t') (id : PointerId) :
    touchesOf id t'.effects = touchesOf id t.effects :=
  h.filterMap_eq fun _ he ↦ touch?_eq_none he id

theorem session_of_touch {taken : Bool} (h : t.touch finger action point = (taken, t')) :
    ∃ channel, channel.isSome = t.session.channel.isSome ∧
      t'.session = { t.session with channel } := by
  obtain ⟨channel, hsome, hsession⟩ := t.push_session (.injectTouch action finger
    ⟨t.session.screen.frame, point⟩ (if action = .up then .zero else .one) .none .none)
  refine ⟨channel, hsome, ?_⟩
  rw [← hsession]
  exact congrArg (fun p : Bool × Turn κ ↦ p.2.session) h.symm

theorem refused_cases (h : t.touch finger action point = (false, t')) :
    (t.session.channel = none ∧ t' = t) ∨
      ∃ channel position pressure e, t' = { t with session.channel := some channel }.emit
        (.push (.injectTouch action finger position pressure .none .none) (.error e)) := by
  unfold touch at h
  rcases attempt_cases t _ with ⟨hnone, ha⟩ | ⟨channel, verdict, -, ha⟩
  · rw [ha] at h
    exact Or.inl ⟨hnone, (Prod.mk.inj h).2.symm⟩
  · rw [ha] at h
    obtain ⟨hverdict, rfl⟩ := Prod.mk.inj h
    cases verdict with
    | ok => exact absurd hverdict (by simp [Except.toBool])
    | error e => exact Or.inr ⟨channel, _, _, e, rfl⟩

theorem eq_of_taken (h : t.touch finger action point = (true, t')) :
    t.session.channel.isSome = true ∧
      ∃ channel position pressure, t' = { t with session.channel := some channel }.emit
        (.push (.injectTouch action finger position pressure .none .none) (.ok ())) := by
  unfold touch at h
  rcases attempt_cases t _ with ⟨-, ha⟩ | ⟨channel, verdict, hsome, ha⟩
  · rw [ha] at h
    exact absurd (Prod.mk.inj h).1 (by simp)
  · rw [ha] at h
    obtain ⟨hverdict, rfl⟩ := Prod.mk.inj h
    cases verdict with
    | error => exact absurd hverdict (by simp [Except.toBool])
    | ok => exact ⟨hsome, channel, _, _, rfl⟩

theorem sees_refused (h : t.touch finger action point = (false, t')) (past : List Effect)
    (id : PointerId) : t'.sees past id = t.sees past id := by
  obtain ⟨-, rfl⟩ | ⟨channel, position, pressure, e, rfl⟩ := refused_cases h
  · rfl
  · simp only [sees, emit, ← List.append_assoc]
    rw [touchesOf_concat rfl]

theorem sees_taken (h : t.touch finger action point = (true, t')) (past : List Effect)
    (id : PointerId) :
    t'.sees past id =
      if finger = id then (t.sees past id).bind (advance · action) else t.sees past id := by
  obtain ⟨-, channel, position, pressure, rfl⟩ := eq_of_taken h
  simp only [sees, emit, ← List.append_assoc]
  rw [touchesOf_taken]
  by_cases hid : finger = id
  · rw [if_pos hid, if_pos hid, follow_concat]
  · rw [if_neg hid, if_neg hid, List.append_nil]

theorem exists_taken_sendTouches (t : Turn κ) (lost : List PointerId)
    (touches : List SyntheticTouch) : ∃ taken : List SyntheticTouch, taken.Sublist touches ∧
      (t.sendTouches lost touches).session.engine =
        t.session.engine.map fun e ↦ taken.foldl TouchmapEngine.commit e := by
  induction touches generalizing t lost with
  | nil => exact ⟨[], List.Sublist.refl [], by simp [sendTouches]⟩
  | cons u touches ih =>
    unfold sendTouches
    split
    · obtain ⟨taken, hsub, hengine⟩ := ih t lost
      exact ⟨taken, hsub.cons u, hengine⟩
    · split <;> rename_i t' ht <;> obtain ⟨channel, -, hsession⟩ := session_of_touch ht
      · obtain ⟨taken, hsub, hengine⟩ := ih (t'.commit u) lost
        refine ⟨u :: taken, hsub.cons_cons u, hengine.trans ?_⟩
        simp [commit, hsession, Function.comp_def]
      · obtain ⟨taken, hsub, hengine⟩ := ih t' (u.finger :: lost)
        refine ⟨taken, hsub.cons u, hengine.trans ?_⟩
        rw [hsession]

theorem exists_lostLift (hchannel : t.session.channel.isSome = true)
    (h : t.touch finger .up point = (false, t')) : ∃ e ∈ t'.effects, e.isLostLift = true := by
  obtain ⟨hnone, -⟩ | ⟨channel, position, pressure, e, rfl⟩ := refused_cases h
  · simp [hnone] at hchannel
  · exact ⟨_, List.mem_append_right _ (List.mem_singleton_self _), rfl⟩

/-- When no lift is refused, every finger that is to be lifted is lifted and no other. -/
theorem sees_sendTouches_lifts {touches : List SyntheticTouch}
    (hlift : ∀ u ∈ touches, u.action = .up) (hnodup : (touches.map (·.finger)).Nodup)
    (hchannel : touches ≠ [] → t.session.channel.isSome = true)
    (hdown : ∀ u ∈ touches, t.sees past u.finger = some true)
    (hlost : ∀ e ∈ (t.sendTouches [] touches).effects, e.isLostLift = false) (id : PointerId) :
    (t.sendTouches [] touches).sees past id =
      if id ∈ touches.map (·.finger) then some false else t.sees past id := by
  induction touches generalizing t with
  | nil => rfl
  | cons u touches ih =>
    have hsome := hchannel (List.cons_ne_nil u touches)
    rw [List.map_cons, List.nodup_cons] at hnodup
    unfold sendTouches at hlost ⊢
    rw [if_neg (by simp)] at hlost ⊢
    cases ht : t.touch u.finger u.action u.point with
    | mk accepted t' =>
      rw [ht] at hlost
      cases accepted with
      | false =>
        -- the refused lift would still be among the effects in the end
        rw [hlift u List.mem_cons_self] at ht
        obtain ⟨e, he, helost⟩ := exists_lostLift hsome ht
        have hkept := hlost e ((t'.within_sendTouches [u.finger] touches).effects_grow.subset he)
        simp [helost] at hkept
      | true =>
        have hsees : ∀ id, (t'.commit u).sees past id = t'.sees past id := fun _ ↦ rfl
        have hothers : ∀ v ∈ touches, u.finger ≠ v.finger := fun v hv heq ↦
          hnodup.1 (heq ▸ List.mem_map_of_mem hv)
        obtain ⟨channel, hchannel, hsession⟩ := session_of_touch ht
        dsimp only at hlost ⊢
        rw [ih (fun v hv ↦ hlift v (List.mem_cons_of_mem u hv)) hnodup.2
          (fun _ ↦ by rw [commit, hsession]; exact hchannel.trans hsome) ?_ hlost]
        · rw [hsees, sees_taken ht, List.map_cons]
          by_cases hid : u.finger = id
          · subst hid
            rw [if_neg hnodup.1, if_pos rfl, if_pos List.mem_cons_self,
              hdown u List.mem_cons_self, hlift u List.mem_cons_self]
            rfl
          · simp [hid, Ne.symm hid]
        · intro v hv
          rw [hsees, sees_taken ht, if_neg (hothers v hv)]
          exact hdown v (List.mem_cons_of_mem u hv)

theorem exists_engine_of_releaseContacts (t : Turn κ) {e : TouchmapEngine}
    (he : t.releaseContacts.session.engine = some e) :
    ∃ e', t.session.engine = some e' ∧ e.touchmap = e'.touchmap ∧ ∀ f, e.holds f = false := by
  unfold releaseContacts at he
  split at he
  · rename_i hnone
    exact absurd (hnone.symm.trans he) (by simp)
  · rename_i engine hengine
    obtain ⟨taken, hsub, htaken⟩ := exists_taken_sendTouches
      { t with session.engine := some engine.releaseAll.2 } [] engine.releaseAll.1
    obtain rfl := Option.some.inj (htaken.symm.trans he)
    refine ⟨engine, hengine, ?_, ?_⟩
    · exact (TouchmapEngine.touchmap_foldl_commit _ _).trans engine.touchmap_releaseAll
    · exact TouchmapEngine.holds_foldl_commit_lifts
        (fun u hu ↦ TouchmapEngine.action_of_mem_releaseAll (hsub.subset hu))
        engine.holds_releaseAll

theorem holds_releaseContacts (t : Turn κ) (e : TouchmapEngine)
    (he : t.releaseContacts.session.engine = some e) (f : PointerId) : e.holds f = false := by
  obtain ⟨_, -, -, hfree⟩ := t.exists_engine_of_releaseContacts he
  exact hfree f

end Turn

end InputRelay
