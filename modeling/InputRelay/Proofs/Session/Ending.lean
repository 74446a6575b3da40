import InputRelay.Proofs.Session.Pinch

namespace InputRelay

open MotionAction Effect

theorem Effect.isLostLift_of_taken {e : Effect} (h : e.isRefused = false) :
    e.isLostLift = false := by
  rcases e with ⟨c, _ | _⟩ | _
  · cases h
  · cases c with
    | injectTouch action => cases action <;> rfl
    | _ => rfl
  all_goals rfl

variable {κ : Type} [CommandSink κ]

theorem Turn.session_holds_releaseContacts (t : Turn κ) (id : PointerId) :
    t.releaseContacts.session.holds id =
      (t.session.finger.active.isSome && t.session.fingerId == id) := by
  have hwithin := t.within_releaseContacts
  have hfinger : t.releaseContacts.session.finger = t.session.finger :=
    hwithin.same (p := .finger) not_false
  rw [Session.holds, any_holds_eq_false t.holds_releaseContacts id, hfinger, Session.fingerId,
    hwithin.settings_eq.1]
  rfl

namespace Session

variable {config : Config} {c : Collaborators κ} {log : List (Record κ)} {s : Session κ}

/-- The end of a session lifts every finger that is still down, but for the virtual one. -/
theorem last_touch_at_end (hrun : Run config c log s) (hdisk : c.disk.Bounded)
    (hdisks : ∀ r ∈ log, r.around.disk.Bounded) {around : Collaborators κ}
    (hchannel : around.channel.isSome = s.channel.isSome)
    (htaken : ∀ e ∈ effectsOf log ++ (s.amid around).finish.effects, e.isRefused = false)
    {id : PointerId} (hid : touchesOf id (effectsOf log ++ (s.amid around).finish.effects) ≠ []) :
    (touchesOf id (effectsOf log ++ (s.amid around).finish.effects)).getLast? = some .up ↔
      ¬(s.finger.active.isSome = true ∧ id = s.fingerId) := by
  have hlost : ∀ e ∈ effectsOf log ++ (s.amid around).finish.effects, e.isLostLift = false :=
    fun e he ↦ isLostLift_of_taken (htaken e he)
  have hcoherent : Turn.Coherent (effectsOf log) ⟨s, []⟩ := by
    refine hrun.coherent hdisk hdisks fun r hr _ e he ↦ hlost e ?_
    exact List.mem_append_left _ (List.mem_flatMap_of_mem hr he)
  have hamid : Turn.Coherent (effectsOf log) ⟨s.amid around, []⟩ :=
    hcoherent.of_same rfl rfl rfl hchannel fun _ ↦ rfl
  have hend := hamid.releaseContacts fun e he ↦ hlost e (List.mem_append_right _ he)
  have hseen := hend.seen id
  rw [Turn.session_holds_releaseContacts] at hseen
  refine (getLast?_eq_up_iff hseen hid).trans (Bool.eq_false_iff.trans (not_congr ?_))
  rw [Bool.and_eq_true, beq_iff_eq]
  exact and_congr_right fun _ ↦ eq_comm

theorem last_touch_at_end_button : ∃ (log : List (Record Channel)) (s : Session Channel),
    Run { gamepad := { forward := false, touchmap := some "map" } } (.pointing false) log s ∧
      touchesOf .firstMapped (effectsOf log) = [.down] ∧ (touchesOf .firstMapped
        (effectsOf log ++ (s.amid (.pointing false)).finish.effects)).getLast? = some .up := by
  have hstart : Run { gamepad := { forward := false, touchmap := some "map" } } (.pointing false)
    [] _ := .start rfl
  have hpress := hstart.call (.pointing false)
    (.event (.padButton ⟨⟨0⟩, .a, .pressed⟩)) (by decide +kernel)
  refine ⟨_, _, hpress, by decide +kernel,
    (last_touch_at_end hpress ?_ ?_ ?_ ?_ ?_).mpr (by decide +kernel)⟩
  · exact Disk.bounded_oneButton
  · exact List.forall_mem_singleton.mpr Disk.bounded_oneButton
  · decide +kernel
  · decide +kernel
  · decide +kernel

/-- A session that ends in the middle of a pinch leaves the virtual finger down. -/
theorem finger_down_at_end : ∃ (log : List (Record Channel)) (s : Session Channel),
    Run {} (.pointing false) log s ∧ log.map (·.call) = [.event (.click ctrlPress)] ∧
      (∀ e ∈ effectsOf log ++ s.finish.effects, e.isRefused = false) ∧ s.finish.effects = [] ∧
      touchesOf .virtualFinger (effectsOf log ++ s.finish.effects) = [.down] := by
  have hstart : Run {} (.pointing false) [] _ := .start rfl
  have hpress := hstart.call (.pointing false) (.event (.click ctrlPress)) rfl
  refine ⟨_, _, hpress, rfl, ?_, rfl, ?_⟩
  · decide
  · decide

end Session

end InputRelay
