import InputRelay.Proofs.Session.Coherence
import InputRelay.Proofs.Session.History

namespace InputRelay

open MotionAction Effect

/-- No touchmap on a disk has more controls than there are identities to hand out. -/
def Disk.Bounded (d : Disk) : Prop :=
  ∀ path map, Touchmap.ofFile d path = .ok map → map.fingers.length ≤ 2 ^ 64 - 104

theorem Disk.Bounded.ownFingers {d : Disk} (h : d.Bounded) : d.OwnFingers := by
  intro path map hmap
  have hlength := h path map hmap
  unfold Touchmap.ofFile at hmap
  split at hmap
  · exact absurd hmap (by simp)
  · unfold Touchmap.ofText at hmap
    split at hmap
    · exact absurd hmap (by simp)
    · exact absurd hmap (by simp)
    · obtain rfl := Except.ok.inj hmap
      exact Mappings.ownFingers _ hlength

def Call.mayReplace : Call → Bool
  | .event (.key _) | .load _ | .unload => true
  | .event _ => false

variable {κ : Type}

def Session.heldFingers (s : Session κ) : Set PointerId :=
  {f | ∃ e, s.engine = some e ∧ (f, true) ∈ e.contacts} ∪
    {f | s.finger.active.isSome ∧ f = s.fingerId}

theorem Turn.Coherent.mem_heldFingers {past : List Effect} {t : Turn κ} (h : Coherent past t)
    (f : PointerId) : f ∈ t.session.heldFingers ↔ t.session.holds f = true := by
  simp only [Session.heldFingers, Set.mem_union, Set.mem_ofPred_eq, Session.holds, Bool.or_eq_true,
    Bool.and_eq_true, beq_iff_eq, Option.any_eq_true]
  refine or_congr ?_ (and_congr_right fun _ ↦ eq_comm)
  constructor
  · rintro ⟨e, he, hmem⟩
    exact ⟨e, he, TouchmapEngine.holds_of_mem (h.own e he).nodup hmem⟩
  · rintro ⟨e, he, hheld⟩
    exact ⟨e, he, TouchmapEngine.mem_of_holds hheld⟩

def Disk.oneButton : Disk where
  read _ := .ok ("\x7b\"mappings\":\x7b\"button_mappings\":" ++
    "[\x7b\"touch\":\x7b\"x\":1,\"y\":2\x7d,\"button\":\"A\"\x7d]\x7d\x7d")

theorem Disk.bounded_oneButton : Disk.oneButton.Bounded := by
  intro path map hmap
  have hlength : (Touchmap.ofFile .oneButton "map").toOption.map (·.fingers.length) = some 1 := by
    decide +kernel
  have hmap : Touchmap.ofFile .oneButton "map" = .ok map := hmap
  rw [hmap] at hlength
  exact (Option.some.inj hlength).le.trans (by decide)

variable [CommandSink κ]

/-- The device and the session go on agreeing on the fingers that are down, unless the touchmap is
replaced and a lift is refused. -/
theorem Turn.Coherent.call {past : List Effect} {t : Turn κ} (h : Coherent past t)
    (hdisk : t.session.disk.OwnFingers) (call : Call)
    (hlost : call.mayReplace = true → ∀ e ∈ (t.call call).effects, e.isLostLift = false) :
    Coherent past (t.call call) := by
  have hcall := t.handled_call call
  generalize t.call call = u at hcall hlost ⊢
  cases hcall with
  | incidental hu => exact h.within (hu.mono fun _ hd ↦ hd.untouching)
  | key e => exact h.key hdisk e (hlost rfl)
  | motion e => exact h.motion e
  | click e => exact h.click e
  | axis e => exact h.axis e
  | padButton e => exact h.padButton e
  | load path => exact h.loadTouchmap hdisk path (hlost rfl)
  | unload => exact h.unloadTouchmap (hlost rfl)

namespace Session

theorem coherent_start {config : Config} {c : Collaborators κ} {t : Turn κ}
    (h : start config c = .ok t) (hdisk : c.disk.OwnFingers) : t.Coherent [] := by
  obtain ⟨s, hs, ht⟩ := start_cases h
  have hfresh : Turn.Coherent [] ⟨s, []⟩ := by
    refine ⟨by simp [hs.engine], by simp [hs.engine], fun id ↦ ?_⟩
    simp only [holds, hs.engine, hs.finger]
    rfl
  obtain rfl | ⟨path, rfl⟩ := ht
  · exact hfresh
  · refine hfresh.loadTouchmap (hs.disk ▸ hdisk) path ?_
    rw [show (Turn.loadTouchmap ⟨s, []⟩ path).2.effects = [] from
      effects_loadTouchmap hs.engine path]
    simp

theorem Run.coherent {config : Config} {c : Collaborators κ} {log : List (Record κ)}
    {s : Session κ} (hrun : Run config c log s) (hdisk : c.disk.Bounded)
    (hdisks : ∀ r ∈ log, r.around.disk.Bounded)
    (hlifts : ∀ r ∈ log, r.call.mayReplace = true → ∀ e ∈ r.effects, e.isLostLift = false) :
    Turn.Coherent (effectsOf log) ⟨s, []⟩ := by
  induction hrun with
  | start h =>
    have ht := (coherent_start h hdisk.ownFingers).next
    rwa [effects_start h] at ht
  | @call log s around call hrun hchannel ih =>
    have hmem : ⟨around, call, ((s.amid around).call call).effects⟩ ∈
        log ++ [⟨around, call, ((s.amid around).call call).effects⟩] :=
      List.mem_append_right _ (List.mem_singleton_self _)
    have hbefore := ih (fun r hr ↦ hdisks r (List.mem_append_left _ hr))
      fun r hr ↦ hlifts r (List.mem_append_left _ hr)
    have hamid : Turn.Coherent (effectsOf log) ⟨s.amid around, []⟩ :=
      hbefore.of_same rfl rfl rfl hchannel fun _ ↦ rfl
    rw [effectsOf_concat]
    exact (hamid.call (hdisks _ hmem).ownFingers call (hlifts _ hmem)).next

/-- The touches of each finger that reach the device are complete strokes but for the last one,
which may still go on. The fingers whose last stroke goes on are those that the session holds. -/
theorem touch_streams {config : Config} {c : Collaborators κ} {log : List (Record κ)}
    {s : Session κ} (hrun : Run config c log s) (hdisk : c.disk.Bounded)
    (hdisks : ∀ r ∈ log, r.around.disk.Bounded)
    (hlifts : ∀ r ∈ log, r.call.mayReplace = true → ∀ e ∈ r.effects, e.isLostLift = false) :
    (∀ id, ∃ rest, touchesOf id (effectsOf log) ++ rest ∈ strokes) ∧
      {id | IsDown (touchesOf id (effectsOf log))} = s.heldFingers := by
  have hcoherent := hrun.coherent hdisk hdisks hlifts
  have hseen : ∀ id, follow false (touchesOf id (effectsOf log)) = some (s.holds id) := by
    intro id
    simpa [Turn.sees] using hcoherent.seen id
  constructor
  · intro id
    exact exists_append_mem_strokes (hseen id)
  · ext id
    exact (isDown_iff (hseen id)).trans (hcoherent.mem_heldFingers id).symm

theorem touch_streams_reload : ∃ (log : List (Record Channel)) (s : Session Channel),
    Run { gamepad := { forward := false, touchmap := some "map" } } (.recording .oneButton false)
        log s ∧
      (touchesOf .firstMapped (effectsOf log) = [.down, .up, .down] ∧
      (∀ id, ∃ rest, touchesOf id (effectsOf log) ++ rest ∈ strokes) ∧
      {id | IsDown (touchesOf id (effectsOf log))} = s.heldFingers) := by
  have hdisk : ∀ failing, (Collaborators.recording .oneButton failing).disk.Bounded :=
    fun _ ↦ Disk.bounded_oneButton
  have hstart : Run { gamepad := { forward := false, touchmap := some "map" } }
      (.recording .oneButton false) [] _ := .start rfl
  have hdown := hstart.call (.recording .oneButton false)
    (.event (.padButton ⟨⟨0⟩, .a, .pressed⟩)) (by decide +kernel)
  have hup := hdown.call (.recording .oneButton true)
    (.event (.padButton ⟨⟨0⟩, .a, .released⟩)) (by decide +kernel)
  have hload := hup.call (.recording .oneButton false) (.load "map") (by decide +kernel)
  have hagain := hload.call (.recording .oneButton false)
    (.event (.padButton ⟨⟨0⟩, .a, .pressed⟩)) (by decide +kernel)
  refine ⟨_, _, hagain, ?_, touch_streams hagain (hdisk false) ?_ ?_⟩
  · decide +kernel
  · iterate 4 refine List.forall_mem_append.mpr ⟨?_, List.forall_mem_singleton.mpr (hdisk _)⟩
    exact List.forall_mem_nil _
  · decide +kernel

end Session

end InputRelay
