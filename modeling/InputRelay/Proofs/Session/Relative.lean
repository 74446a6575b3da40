import InputRelay.Proofs.Session.Pinch
import InputRelay.Proofs.Session.Reports
import InputRelay.Proofs.Touchmap.Extent

namespace InputRelay

open Deed Effect

/-- Every text on a disk can be read into memory, which has less than 2⁶³ bytes for it. -/
def Disk.Addressable (d : Disk) : Prop :=
  ∀ path text, d.read path = .ok text → text.length < 2 ^ 63

theorem Disk.Addressable.bounded {d : Disk} (h : d.Addressable) : d.Bounded := by
  intro path map hmap
  unfold Touchmap.ofFile at hmap
  split at hmap
  · cases hmap
  · rename_i text htext
    have hlength := h path text htext
    have hfingers := Touchmap.length_fingers_le hmap
    omega

variable {κ : Type}

/-- What is asserted once the pointer processor was told of motion or of a click: in relative mode
there is no second finger. -/
def Session.fingerKeepsOut (s : Session κ) : Bool :=
  !s.isRelative || s.finger.active.isNone

variable [CommandSink κ]

namespace Turn

variable {t : Turn κ}

theorem moveFinger_of_idle (h : t.session.finger.active = none) (p : Point) :
    t.moveFinger p = t := by
  unfold moveFinger
  rw [h]

theorem within_mapped_of_relative (hrelative : t.session.isRelative = true)
    (hidle : t.session.finger.active = none) (call : Call) :
    Within (Mapped t.session.mapped) t (t.call call) := by
  cases hmouse : call.isMouse with
  | false => exact t.within_mapped_call hmouse
  | true =>
    unfold Call.isMouse at hmouse
    split at hmouse
    · rename_i e
      change Within _ t (t.motion e)
      simp only [motion]
      split
      · exact .refl t
      · rw [moveFinger_of_idle (t := t.emit _) hidle]
        exact (t.within_pointerCall _).mono fun _ hd ↦ hd.1.mapped _
    · rename_i e
      rcases t.click_cases e with ⟨-, h⟩ | ⟨hreaches, -⟩
      · exact h.mono fun _ hd ↦ hd.1.mapped _
      · simp [reachesFinger, hrelative] at hreaches
    · cases hmouse

end Turn

namespace Session

variable {config : Config} {c : Collaborators κ} {log : List (Record κ)} {s : Session κ}

omit [CommandSink κ] in
theorem isRelative_amid {around : Collaborators κ} (h : around.pointer = c.pointer) :
    (s.amid around).isRelative = c.pointer.any (·.relative) :=
  congrArg (·.any (·.relative)) h

theorem Run.idle_of_relative (hrun : Run config c log s)
    (hrelative : c.pointer.any (·.relative) = true)
    (hfixed : ∀ r ∈ log, r.around.pointer = c.pointer) : s.finger.active = none := by
  induction hrun with
  | start h => rw [finger_of_start h]
  | @call log s around call hrun hchannel ih =>
    obtain ⟨hfixed, hpointer⟩ := List.forall_mem_append.mp hfixed
    have hpointer : around.pointer = c.pointer := hpointer _ (List.mem_singleton_self _)
    have hwithin := Turn.within_mapped_of_relative (t := ⟨s.amid around, []⟩)
      ((isRelative_amid hpointer).trans hrelative) (ih hfixed) call
    have hfinger := hwithin.same (p := .finger) id
    exact (congrArg VirtualFinger.active hfinger).trans (ih hfixed)

omit [CommandSink κ] in
theorem position_of_reported (h : s.isRelative = true) {e : Event} {told : PointerCall}
    (htold : s.reported e = some told) {position : Position} {held : MouseButtons}
    (hmouse : told.mouse? = some (position, held)) : position = {} := by
  rw [mouse?_of_reported htold] at hmouse
  obtain ⟨⟨point, buttons⟩, -, hposition⟩ := Option.map_eq_some_iff.mp hmouse
  obtain ⟨rfl, -⟩ := Prod.mk.inj hposition
  rw [Session.position, if_pos h]

theorem Run.not_reserved_of_relative (hrun : Run config c log s)
    (hrelative : c.pointer.any (·.relative) = true)
    (hfixed : ∀ r ∈ log, r.around.pointer = c.pointer) (hdisk : c.disk.Bounded)
    (hdisks : ∀ r ∈ log, r.around.disk.Bounded) {touch : SyntheticTouch}
    (h : touch ∈ offeredTouches (effectsOf log)) : touch.finger ∉ PointerId.reserved := by
  obtain ⟨e, he, htouch⟩ := List.mem_filterMap.mp h
  obtain ⟨r, hr, her⟩ := List.mem_flatMap.mp he
  obtain ⟨before, s', hsub, hbefore, -, heffects⟩ := hrun.exists_of_mem hr
  have hidle := hbefore.idle_of_relative hrelative fun r hr ↦ hfixed r (hsub hr)
  have hwithin := Turn.within_mapped_of_relative (t := ⟨s'.amid r.around, []⟩)
    ((isRelative_amid (hfixed r hr)).trans hrelative) hidle r.call
  have hmem : touch ∈ offeredTouches ((s'.amid r.around).call r.call).effects :=
    List.mem_filterMap.mpr ⟨e, heffects ▸ her, htouch⟩
  exact hbefore.not_reserved_of_mapped hdisk (fun r hr ↦ hdisks r (hsub hr))
    (hwithin.finger_of_mem_offeredTouches touch hmem)

/-- In relative mode there is no second finger. It is up in every state, no touch of it is offered
in a run or at its end, and the pointer processor is told of no position. -/
theorem relative_mode_has_no_finger (hrun : Run config c log s)
    (hrelative : c.pointer.any (·.relative) = true)
    (hfixed : ∀ r ∈ log, r.around.pointer = c.pointer) :
    s.finger.active = none ∧
      (∀ around : Collaborators κ, around.pointer = c.pointer → ∀ e told,
        (s.amid around).reported e = some told →
          (Turn.emit ⟨s.amid around, []⟩ (.pointer told)).session.fingerKeepsOut = true) ∧
      (c.disk.Addressable → (∀ r ∈ log, r.around.disk.Addressable) →
        ∀ touch ∈ offeredTouches (effectsOf log ++ s.finish.effects),
          touch.finger ≠ .virtualFinger ∧ touch.finger ≠ .virtualMouse) ∧
      ∀ told position held, .pointer told ∈ effectsOf log →
        told.mouse? = some (position, held) → position = {} := by
  have hidle := hrun.idle_of_relative hrelative hfixed
  refine ⟨hidle, fun around hpointer e told htold ↦ ?_, fun hdisk hdisks touch htouch ↦ ?_,
    fun told position held htold hmouse ↦ ?_⟩
  · simp [Turn.emit, fingerKeepsOut, amid, hidle]
  · have hdisk := hdisk.bounded
    have hdisks : ∀ r ∈ log, r.around.disk.Bounded := fun r hr ↦ (hdisks r hr).bounded
    have hreserved : touch.finger ∉ PointerId.reserved := by
      rw [offeredTouches, List.filterMap_append] at htouch
      rcases List.mem_append.mp htouch with htouch | htouch
      · exact hrun.not_reserved_of_relative hrelative hfixed hdisk hdisks htouch
      · have hwithin := Turn.within_mapped_releaseContacts ⟨s, []⟩
        exact hrun.not_reserved_of_mapped hdisk hdisks
          (hwithin.finger_of_mem_offeredTouches touch htouch)
    simp only [PointerId.reserved, List.mem_cons, not_or] at hreserved
    exact ⟨hreserved.2.2.2.1, hreserved.2.2.1⟩
  · obtain ⟨r, hr, _, s', e, -, -, hreported⟩ := hrun.exists_reported htold
    exact position_of_reported ((isRelative_amid (hfixed r hr)).trans hrelative) hreported hmouse

theorem addressable_oneButton : Disk.oneButton.Addressable := by
  rintro path text ⟨⟩
  decide

def Collaborators.relative : Collaborators Channel :=
  { Collaborators.recording .oneButton false with pointer := some { relative := true } }

theorem relative_mode_has_no_finger_pressed : ∃ (log : List (Record Channel))
    (s : Session Channel),
    Run { gamepad := { forward := false, touchmap := some "map" } } .relative log s ∧
      log.map (·.call) = [.event (.click ctrlPress), .event (.padButton ⟨⟨0⟩, .a, .pressed⟩)] ∧
      pointerCalls (effectsOf log) = [.click {} .pressed .left .genericFinger .left] ∧
      offeredTouches (effectsOf log) = [⟨.firstMapped, .down, ⟨1, 2⟩⟩] ∧
      s.finger.active = none ∧
      ∀ touch ∈ offeredTouches (effectsOf log ++ s.finish.effects),
        touch.finger ≠ .virtualFinger ∧ touch.finger ≠ .virtualMouse := by
  have hstart : Run { gamepad := { forward := false, touchmap := some "map" } } .relative [] _ :=
    .start rfl
  have hpress := hstart.call .relative (.event (.click ctrlPress)) (by decide +kernel)
  have hdown := hpress.call .relative (.event (.padButton ⟨⟨0⟩, .a, .pressed⟩)) (by decide)
  obtain ⟨hidle, -, htouches, -⟩ := relative_mode_has_no_finger hdown rfl
    (List.forall_mem_append.mpr ⟨List.forall_mem_singleton.mpr rfl,
      List.forall_mem_singleton.mpr rfl⟩)
  refine ⟨_, _, hdown, rfl, by decide +kernel, by decide +kernel, hidle, ?_⟩
  exact htouches addressable_oneButton (List.forall_mem_append.mpr
    ⟨List.forall_mem_singleton.mpr addressable_oneButton,
      List.forall_mem_singleton.mpr addressable_oneButton⟩)

end Session

end InputRelay
