import InputRelay.Proofs.Touchmap.Reaction
import Mathlib.Data.List.Induction

namespace InputRelay

inductive EngineCall
  | event (e : EngineEvent)
  | commit (t : SyntheticTouch)
deriving DecidableEq, Repr

/-- The calls after which the contact of a finger counts as lifted. -/
def EngineCall.drops (f : PointerId) : EngineCall → Prop
  | .event e => e = .releaseAll
  | .commit t => t.finger = f ∧ t.action = .up

namespace TouchmapEngine

def call (e : TouchmapEngine) : EngineCall → TouchmapEngine
  | .event event => (e.react event).2
  | .commit t => e.commit t

def run (e : TouchmapEngine) (calls : List EngineCall) : TouchmapEngine :=
  calls.foldl call e

@[simp] theorem touchmap_call (e : TouchmapEngine) (call : EngineCall) :
    (e.call call).touchmap = e.touchmap := by
  cases call with
  | event event => exact e.touchmap_react event
  | commit t => exact e.touchmap_commit t

theorem touchmap_run (e : TouchmapEngine) (calls : List EngineCall) :
    (e.run calls).touchmap = e.touchmap := by
  induction calls generalizing e with
  | nil => rfl
  | cons call calls ih => exact (ih (e.call call)).trans (e.touchmap_call call)

theorem holds_call_iff {e : TouchmapEngine} {f : PointerId} (hf : f ∈ e.touchmap.fingers)
    (call : EngineCall) :
    (e.call call).holds f = true ↔
      (∃ point, call = .commit ⟨f, .down, point⟩) ∨ (e.holds f = true ∧ ¬ call.drops f) := by
  cases call with
  | event event =>
    by_cases h : event = .releaseAll
    · subst event
      simp [TouchmapEngine.call, react, holds_releaseAll, EngineCall.drops]
    · simp [TouchmapEngine.call, holds_react e h, EngineCall.drops, h]
  | commit t =>
    obtain ⟨finger, action, point⟩ := t
    by_cases hfinger : finger = f
    · subst finger
      rw [TouchmapEngine.call, holds_commit hf, if_pos rfl]
      cases action <;> simp [MotionAction.settle, EngineCall.drops]
    · have h := e.lookup_commit ⟨finger, action, point⟩ f
      rw [if_neg (Ne.symm hfinger)] at h
      simp [TouchmapEngine.call, holds, h, EngineCall.drops, hfinger]

theorem holds_run_iff {e : TouchmapEngine} {f : PointerId} (hf : f ∈ e.touchmap.fingers)
    (hidle : e.holds f = false) (calls : List EngineCall) :
    (e.run calls).holds f = true ↔
      ∃ before point after, calls = before ++ .commit ⟨f, .down, point⟩ :: after ∧
        ∀ call ∈ after, ¬ call.drops f := by
  induction calls using List.reverseRecOn with
  | nil => simp [run, hidle]
  | append_singleton calls call ih =>
    have hstep := holds_call_iff (e := e.run calls) ((e.touchmap_run calls).symm ▸ hf) call
    rw [run, List.foldl_append]
    refine hstep.trans ⟨?_, ?_⟩
    · rintro (⟨point, rfl⟩ | ⟨hheld, hdrops⟩)
      · exact ⟨calls, point, [], rfl, by simp⟩
      · obtain ⟨before, point, after, rfl, hafter⟩ := ih.mp hheld
        refine ⟨before, point, after ++ [call], by simp, ?_⟩
        intro call' hcall'
        rcases List.mem_append.mp hcall' with h | h
        · exact hafter call' h
        · rwa [List.mem_singleton.mp h]
    · rintro ⟨before, point, after, hcalls, hafter⟩
      rcases List.eq_nil_or_concat after with rfl | ⟨after, last, rfl⟩
      · exact Or.inl ⟨point, List.singleton_inj.mp (List.append_inj' hcalls rfl).2⟩
      · have hsplit : calls ++ [call] =
            (before ++ .commit ⟨f, .down, point⟩ :: after) ++ [last] := by
          simpa using hcalls
        obtain ⟨rfl, hlast⟩ := List.append_inj' hsplit rfl
        obtain rfl := List.singleton_inj.mp hlast
        refine Or.inr ⟨ih.mpr ⟨before, point, after, rfl, ?_⟩, hafter call (by simp)⟩
        exact fun call' hcall' ↦ hafter call' (by simp [hcall'])

/-- A contact is held exactly if a down of its finger was committed that no call has dropped since.
Its lift is then proposed again, by the bulk lift as by any event that proposed it before. Only the
bulk lift drops contacts without an up being committed. -/
theorem contact_held_iff (m : Touchmap) (calls : List EngineCall) (f : PointerId) :
    (((ofTouchmap m).run calls).holds f = true ↔ f ∈ m.fingers ∧
      ∃ before point after, calls = before ++ .commit ⟨f, .down, point⟩ :: after ∧
        ∀ call ∈ after, ¬ call.drops f) ∧
    (((ofTouchmap m).run calls).holds f = true →
      ((ofTouchmap m).run calls).hasContacts = true ∧
      ∃ center, ⟨f, .up, center⟩ ∈ ((ofTouchmap m).run calls).releaseAll.1) ∧
    ∀ event, event ≠ .releaseAll →
      ((((ofTouchmap m).run calls).react event).2.react event).1 =
        (((ofTouchmap m).run calls).react event).1 := by
  refine ⟨?_, fun h ↦ ⟨hasContacts_of_holds h, mem_releaseAll (mem_of_holds h)⟩,
    fun event h ↦ react_react _ h⟩
  have htouchmap : ((ofTouchmap m).run calls).touchmap = m :=
    (touchmap_run _ calls).trans (touchmap_ofTouchmap m)
  constructor
  · intro h
    have hf : f ∈ m.fingers := htouchmap ▸ mem_fingers_of_holds h
    refine ⟨hf, (holds_run_iff ?_ (holds_eq_false (contacts_ofTouchmap m) f) calls).mp h⟩
    rwa [touchmap_ofTouchmap]
  · rintro ⟨hf, h⟩
    refine (holds_run_iff ?_ (holds_eq_false (contacts_ofTouchmap m) f) calls).mpr h
    rwa [touchmap_ofTouchmap]

/-- A held button that is lifted in bulk is dropped although its up is never committed, and its
release proposes nothing any more. -/
theorem uncommitted_bulk_lift_drops :
    let m : Touchmap := { controls := [⟨ControllerButton.a.code, ⟨10, 10⟩, .button, ⟨100⟩⟩] }
    let held := (ofTouchmap m).run [.event (.button ControllerButton.a.code true),
      .commit ⟨⟨100⟩, .down, ⟨10, 10⟩⟩]
    let lifted := held.run [.event .releaseAll]
    (ofTouchmap m).button ControllerButton.a.code true = [⟨⟨100⟩, .down, ⟨10, 10⟩⟩] ∧
      held.holds ⟨100⟩ = true ∧ held.releaseAll.1 = [⟨⟨100⟩, .up, ⟨10, 10⟩⟩] ∧
      lifted.holds ⟨100⟩ = false ∧ lifted.hasContacts = false ∧ lifted.releaseAll.1 = [] ∧
      lifted.button ControllerButton.a.code false = [] := by
  decide

end TouchmapEngine

end InputRelay
