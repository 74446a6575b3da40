import InputRelay.Proofs.Touchmap.Contacts
import Mathlib.Computability.Language

namespace InputRelay

open Computability

namespace MotionAction

/-- A finger goes down, moves about and is lifted. -/
def stroke : Language MotionAction := {[.down]} * ({[.move]}∗ * {[.up]})

def strokes : Language MotionAction := stroke∗

def IsDown (actions : List MotionAction) : Prop :=
  (actions.filter (· ≠ .move)).getLast? = some .down

def advance : Bool → MotionAction → Option Bool
  | false, .down => some true
  | true, .move => some true
  | true, .up => some false
  | _, _ => none

def follow (down : Bool) (actions : List MotionAction) : Option Bool :=
  actions.foldlM advance down

theorem settle_of_advance {down down' : Bool} {action : MotionAction}
    (h : advance down action = some down') : action.settle down = down' := by
  cases down <;> cases action <;> simp_all [advance, settle]

theorem follow_cons (down : Bool) (action : MotionAction) (actions : List MotionAction) :
    follow down (action :: actions) = (advance down action).bind (follow · actions) :=
  List.foldlM_cons

theorem follow_append (down : Bool) (actions actions' : List MotionAction) :
    follow down (actions ++ actions') = (follow down actions).bind (follow · actions') :=
  List.foldlM_append

theorem follow_concat (down : Bool) (actions : List MotionAction) (action : MotionAction) :
    follow down (actions ++ [action]) = (follow down actions).bind (advance · action) := by
  rw [follow_append]
  congr 1
  funext down'
  rw [follow_cons]
  cases advance down' action <;> rfl

theorem mem_kstar_of_mem_mul {l : Language MotionAction} {actions : List MotionAction}
    (h : actions ∈ l * l∗) : actions ∈ l∗ :=
  (mul_kstar_le_kstar : l * l∗ ≤ l∗) h

theorem mem_strokes_of_follow {actions : List MotionAction} {down : Bool}
    (h : follow down actions = some false) :
    actions ∈ if down then ({[.move]}∗ * {[.up]}) * strokes else strokes := by
  -- while the finger is down, what follows is the rest of a stroke and then strokes
  induction actions generalizing down with
  | nil =>
    obtain rfl : down = false := Option.some.inj h
    exact Language.nil_mem_kstar _
  | cons action actions ih =>
    rw [follow_cons] at h
    cases hadvance : advance down action with
    | none => simp [hadvance] at h
    | some down' =>
      have hrest := ih (by simpa [hadvance] using h)
      cases down <;> cases action <;>
        simp only [advance, Option.some.injEq, reduceCtorEq] at hadvance
      · subst hadvance
        have hstroke : .down :: actions ∈ stroke * strokes := by
          rw [stroke, mul_assoc]
          exact Language.append_mem_mul (Set.mem_singleton [.down]) hrest
        exact mem_kstar_of_mem_mul hstroke
      · subst hadvance
        exact Language.append_mem_mul
          (Language.append_mem_mul (Language.nil_mem_kstar _) (Set.mem_singleton [.up])) hrest
      · subst hadvance
        obtain ⟨_, ⟨moves, hmoves, last, hlast, rfl⟩, rest, hrest, rfl⟩ := hrest
        have hmove := Language.append_mem_mul (Set.mem_singleton [.move]) hmoves
        exact Language.append_mem_mul
          (Language.append_mem_mul (mem_kstar_of_mem_mul hmove) hlast) hrest

/-- What can be followed is the beginning of some strokes. -/
theorem exists_append_mem_strokes {actions : List MotionAction} {down : Bool}
    (h : follow false actions = some down) : ∃ rest, actions ++ rest ∈ strokes := by
  cases down with
  | false => exact ⟨[], by simpa using mem_strokes_of_follow h⟩
  | true =>
    have hup : follow false (actions ++ [.up]) = some false := by
      rw [follow_concat, h]
      rfl
    exact ⟨[.up], mem_strokes_of_follow hup⟩

theorem getLast?_eq_up_iff {actions : List MotionAction} {down : Bool}
    (h : follow false actions = some down) (hne : actions ≠ []) :
    actions.getLast? = some .up ↔ down = false := by
  obtain ⟨earlier, last, rfl⟩ := (List.eq_nil_or_concat' actions).resolve_left hne
  rw [follow_concat, Option.bind_eq_some_iff] at h
  obtain ⟨before, -, hlast⟩ := h
  rw [List.getLast?_concat]
  cases before <;> cases last <;> simp_all [advance]

theorem isDown_iff {actions : List MotionAction} {down : Bool}
    (h : follow false actions = some down) : IsDown actions ↔ down = true := by
  induction actions using List.reverseRecOn generalizing down with
  | nil =>
    obtain rfl : false = down := Option.some.inj h
    simp [IsDown]
  | append_singleton actions action ih =>
    rw [follow_concat] at h
    obtain ⟨down', hdown', hadvance⟩ := Option.bind_eq_some_iff.mp h
    have ih := ih hdown'
    cases down' <;> cases action <;>
      simp only [advance, Option.some.injEq, reduceCtorEq] at hadvance
    · simp [IsDown, ← hadvance]
    · simp [IsDown, ← hadvance]
    · simpa [IsDown, ← hadvance] using ih

end MotionAction

end InputRelay
