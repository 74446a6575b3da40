import InputRelay.Proofs.Controller.Slots
import Mathlib.Data.List.Infix
import Mathlib.Data.List.Nodup

namespace InputRelay

inductive SlotCall
  | insert (id : ControllerId)
  | erase (id : ControllerId)
deriving DecidableEq

namespace ControllerSlots

def call (s : ControllerSlots) : SlotCall → Except SlotError (ℕ × ControllerSlots)
  | .insert id => s.insert id
  | .erase id => s.erase id

/-- One call later. A call that fails leaves the slots as they are. -/
def next (s : ControllerSlots) (c : SlotCall) : ControllerSlots :=
  match s.call c with
  | .ok (_, s') => s'
  | .error _ => s

def after (s : ControllerSlots) (calls : List SlotCall) : ControllerSlots :=
  calls.foldl next s

def Keyed (s : ControllerSlots) : Prop :=
  ∀ id, s.cells.count (some id) ≤ 1

/-- No controller that has a slot is given another one. -/
def Fresh (calls : List SlotCall) : Prop :=
  ∀ before id, before ++ [.insert id] <+: calls → (empty.after before).contains id = true →
    ∃ e, (empty.after before).insert id = .error e

variable {s s' : ControllerSlots} {id : ControllerId} {i : ℕ} {calls : List SlotCall}

theorem after_concat (s : ControllerSlots) (calls : List SlotCall) (c : SlotCall) :
    s.after (calls ++ [c]) = (s.after calls).next c := by
  simp [after]

theorem count_ids (s : ControllerSlots) (id : ControllerId) :
    s.ids.count id = s.cells.count (some id) := by
  unfold ids
  induction s.cells with
  | nil => rfl
  | cons cell cells ih =>
    cases cell with
    | none => simpa using ih
    | some a => simp [List.count_cons, ih]

theorem keyed_iff : s.Keyed ↔ s.ids.Nodup := by
  simp [Keyed, List.nodup_iff_count_le_one, count_ids]

theorem keyed_empty : empty.Keyed := by
  rw [keyed_iff]
  decide

theorem Keyed.insert (h : s.Keyed) (hfresh : s.contains id = false)
    (hinsert : s.insert id = .ok (i, s')) : s'.Keyed := by
  rw [keyed_iff] at h ⊢
  have hnotMem : id ∉ s.ids := fun hmem ↦ by simp [s.contains_iff.mpr hmem] at hfresh
  exact (perm_of_insert hinsert).nodup_iff.mpr (List.nodup_cons.mpr ⟨hnotMem, h⟩)

theorem Keyed.erase (h : s.Keyed) (herase : s.erase id = .ok (i, s')) :
    s'.Keyed ∧ s'.contains id = false := by
  rw [keyed_iff] at h
  obtain ⟨hnotMem, hnodup⟩ := List.nodup_cons.mp ((perm_of_erase herase).nodup_iff.mp h)
  exact ⟨keyed_iff.mpr hnodup, Bool.eq_false_iff.mpr fun h ↦ hnotMem (s'.contains_iff.mp h)⟩

theorem erase_of_insert_again (hmem : s.contains id = true) (hinsert : s.insert id = .ok (i, s')) :
    ¬s'.Keyed ∧ ∃ j s'', s'.erase id = .ok (j, s'') ∧ s''.contains id = true := by
  have hperm := perm_of_insert hinsert
  have hmem' := s.contains_iff.mp hmem
  constructor
  · intro h
    rw [keyed_iff, hperm.nodup_iff] at h
    exact (List.nodup_cons.mp h).1 hmem'
  · obtain ⟨j, s'', herase, hperm'⟩ := s'.erase_of_mem (hperm.mem_iff.mpr List.mem_cons_self)
    have hsame : s.ids.Perm s''.ids := (hperm.symm.trans hperm').cons_inv
    exact ⟨j, s'', herase, s''.contains_iff.mpr (hsame.mem_iff.mp hmem')⟩

theorem Fresh.of_isPrefix {before : List SlotCall} (h : Fresh calls) (hbefore : before <+: calls) :
    Fresh before :=
  fun before' id hprefix ↦ h before' id (List.IsPrefix.trans hprefix hbefore)

theorem Fresh.keyed (h : Fresh calls) : (empty.after calls).Keyed := by
  induction calls using List.reverseRecOn with
  | nil => exact keyed_empty
  | append_singleton calls c ih =>
    have hkeyed := ih (h.of_isPrefix (List.prefix_append calls [c]))
    rw [after_concat, next]
    split
    · rename_i i s' hcall
      cases c with
      | erase id => exact (hkeyed.erase hcall).1
      | insert id =>
        refine hkeyed.insert ?_ hcall
        by_contra hmem
        obtain ⟨e, herror⟩ := h calls id List.prefix_rfl (by simpa using hmem)
        rw [show (empty.after calls).insert id = _ from hcall] at herror
        cases herror
    · exact hkeyed

theorem fresh_of_refused
    (h : ∀ before id i s', before ++ [.insert id] <+: calls →
      (empty.after before).contains id = true → (empty.after before).insert id = .ok (i, s') →
      empty.after (before ++ [.insert id]) ≠ s') : Fresh calls := by
  intro before id hprefix hmem
  cases hinsert : (empty.after before).insert id with
  | error e => exact ⟨e, rfl⟩
  | ok answer =>
    refine absurd ?_ (h before id answer.1 answer.2 hprefix hmem hinsert)
    rw [after_concat, next, call, hinsert]

/-- The slots are keyed by their controllers, and a controller that is erased has no slot left, for
as long as no controller is given a second slot. -/
theorem keyed_iff_fresh (calls : List SlotCall) :
    ((∀ before, before <+: calls → (empty.after before).Keyed) ↔ Fresh calls) ∧
    ((∀ before id i s, before <+: calls → (empty.after before).erase id = .ok (i, s) →
      s.contains id = false) ↔ Fresh calls) := by
  refine ⟨⟨fun h ↦ ?_, fun h before hbefore ↦ (h.of_isPrefix hbefore).keyed⟩,
    ⟨fun h ↦ ?_, fun h before id i s hbefore herase ↦
      ((h.of_isPrefix hbefore).keyed.erase herase).2⟩⟩
  · refine fresh_of_refused fun before id i s' hprefix hmem hinsert hafter ↦ ?_
    have hkeyed := h _ hprefix
    rw [hafter] at hkeyed
    exact (erase_of_insert_again hmem hinsert).1 hkeyed
  · refine fresh_of_refused fun before id i s' hprefix hmem hinsert hafter ↦ ?_
    obtain ⟨-, j, s'', herase, hleft⟩ := erase_of_insert_again hmem hinsert
    rw [h _ id j s'' hprefix (hafter ▸ herase)] at hleft
    cases hleft

theorem inserted_twice :
    let s := empty.after [.insert ⟨7⟩, .insert ⟨7⟩]
    s.cells.count (some ⟨7⟩) = 2 ∧ ∃ s', s.erase ⟨7⟩ = .ok (0, s') ∧ s'.contains ⟨7⟩ = true :=
  ⟨by decide, _, rfl, by decide⟩

end ControllerSlots

end InputRelay
