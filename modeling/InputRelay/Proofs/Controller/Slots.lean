import InputRelay.Controller.Slots
import Mathlib.Data.List.ReduceOption

namespace InputRelay

theorem reduceOption_set {α : Type} {l : List (Option α)} {i : ℕ} (hi : i < l.length) (a : α) :
    (l.set i (some a)).reduceOption.Perm (a :: (l.set i none).reduceOption) := by
  simp only [List.set_eq_take_append_cons_drop, if_pos hi, List.reduceOption_append,
    List.reduceOption_cons_of_some, List.reduceOption_cons_of_none]
  exact List.perm_middle

namespace ControllerSlots

variable (s : ControllerSlots) {id : ControllerId} {i : ℕ}

def ids : List ControllerId :=
  s.cells.reduceOption

theorem contains_iff : s.contains id = true ↔ id ∈ s.ids := by
  rw [contains, List.contains_iff_mem, ids, List.reduceOption_mem_iff]

theorem length_ids_le : s.ids.length ≤ 16 :=
  s.length_cells ▸ List.reduceOption_length_le s.cells

theorem isFull_iff : s.isFull = true ↔ s.ids.length = 16 := by
  rw [isFull, List.all_eq_true, ids, ← s.length_cells, List.reduceOption_length_eq_iff]

theorem ids_set_some (hi : i < s.cells.length) (hcell : s.cells[i] = none) (id : ControllerId) :
    (s.set i (some id)).ids.Perm (id :: s.ids) := by
  have hperm := reduceOption_set hi id
  rwa [← hcell, List.set_getElem_self] at hperm

theorem ids_set_none (hi : i < s.cells.length) (hcell : s.cells[i] = some id) :
    s.ids.Perm (id :: (s.set i none).ids) := by
  have hperm := reduceOption_set hi id
  rwa [← hcell, List.set_getElem_self] at hperm

def IsFirst (i : ℕ) (cell : Option ControllerId) : Prop :=
  s.cells[i]? = some cell ∧ ∀ j < i, s.cells[j]? ≠ some cell

theorem isFirst_iff {cell : Option ControllerId} :
    s.IsFirst i cell ↔ s.cells.findIdx? (· == cell) = some i := by
  rw [List.findIdx?_eq_some_iff_getElem, IsFirst]
  constructor
  · rintro ⟨hi, hfirst⟩
    obtain ⟨hlt, hcell⟩ := List.getElem?_eq_some_iff.mp hi
    refine ⟨hlt, beq_iff_eq.mpr hcell, fun j hj hbeq ↦ hfirst j hj ?_⟩
    exact List.getElem?_eq_some_iff.mpr ⟨Nat.lt_trans hj hlt, beq_iff_eq.mp hbeq⟩
  · rintro ⟨hlt, hcell, hfirst⟩
    refine ⟨List.getElem?_eq_some_iff.mpr ⟨hlt, beq_iff_eq.mp hcell⟩, fun j hj hsome ↦ ?_⟩
    exact hfirst j hj (beq_iff_eq.mpr (List.getElem?_eq_some_iff.mp hsome).2)

/-- A controller is put into the first slot that is free, if one is. -/
theorem insert_cases (id : ControllerId) :
    (s.ids.length = 16 ∧ s.insert id = .error .capacityExceeded) ∨
      ∃ i, s.ids.length < 16 ∧ s.IsFirst i none ∧ s.insert id = .ok (i, s.set i (some id)) := by
  have hnone : (Option.isNone : Option ControllerId → Bool) = (· == none) := by
    funext cell
    cases cell <;> rfl
  unfold insert
  cases hfirst : s.cells.findIdx? Option.isNone with
  | none =>
    refine Or.inl ⟨s.isFull_iff.mp (List.all_eq_true.mpr fun cell hcell ↦ ?_), rfl⟩
    exact Option.isNone_eq_false_iff.mp (List.findIdx?_eq_none_iff.mp hfirst cell hcell)
  | some i =>
    have hi : s.IsFirst i none := s.isFirst_iff.mpr (hnone ▸ hfirst)
    refine Or.inr ⟨i, Nat.lt_of_le_of_ne s.length_ids_le fun hfull ↦ ?_, hi, rfl⟩
    have hcell := List.all_eq_true.mp (s.isFull_iff.mpr hfull) none (List.mem_of_getElem? hi.1)
    cases hcell

theorem erase_cases (id : ControllerId) :
    (id ∉ s.ids ∧ s.erase id = .error (.notFound id)) ∨
      ∃ i, id ∈ s.ids ∧ s.IsFirst i (some id) ∧ s.erase id = .ok (i, s.set i none) := by
  unfold erase
  cases hfirst : s.cells.findIdx? (· == some id) with
  | none =>
    refine Or.inl ⟨fun hmem ↦ ?_, rfl⟩
    have hcell :=
      List.findIdx?_eq_none_iff.mp hfirst (some id) (List.reduceOption_mem_iff.mp hmem)
    rw [beq_self_eq_true] at hcell
    cases hcell
  | some i =>
    have hi := s.isFirst_iff.mpr hfirst
    exact Or.inr ⟨i, List.reduceOption_mem_iff.mpr (List.mem_of_getElem? hi.1), hi, rfl⟩

variable {s}

theorem IsFirst.perm_insert (h : s.IsFirst i none) (id : ControllerId) :
    (s.set i (some id)).ids.Perm (id :: s.ids) := by
  obtain ⟨hlt, hcell⟩ := List.getElem?_eq_some_iff.mp h.1
  exact s.ids_set_some hlt hcell id

theorem IsFirst.perm_erase (h : s.IsFirst i (some id)) :
    s.ids.Perm (id :: (s.set i none).ids) := by
  obtain ⟨hlt, hcell⟩ := List.getElem?_eq_some_iff.mp h.1
  exact s.ids_set_none hlt hcell

theorem perm_of_insert {s' : ControllerSlots} (h : s.insert id = .ok (i, s')) :
    s'.ids.Perm (id :: s.ids) := by
  rcases s.insert_cases id with ⟨-, herror⟩ | ⟨j, -, hfirst, hok⟩
  · cases herror.symm.trans h
  · cases hok.symm.trans h
    exact hfirst.perm_insert id

theorem perm_of_erase {s' : ControllerSlots} (h : s.erase id = .ok (i, s')) :
    s.ids.Perm (id :: s'.ids) := by
  rcases s.erase_cases id with ⟨-, herror⟩ | ⟨j, -, hfirst, hok⟩
  · cases herror.symm.trans h
  · cases hok.symm.trans h
    exact hfirst.perm_erase

variable (s)

theorem insert_of_free (hfree : s.isFull = false) (id : ControllerId) :
    ∃ i slots, s.insert id = .ok (i, slots) ∧ slots.ids.Perm (id :: s.ids) := by
  rcases s.insert_cases id with ⟨hfull, -⟩ | ⟨i, -, hfirst, hok⟩
  · cases hfree.symm.trans (s.isFull_iff.mpr hfull)
  · exact ⟨i, _, hok, hfirst.perm_insert id⟩

theorem erase_of_mem (hmem : id ∈ s.ids) :
    ∃ i slots, s.erase id = .ok (i, slots) ∧ s.ids.Perm (id :: slots.ids) := by
  rcases s.erase_cases id with ⟨hmissing, -⟩ | ⟨i, -, hfirst, hok⟩
  · exact absurd hmem hmissing
  · exact ⟨i, _, hok, hfirst.perm_erase⟩

end ControllerSlots

end InputRelay
