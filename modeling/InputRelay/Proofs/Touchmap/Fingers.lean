import InputRelay.Proofs.Touchmap.Contacts
import InputRelay.Touchmap.Document
import Mathlib.Algebra.Group.Nat.Defs

namespace InputRelay

namespace PointerId

def mapped (i : ℕ) : PointerId := ⟨UInt64.ofNat (100 + i)⟩

theorem mapped_inj {i j : ℕ} (hi : i < 2 ^ 64) (hj : j < 2 ^ 64) (h : mapped i = mapped j) :
    i = j := by
  have hval : (UInt64.ofNat (100 + i)).toNat = (UInt64.ofNat (100 + j)).toNat :=
    congrArg (fun f : PointerId ↦ f.val.toNat) h
  simp only [UInt64.toNat_ofNat'] at hval
  omega

/-- The identities that are kept for the mouse and its second finger. -/
def reserved : List PointerId := [.mouse, .genericFinger, .virtualMouse, .virtualFinger]

theorem mapped_not_mem_reserved {i : ℕ} (hi : i < 2 ^ 64 - 104) : mapped i ∉ reserved := by
  have hval : (mapped i).val.toNat = 100 + i := by
    simp only [mapped, UInt64.toNat_ofNat']
    omega
  intro h
  have hbound : ∀ f ∈ reserved, 2 ^ 64 - 4 ≤ f.val.toNat := by decide
  have := hbound _ h
  omega

end PointerId

namespace TouchmapBuilder

def fingers (b : TouchmapBuilder) : List PointerId :=
  b.walk.toList.map (·.finger) ++ b.controls.map (·.finger)

/-- A builder that has handed out `n` fingers holds some of them, none twice. -/
structure Numbered (b : TouchmapBuilder) (n : ℕ) : Prop where
  next : b.nextFinger = .mapped n
  fingers : ∃ is : List ℕ, b.fingers = is.map .mapped ∧ is.Nodup ∧ ∀ i ∈ is, i < n

theorem numbered_empty : Numbered {} 0 :=
  ⟨rfl, [], rfl, List.nodup_nil, by simp⟩

theorem mapped_succ (n : ℕ) : (⟨(PointerId.mapped n).val + 1⟩ : PointerId) = .mapped (n + 1) := by
  simp only [PointerId.mapped, PointerId.mk.injEq]
  rw [← UInt64.toNat_inj]
  simp only [UInt64.toNat_add, UInt64.toNat_ofNat', UInt64.toNat_one]
  omega

variable {b : TouchmapBuilder} {n : ℕ}

theorem Numbered.addControl (h : b.Numbered n) (code : ButtonCode) (center : Point)
    (kind : ControlKind) : (b.addControl code center kind).Numbered (n + 1) := by
  obtain ⟨is, his, hnodup, hlt⟩ := h.fingers
  refine ⟨?_, is ++ [n], ?_, ?_, ?_⟩
  · simp only [TouchmapBuilder.addControl, takeFinger, h.next, mapped_succ]
  · simp only [TouchmapBuilder.fingers] at his
    simp [TouchmapBuilder.fingers, TouchmapBuilder.addControl, takeFinger, h.next, ← his]
  · refine List.nodup_append.mpr ⟨hnodup, List.nodup_singleton n, ?_⟩
    intro i hi j hj hij
    have := hlt i hi
    simp only [List.mem_singleton] at hj
    omega
  · intro i hi
    rcases List.mem_append.mp hi with hi | hi
    · exact Nat.lt_succ_of_lt (hlt i hi)
    · exact (List.mem_singleton.mp hi) ▸ Nat.lt_succ_self n

theorem Numbered.setWalk (h : b.Numbered n) (hwalk : b.walk = none) (center : Point)
    (radius : Int32) : (b.setWalk center radius).Numbered (n + 1) := by
  obtain ⟨is, his, hnodup, hlt⟩ := h.fingers
  refine ⟨?_, n :: is, ?_, ?_, ?_⟩
  · simp only [TouchmapBuilder.setWalk, takeFinger, h.next, mapped_succ]
  · simp only [TouchmapBuilder.fingers, hwalk] at his
    simpa [TouchmapBuilder.fingers, TouchmapBuilder.setWalk, takeFinger, h.next] using his
  · exact List.nodup_cons.mpr ⟨fun hn ↦ Nat.lt_irrefl n (hlt n hn), hnodup⟩
  · intro i hi
    rcases List.mem_cons.mp hi with rfl | hi
    · exact Nat.lt_succ_self i
    · exact Nat.lt_succ_of_lt (hlt i hi)

theorem Numbered.build (h : b.Numbered n) :
    ∃ is : List ℕ, b.build.1.fingers.Perm (is.map .mapped) ∧ is.Nodup ∧ ∀ i ∈ is, i < n := by
  obtain ⟨is, his, hnodup, hlt⟩ := h.fingers
  refine ⟨is, ?_, hnodup, hlt⟩
  rw [← his]
  exact List.Perm.append_left _ ((List.mergeSort_perm _ _).map _)

theorem length_fingers_build (b : TouchmapBuilder) :
    b.build.1.fingers.length = b.fingers.length := by
  simp [build, Touchmap.fingers, fingers]

end TouchmapBuilder

namespace Touchmap

/-- Every control of a map has a finger of its own, and none of them has one of the mouse. -/
structure OwnFingers (m : Touchmap) : Prop where
  nodup : m.fingers.Nodup
  not_reserved : ∀ f ∈ m.fingers, f ∉ PointerId.reserved

end Touchmap

namespace TouchmapBuilder

variable {b : TouchmapBuilder} {n : ℕ}

theorem Numbered.ownFingers (h : b.Numbered n) (hn : n ≤ 2 ^ 64 - 104) :
    b.build.1.OwnFingers := by
  obtain ⟨is, hperm, hnodup, hlt⟩ := h.build
  constructor
  · rw [hperm.nodup_iff]
    refine List.Nodup.map_on ?_ hnodup
    intro i hi j hj hij
    have hi := hlt i hi
    have hj := hlt j hj
    exact PointerId.mapped_inj (by omega) (by omega) hij
  · intro f hf
    obtain ⟨i, hi, rfl⟩ := List.mem_map.mp (hperm.subset hf)
    exact PointerId.mapped_not_mem_reserved (Nat.lt_of_lt_of_le (hlt i hi) hn)

theorem Numbered.foldl {α : Type} (add : TouchmapBuilder → α → TouchmapBuilder)
    (hadd : ∀ b a, add b a = b ∨ ∃ code center kind, add b a = b.addControl code center kind)
    (entries : List α) (h : b.Numbered n) (hn : b.fingers.length = n) :
    ∃ n, (entries.foldl add b).Numbered n ∧ (entries.foldl add b).fingers.length = n := by
  induction entries generalizing b n with
  | nil => exact ⟨n, h, hn⟩
  | cons a entries ih =>
    rw [List.foldl_cons]
    rcases hadd b a with ha | ⟨code, center, kind, ha⟩
    · rw [ha]
      exact ih h hn
    · rw [ha]
      refine ih (h.addControl code center kind) ?_
      simp only [TouchmapBuilder.fingers, List.length_append, List.length_map] at hn
      simp [TouchmapBuilder.fingers, TouchmapBuilder.addControl, takeFinger, ← hn, Nat.add_assoc]

end TouchmapBuilder

theorem Mappings.ownFingers (m : Mappings) (h : m.touchmap.fingers.length ≤ 2 ^ 64 - 104) :
    m.touchmap.OwnFingers := by
  have hwalk : ∃ n, (m.walk.toList.foldl TouchmapBuilder.addWalkEntry {}).Numbered n ∧
      (m.walk.toList.foldl TouchmapBuilder.addWalkEntry {}).fingers.length = n := by
    rcases m.walk with _ | ⟨_ | center, _ | radius⟩
    · exact ⟨0, TouchmapBuilder.numbered_empty, rfl⟩
    · exact ⟨0, TouchmapBuilder.numbered_empty, rfl⟩
    · exact ⟨0, TouchmapBuilder.numbered_empty, rfl⟩
    · exact ⟨0, TouchmapBuilder.numbered_empty, rfl⟩
    · exact ⟨1, TouchmapBuilder.numbered_empty.setWalk rfl center radius, rfl⟩
  obtain ⟨n, hn, hlen⟩ := hwalk
  obtain ⟨n, hn, hlen⟩ := hn.foldl TouchmapBuilder.addButtonEntry
    (fun b e ↦ by rcases e with ⟨_ | touch, _ | name⟩ <;> simp [TouchmapBuilder.addButtonEntry])
    m.buttons hlen
  obtain ⟨n, hn, hlen⟩ := hn.foldl TouchmapBuilder.addSkillEntry
    (fun b e ↦ by
      rcases e with ⟨_ | center, _ | radius, _ | name⟩ <;> simp [TouchmapBuilder.addSkillEntry])
    m.skills hlen
  refine hn.ownFingers ?_
  rwa [← hlen, ← TouchmapBuilder.length_fingers_build]

end InputRelay
