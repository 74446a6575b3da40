import InputRelay.Event
import InputRelay.Shortcut
import Mathlib.Data.List.Basic

namespace InputRelay

namespace Modifiers

theorem intersects_iff {m n : Modifiers} : m.intersects n = true ↔ m.bits &&& n.bits ≠ 0#16 := by
  rw [intersects, bne_iff_ne, ne_eq, ne_eq, not_iff_not]
  exact Modifiers.mk.injEq .. ▸ Iff.rfl

theorem intersects_or (held m n : Modifiers) :
    held.intersects (m ||| n) = true ↔ held.intersects m = true ∨ held.intersects n = true := by
  simp only [intersects_iff]
  show held.bits &&& (m.bits ||| n.bits) ≠ 0#16 ↔ _
  rw [BitVec.and_or_distrib_left, ne_eq, BitVec.or_eq_zero_iff, not_and_or]

theorem intersects_comm (m n : Modifiers) : m.intersects n = n.intersects m := by
  show ((⟨m.bits &&& n.bits⟩ : Modifiers) != none) = ((⟨n.bits &&& m.bits⟩ : Modifiers) != none)
  rw [BitVec.and_comm]

theorem contains_iff {m n : Modifiers} : m.contains n = true ↔ m.bits &&& n.bits = n.bits := by
  rw [contains, beq_iff_eq]
  exact Modifiers.mk.injEq .. ▸ Iff.rfl

/-- A set of flags holds a single one as soon as it meets it. -/
theorem intersects_iff_contains {flag : Modifiers} {i : ℕ} (hi : i < 16)
    (hflag : flag.bits = BitVec.twoPow 16 i) (held : Modifiers) :
    held.intersects flag = true ↔ held.contains flag = true := by
  have hne : BitVec.twoPow 16 i ≠ 0#16 := by
    intro h
    have hbit := congrArg (BitVec.getLsbD · i) h
    simp [hi] at hbit
  rw [intersects_iff, contains_iff, hflag, BitVec.and_twoPow]
  split
  · simp [hne]
  · simp [hne.symm]

theorem contains_trans {m n o : Modifiers} (h : m.contains n = true) (h' : n.contains o = true) :
    m.contains o = true := by
  rw [contains_iff] at *
  rw [← h', ← BitVec.and_assoc, h]

end Modifiers

theorem KeyCode.exists_modifier?_eq {key : KeyCode} {flag : Modifiers}
    (h : key.modifier? = some flag) : ∃ i < 16, flag.bits = BitVec.twoPow 16 i := by
  cases key <;> cases h
  exacts [⟨0, by decide, rfl⟩, ⟨1, by decide, rfl⟩, ⟨2, by decide, rfl⟩, ⟨3, by decide, rfl⟩,
    ⟨4, by decide, rfl⟩, ⟨5, by decide, rfl⟩, ⟨6, by decide, rfl⟩, ⟨7, by decide, rfl⟩]

namespace ShortcutMod

def key : ShortcutMod → KeyCode
  | leftCtrl => .leftCtrl
  | rightCtrl => .rightCtrl
  | leftAlt => .leftAlt
  | rightAlt => .rightAlt
  | leftSuper => .leftSuper
  | rightSuper => .rightSuper

theorem modifier?_key (m : ShortcutMod) : m.key.modifier? = some m.flag := by
  cases m <;> rfl

theorem intersects_flag_iff (m : ShortcutMod) (held : Modifiers) :
    held.intersects m.flag = true ↔ held &&& m.flag = m.flag := by
  obtain ⟨i, hi, hflag⟩ := KeyCode.exists_modifier?_eq m.modifier?_key
  rw [Modifiers.intersects_iff_contains hi hflag, Modifiers.contains, beq_iff_eq]

theorem any_modifier?_iff (m : ShortcutMod) (key : KeyCode) :
    key.modifier?.any m.flag.intersects = true ↔ key = m.key := by
  cases m <;> cases key <;> simp [KeyCode.modifier?, ShortcutMod.key] <;> decide

end ShortcutMod

/-- A key event that may run a shortcut: it reports one of these modifiers as held, or its key is
one. -/
def KeyEvent.IsShortcut (mods : List ShortcutMod) (e : KeyEvent) : Prop :=
  ∃ m ∈ mods, e.mods &&& m.flag = m.flag ∨ e.key = m.key

instance (mods : List ShortcutMod) (e : KeyEvent) : Decidable (e.IsShortcut mods) :=
  inferInstanceAs (Decidable (∃ m ∈ mods, _))

namespace ShortcutMods

theorem intersects_ofList (held : Modifiers) (mods : List ShortcutMod) :
    held.intersects (ofList mods).flags = true ↔ ∃ m ∈ mods, held.intersects m.flag = true := by
  have hfold : ∀ acc : Modifiers,
      held.intersects (mods.foldl (fun acc m ↦ acc ||| m.flag) acc) = true ↔
        held.intersects acc = true ∨ ∃ m ∈ mods, held.intersects m.flag = true := by
    induction mods with
    | nil => simp
    | cons m mods ih =>
      intro acc
      rw [List.foldl_cons, ih, Modifiers.intersects_or, List.exists_mem_cons_iff, or_assoc]
  have hnone : ¬held.intersects .none = true := by
    rw [Modifiers.intersects_iff, not_not]
    exact BitVec.and_zero
  rw [ofList, hfold, or_iff_right hnone]

theorem eligible_contains_ofList (mods : List ShortcutMod) :
    eligible.contains (ofList mods).flags = true := by
  have hfold : ∀ acc : Modifiers, eligible.contains acc = true →
      eligible.contains (mods.foldl (fun acc m ↦ acc ||| m.flag) acc) = true := by
    induction mods with
    | nil => exact fun _ h ↦ h
    | cons m mods ih =>
      intro acc hacc
      apply ih
      have hm : eligible.contains m.flag = true := by cases m <;> rfl
      rw [Modifiers.contains_iff] at *
      show eligible.bits &&& (acc.bits ||| m.flag.bits) = acc.bits ||| m.flag.bits
      rw [BitVec.and_or_distrib_left, hacc, hm]
  exact hfold .none rfl

theorem isHeld_eq_intersects (mods : List ShortcutMod) (held : Modifiers) :
    (ofList mods).isHeld held = held.intersects (ofList mods).flags := by
  have heligible := eligible_contains_ofList mods
  rw [Modifiers.contains, beq_iff_eq] at heligible
  rw [isHeld, heligible]

theorem isShortcutKey_eq_contains (mods : List ShortcutMod) (key : KeyCode) :
    (ofList mods).isShortcutKey key = key.modifier?.any (ofList mods).flags.contains := by
  rw [isShortcutKey]
  congr 1
  funext flag
  cases h : (ofList mods).flags.contains flag with
  | false => exact Bool.and_false _
  | true => rw [Modifiers.contains_trans (eligible_contains_ofList mods) h, Bool.and_true]

theorem isHeld_ofList (mods : List ShortcutMod) (held : Modifiers) :
    (ofList mods).isHeld held = true ↔ ∃ m ∈ mods, held &&& m.flag = m.flag := by
  simp only [isHeld_eq_intersects, intersects_ofList, ShortcutMod.intersects_flag_iff]

theorem isShortcutKey_ofList (mods : List ShortcutMod) (key : KeyCode) :
    (ofList mods).isShortcutKey key = true ↔ ∃ m ∈ mods, key = m.key := by
  simp only [isShortcutKey_eq_contains, ← ShortcutMod.any_modifier?_iff]
  cases hkey : key.modifier? with
  | none => simp
  | some flag =>
    obtain ⟨i, hi, hflag⟩ := KeyCode.exists_modifier?_eq hkey
    rw [Option.any_some, ← Modifiers.intersects_iff_contains hi hflag]
    simp only [Option.any_some, Modifiers.intersects_comm _ flag, intersects_ofList]

/-- The mask of the modifiers tells the shortcuts from other key events. -/
theorem isShortcut_ofList (mods : List ShortcutMod) (e : KeyEvent) :
    (ofList mods).isShortcut e.key e.mods = true ↔ e.IsShortcut mods := by
  rw [isShortcut, Bool.or_eq_true, isHeld_ofList, isShortcutKey_ofList, KeyEvent.IsShortcut,
    ← exists_or]
  exact exists_congr fun m ↦ and_or_left.symm

end ShortcutMods

end InputRelay
