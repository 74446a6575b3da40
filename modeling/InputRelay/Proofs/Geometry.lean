import InputRelay.Geometry
import Mathlib.Algebra.Order.Group.MinMax
import Mathlib.Tactic.Ring

namespace InputRelay

def clamp32 (n : ℤ) : ℤ :=
  max (-2 ^ 31) (min n (2 ^ 31 - 1))

theorem clamp32_mono {m n : ℤ} (h : m ≤ n) : clamp32 m ≤ clamp32 n :=
  max_le_max le_rfl (min_le_min_right _ h)

def Fits32 (n : ℤ) : Prop :=
  -2 ^ 31 ≤ n ∧ n ≤ 2 ^ 31 - 1

instance (n : ℤ) : Decidable (Fits32 n) :=
  inferInstanceAs (Decidable (_ ∧ _))

theorem Fits32.clamp32_eq {n : ℤ} (h : Fits32 n) : clamp32 n = n := by
  rw [Fits32] at h
  rw [clamp32]
  omega

theorem toInt_ofIntClamp (n : ℤ) : (Int32.ofIntClamp n).toInt = clamp32 n := by
  have hmin := Int32.toInt_minValue
  have hmax := Int32.toInt_maxValue
  unfold clamp32
  by_cases hlow : Int32.minValue.toInt ≤ n
  · by_cases hhigh : n ≤ Int32.maxValue.toInt
    · rw [Int32.toInt_ofIntClamp hlow hhigh]
      omega
    · rw [Int32.ofIntClamp, dif_pos hlow, dif_neg hhigh]
      omega
  · rw [Int32.ofIntClamp, dif_neg hlow]
    omega

section Mirror

variable {extent : UInt32} {value : Int32}

/-- The extent reaches farther from the coordinate than 32 bits do, so its reflection is clamped. -/
def Overreaches (extent : UInt32) (value : Int32) : Prop :=
  2 ^ 31 - 1 < extent.toNat - value.toInt

theorem toInt_mirrorCoordinate (extent : UInt32) (value : Int32) :
    (mirrorCoordinate extent value).toInt = min (extent.toNat - value.toInt) (2 ^ 31 - 1) := by
  have hlt := value.toInt_lt
  rw [mirrorCoordinate, toInt_ofIntClamp, clamp32]
  omega

theorem mirrorCoordinate_mirrorCoordinate_eq_iff :
    mirrorCoordinate extent (mirrorCoordinate extent value) = value ↔
      ¬ Overreaches extent value ∨ extent.toNat = 2 ^ 32 - 1 ∧ value.toInt = 2 ^ 31 - 1 := by
  have hextent := extent.toNat_lt
  have hvalue := value.toInt_lt
  rw [← Int32.toInt_inj, toInt_mirrorCoordinate, toInt_mirrorCoordinate, Overreaches]
  omega

/-- A coordinate that comes back after its reflection was clamped is the greatest that there is, and
then the second reflection is clamped as well. -/
theorem overreaches_twice_iff
    (h : mirrorCoordinate extent (mirrorCoordinate extent value) = value) :
    Overreaches extent value ∧ Overreaches extent (mirrorCoordinate extent value) ↔
      extent.toNat = 2 ^ 32 - 1 ∧ value.toInt = 2 ^ 31 - 1 := by
  have hextent := extent.toNat_lt
  have hback := mirrorCoordinate_mirrorCoordinate_eq_iff.mp h
  rw [Overreaches, Overreaches, toInt_mirrorCoordinate]
  rw [Overreaches] at hback
  omega

theorem mirrorCoordinate_mem (hlow : 0 ≤ value.toInt) (hhigh : value.toInt ≤ extent.toNat) :
    0 ≤ (mirrorCoordinate extent value).toInt ∧
      (mirrorCoordinate extent value).toInt ≤ extent.toNat := by
  rw [toInt_mirrorCoordinate]
  omega

end Mirror

def Inversion.along (axes : Inversion) (horizontal : Bool) : Bool :=
  if horizontal then axes.x else axes.y

def Size.along (s : Size) (horizontal : Bool) : UInt32 :=
  if horizontal then s.width else s.height

namespace Point

def along (p : Point) (horizontal : Bool) : Int32 :=
  if horizontal then p.x else p.y

theorem eq_iff_along {p q : Point} :
    p = q ↔ ∀ horizontal, p.along horizontal = q.along horizontal := by
  obtain ⟨x, y⟩ := p
  obtain ⟨x', y'⟩ := q
  simp [along, and_comm]

theorem along_mirror (p : Point) (frame : Size) (axes : Inversion) (horizontal : Bool) :
    (p.mirror frame axes).along horizontal =
      if axes.along horizontal then mirrorCoordinate (frame.along horizontal) (p.along horizontal)
      else p.along horizontal := by
  cases horizontal <;> rfl

variable {p : Point} {frame : Size} {axes : Inversion} {horizontal : Bool}

theorem along_mirror_of_inverted (h : axes.along horizontal = true) :
    (p.mirror frame axes).along horizontal =
      mirrorCoordinate (frame.along horizontal) (p.along horizontal) := by
  rw [along_mirror, if_pos h]

theorem along_mirror_of_kept (h : axes.along horizontal = false) :
    (p.mirror frame axes).along horizontal = p.along horizontal := by
  rw [along_mirror, h, if_neg Bool.false_ne_true]

theorem mirror_mirror_eq_iff : (p.mirror frame axes).mirror frame axes = p ↔
    ∀ horizontal, axes.along horizontal = true →
      mirrorCoordinate (frame.along horizontal)
        (mirrorCoordinate (frame.along horizontal) (p.along horizontal)) = p.along horizontal := by
  rw [eq_iff_along]
  refine forall_congr' fun horizontal ↦ ?_
  cases h : axes.along horizontal with
  | false => simp [along_mirror_of_kept h]
  | true => simp [along_mirror_of_inverted h]

/-- A reflection undoes itself exactly where it is not clamped, but for the greatest coordinate in
the widest frame. There both reflections are clamped, as they are for the other coordinates, which
do not come back. No reflection is clamped at the lower end, and none leaves the frame. -/
theorem mirror_involutive_iff (p : Point) (frame : Size) (axes : Inversion) :
    let q := p.mirror frame axes
    (q.mirror frame axes = p ↔ ∀ horizontal, axes.along horizontal = true →
      (frame.along horizontal).toNat - (p.along horizontal).toInt ≤ 2 ^ 31 - 1 ∨
        (frame.along horizontal).toNat = 2 ^ 32 - 1 ∧ (p.along horizontal).toInt = 2 ^ 31 - 1) ∧
    ∀ horizontal,
      let extent := frame.along horizontal
      let value := p.along horizontal
      let image := q.along horizontal
      (axes.along horizontal = false → image = value) ∧
      (axes.along horizontal = true →
        image.toInt = min (extent.toNat - value.toInt) (2 ^ 31 - 1) ∧
        ((q.mirror frame axes).along horizontal = value →
          (Overreaches extent value ∧ Overreaches extent image ↔
            extent.toNat = 2 ^ 32 - 1 ∧ value.toInt = 2 ^ 31 - 1)) ∧
        (0 ≤ value.toInt → value.toInt ≤ extent.toNat →
          0 ≤ image.toInt ∧ image.toInt ≤ extent.toNat)) := by
  intro q
  refine ⟨?_, fun horizontal ↦ ⟨along_mirror_of_kept, fun h ↦ ?_⟩⟩
  · rw [mirror_mirror_eq_iff]
    simp only [mirrorCoordinate_mirrorCoordinate_eq_iff, Overreaches, not_lt]
  · have himage : q.along horizontal =
        mirrorCoordinate (frame.along horizontal) (p.along horizontal) :=
      along_mirror_of_inverted h
    have hback : (q.mirror frame axes).along horizontal =
        mirrorCoordinate (frame.along horizontal) (q.along horizontal) :=
      along_mirror_of_inverted h
    simp only [hback, himage]
    exact ⟨toInt_mirrorCoordinate _ _, overreaches_twice_iff, mirrorCoordinate_mem⟩

theorem mirror_involutive_iff_widest :
    let frame : Size := ⟨0xffffffff, 1920⟩
    let axes : Inversion := ⟨true, true⟩
    let last : Point := ⟨0x7fffffff, 5⟩
    let first : Point := ⟨0, 5⟩
    (last.mirror frame axes).mirror frame axes = last ∧
      (first.mirror frame axes).mirror frame axes ≠ first ∧
      (0 ≤ ((first.mirror frame axes).along true).toInt ∧
        ((first.mirror frame axes).along true).toInt ≤ (frame.along true).toNat) := by
  intro frame axes last first
  have hlast := mirror_involutive_iff last frame axes
  have hfirst := mirror_involutive_iff first frame axes
  exact ⟨hlast.1.mpr (by decide), mt hfirst.1.mp (by decide),
    ((hfirst.2 true).2 rfl).2.2 (by decide) (by decide)⟩

end Point

end InputRelay
