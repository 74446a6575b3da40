import InputRelay.Proofs.Geometry
import InputRelay.Proofs.Touchmap.Walk
import Mathlib.Data.Rat.Floor

namespace InputRelay

/-- The part of a number before its decimal point: the number rounded toward zero. -/
def integerPart (q : ℚ) : ℤ :=
  if 0 ≤ q then ⌊q⌋ else ⌈q⌉

theorem integerPart_div (a : ℤ) {n : ℕ} (hn : 0 < n) : integerPart (a / n) = a.tdiv n := by
  have hpos : (0 : ℚ) < n := Nat.cast_pos.mpr hn
  by_cases ha : 0 ≤ a
  · have hq : (0 : ℚ) ≤ a / n := div_nonneg (Int.cast_nonneg ha) hpos.le
    rw [integerPart, if_pos hq, Rat.floor_intCast_div_natCast, Int.tdiv_eq_ediv_of_nonneg ha]
  · have hneg : a < 0 := not_le.mp ha
    have hq : (a / n : ℚ) < 0 := div_neg_of_neg_of_pos (Int.cast_lt_zero.mpr hneg) hpos
    rw [integerPart, if_neg (not_le.mpr hq), Rat.ceil_intCast_div_natCast,
      ← Int.tdiv_eq_ediv_of_nonneg (by omega), Int.neg_tdiv, neg_neg]

/-- An axis value of at most the magnitude of full deflection. Only the least one is beyond. -/
def WithinScale (value : Int16) : Prop :=
  value.toInt.natAbs ≤ 32767

instance (value : Int16) : Decidable (WithinScale value) :=
  inferInstanceAs (Decidable (_ ≤ _))

theorem WithinScale.toInt_neg {value : Int16} (h : WithinScale value) :
    (-value).toInt = -value.toInt := by
  rw [WithinScale] at h
  rw [Int16.toInt_neg, Int.bmod_eq_of_le] <;> omega

def stickOffset (value : Int16) (radius : Int32) : ℤ :=
  integerPart (value.toInt * radius.toInt / 32767)

section Offset

variable {value : Int16} {radius : Int32}

theorem stickOffset_eq_tdiv (value : Int16) (radius : Int32) :
    stickOffset value radius = (value.toInt * radius.toInt).tdiv 32767 := by
  have h := integerPart_div (value.toInt * radius.toInt) (n := 32767) (by decide)
  rw [Int.cast_mul] at h
  exact h

theorem natAbs_stickOffset (value : Int16) (radius : Int32) :
    (stickOffset value radius).natAbs = value.toInt.natAbs * radius.toInt.natAbs / 32767 := by
  rw [stickOffset_eq_tdiv, Int.natAbs_tdiv, Int.natAbs_mul]
  rfl

theorem WithinScale.natAbs_stickOffset_le (h : WithinScale value) :
    (stickOffset value radius).natAbs ≤ radius.toInt.natAbs := by
  rw [natAbs_stickOffset]
  exact Nat.div_le_of_le_mul (Nat.mul_le_mul_right _ h)

/-- The value beyond the scale stays within a radius that is below full scale. -/
theorem natAbs_stickOffset_least_le (hradius : radius.toInt.natAbs ≤ 32766) :
    (stickOffset (-32768) radius).natAbs ≤ radius.toInt.natAbs := by
  have hvalue : (-32768 : Int16).toInt.natAbs = 32768 := by decide
  rw [natAbs_stickOffset, hvalue]
  omega

theorem stickOffset_full (radius : Int32) : stickOffset 32767 radius = radius.toInt := by
  have hvalue : (32767 : Int16).toInt = 32767 := by decide
  rw [stickOffset_eq_tdiv, hvalue, mul_comm, Int.mul_tdiv_cancel _ (by decide)]

theorem WithinScale.stickOffset_neg (h : WithinScale value) :
    stickOffset (-value) radius = -stickOffset value radius := by
  rw [stickOffset_eq_tdiv, stickOffset_eq_tdiv, h.toInt_neg, neg_mul, Int.neg_tdiv]

theorem stickOffset_mono {v w : Int16} (h : v ≤ w) (hradius : 0 ≤ radius.toInt) :
    stickOffset v radius ≤ stickOffset w radius := by
  rw [stickOffset_eq_tdiv, stickOffset_eq_tdiv]
  apply Int.tdiv_le_tdiv (by decide)
  exact mul_le_mul_of_nonneg_right (Int16.le_iff_toInt_le.mp h) hradius

theorem stickOffset_anti {v w : Int16} (h : v ≤ w) (hradius : radius.toInt ≤ 0) :
    stickOffset w radius ≤ stickOffset v radius := by
  rw [stickOffset_eq_tdiv, stickOffset_eq_tdiv]
  apply Int.tdiv_le_tdiv (by decide)
  exact mul_le_mul_of_nonpos_right (Int16.le_iff_toInt_le.mp h) hradius

end Offset

def stickTarget (center : Int32) (value : Int16) (radius : Int32) : Int64 :=
  center.toInt64 + value.toInt64 * radius.toInt64 / 32767

theorem natAbs_mul_natAbs_le (value : Int16) (radius : Int32) :
    value.toInt.natAbs * radius.toInt.natAbs ≤ 2 ^ 15 * 2 ^ 31 := by
  have hvalue := value.toInt_lt
  have hvalue' := value.le_toInt
  have hradius := radius.toInt_lt
  have hradius' := radius.le_toInt
  exact Nat.mul_le_mul (by omega) (by omega)

theorem toInt_stickTarget (center : Int32) (value : Int16) (radius : Int32) :
    (stickTarget center value radius).toInt = center.toInt + stickOffset value radius := by
  -- the product has at most 47 bits, and the quotient and the sum have fewer
  have hfit := natAbs_mul_natAbs_le value radius
  have hproduct : (value.toInt64 * radius.toInt64).toInt = value.toInt * radius.toInt := by
    have habs := Int.natAbs_mul value.toInt radius.toInt
    rw [Int64.toInt_mul, Int16.toInt_toInt64, Int32.toInt_toInt64, Int.bmod_eq_of_le] <;> omega
  have hoffset : (stickOffset value radius).natAbs ≤ 2 ^ 32 := by
    rw [natAbs_stickOffset]
    omega
  have hscale : (32767 : Int64).toInt = 32767 := by decide
  have hquotient : (value.toInt64 * radius.toInt64 / 32767).toInt = stickOffset value radius := by
    rw [Int64.toInt_div, hproduct, hscale, ← stickOffset_eq_tdiv, Int.bmod_eq_of_le] <;> omega
  have hlt := center.toInt_lt
  have hle := center.le_toInt
  rw [stickTarget, Int64.toInt_add, hquotient, Int32.toInt_toInt64, Int.bmod_eq_of_le] <;> omega

section Deflect

variable {center radius : Int32} {value : Int16}

theorem toInt_deflect (center : Int32) (value : Int16) (radius : Int32) :
    (deflect center value radius).toInt = clamp32 (center.toInt + stickOffset value radius) := by
  rw [deflect, toInt_ofIntClamp, stickOffset_eq_tdiv]
  rfl

theorem natAbs_deflect_sub_le_offset (center : Int32) (value : Int16) (radius : Int32) :
    ((deflect center value radius).toInt - center.toInt).natAbs ≤
      (stickOffset value radius).natAbs := by
  have hlt := center.toInt_lt
  have hle := center.le_toInt
  rw [toInt_deflect, clamp32]
  omega

theorem WithinScale.natAbs_deflect_sub_le (h : WithinScale value) (center radius : Int32) :
    ((deflect center value radius).toInt - center.toInt).natAbs ≤ radius.toInt.natAbs :=
  (natAbs_deflect_sub_le_offset center value radius).trans h.natAbs_stickOffset_le

theorem deflect_le_deflect {v w : Int16} (h : stickOffset v radius ≤ stickOffset w radius) :
    deflect center v radius ≤ deflect center w radius := by
  rw [Int32.le_iff_toInt_le, toInt_deflect, toInt_deflect]
  exact clamp32_mono (by omega)

/-- A stick value deflects a coordinate by its exact share of the radius, rounded toward the
centre, and 64 bits are enough to calculate it. Where nothing is clamped the deflection is odd in
the value, and it is always monotone. -/
theorem deflect_exact_bounded_monotone (center radius : Int32) :
    (∀ value, (deflect center value radius).toInt =
          clamp32 (center.toInt + stickOffset value radius) ∧
        (stickTarget center value radius).toInt = center.toInt + stickOffset value radius) ∧
    (∀ value, WithinScale value →
      ((deflect center value radius).toInt - center.toInt).natAbs ≤ radius.toInt.natAbs) ∧
    (deflect center 0 radius = center ∧
      (deflect center 32767 radius).toInt = clamp32 (center.toInt + radius.toInt) ∧
      (deflect center (-32767) radius).toInt = clamp32 (center.toInt - radius.toInt)) ∧
    (∀ value, WithinScale value → Fits32 (center.toInt + stickOffset value radius) →
      Fits32 (center.toInt + stickOffset (-value) radius) →
      (deflect center (-value) radius).toInt - center.toInt =
        -((deflect center value radius).toInt - center.toInt)) ∧
    (∀ v w, v ≤ w →
      (0 ≤ radius.toInt → deflect center v radius ≤ deflect center w radius) ∧
      (radius.toInt ≤ 0 → deflect center w radius ≤ deflect center v radius)) ∧
    (0 ≤ radius.toInt → radius.toInt ≤ 32766 →
      ((deflect center (-32768) radius).toInt - center.toInt).natAbs ≤ radius.toInt.natAbs) := by
  refine ⟨fun value ↦ ⟨toInt_deflect _ _ _, toInt_stickTarget _ _ _⟩,
    fun value h ↦ h.natAbs_deflect_sub_le center radius, ⟨deflect_zero _ _, ?_, ?_⟩, ?_, ?_, ?_⟩
  · rw [toInt_deflect, stickOffset_full]
  · have hfull : WithinScale 32767 := by decide
    rw [toInt_deflect, hfull.stickOffset_neg, stickOffset_full, sub_eq_add_neg]
  · intro value h hfits hfits'
    rw [toInt_deflect, toInt_deflect, hfits.clamp32_eq, hfits'.clamp32_eq, h.stickOffset_neg]
    ring
  · exact fun v w h ↦ ⟨fun hradius ↦ deflect_le_deflect (stickOffset_mono h hradius),
      fun hradius ↦ deflect_le_deflect (stickOffset_anti h hradius)⟩
  · intro hradius hradius'
    have hmagnitude : radius.toInt.natAbs ≤ 32766 := by omega
    exact (natAbs_deflect_sub_le_offset _ _ _).trans (natAbs_stickOffset_least_le hmagnitude)

theorem deflect_exact_bounded_monotone_edge :
    ((deflect 0x7ffffff0 20000 (-100)).toInt - 0x7ffffff0).natAbs ≤ 100 ∧
      (deflect 0x7fffffa0 (-20000) (-100)).toInt - 0x7fffffa0 =
        -((deflect 0x7fffffa0 20000 (-100)).toInt - 0x7fffffa0) ∧
      deflect 0x7ffffff0 20000 (-100) ≤ deflect 0x7ffffff0 (-20000) (-100) ∧
      ((deflect 0x7ffffff0 (-32768) 32766).toInt - 0x7ffffff0).natAbs ≤ 32766 := by
  obtain ⟨-, hbound, -, -, hmono, -⟩ := deflect_exact_bounded_monotone 0x7ffffff0 (-100)
  obtain ⟨-, -, -, hodd, -, -⟩ := deflect_exact_bounded_monotone 0x7fffffa0 (-100)
  obtain ⟨-, -, -, -, -, hleast⟩ := deflect_exact_bounded_monotone 0x7ffffff0 32766
  refine ⟨hbound 20000 (by decide), hodd 20000 (by decide) ?_ ?_,
    (hmono (-20000) 20000 (by decide)).2 (by decide), hleast (by decide) (by decide)⟩
  · rw [stickOffset_eq_tdiv]
    decide
  · rw [stickOffset_eq_tdiv]
    decide

end Deflect

end InputRelay
