import InputRelay.Binary.Rounding
import Mathlib.Algebra.Order.Ring.Nat

namespace InputRelay.Binary

theorem roundDiv_le {num den n : ℕ} (h : num < n * den) : roundDiv num den ≤ n := by
  have hq : num / den < n := Nat.div_lt_of_lt_mul (Nat.mul_comm n den ▸ h)
  unfold roundDiv
  dsimp only
  split
  · omega
  split <;> omega

theorem le_roundDiv {num den n : ℕ} (hden : 0 < den) (h : n * den ≤ num) :
    n ≤ roundDiv num den := by
  have hq : n ≤ num / den := (Nat.le_div_iff_mul_le hden).mpr h
  unfold roundDiv
  dsimp only
  split
  · omega
  split <;> omega

/-- A quotient is rounded up to an even number from half the way on. -/
theorem even_le_roundDiv_iff {num den n : ℕ} (hden : 0 < den) :
    2 * n ≤ roundDiv num den ↔ (4 * n - 1) * den ≤ 2 * num := by
  have hmod := Nat.mod_lt num hden
  have hdouble : 2 * num / den = 2 * (num / den) + 2 * (num % den) / den := by
    conv_lhs => rw [← Nat.div_add_mod num den, Nat.mul_add, Nat.mul_left_comm]
    rw [Nat.mul_add_div hden]
  rw [← Nat.le_div_iff_mul_le hden, hdouble]
  unfold roundDiv
  dsimp only
  split
  · rename_i hlow
    rw [Nat.div_eq_of_lt hlow]
    omega
  · have hone : 2 * (num % den) / den = 1 := Nat.div_eq_of_lt_le (by omega) (by omega)
    rw [hone]
    split <;> omega

namespace Format

variable {f : Format} {k m e num den scaled : ℕ}

theorem nearest_eq (hprecision : f.precision = k + 1)
    (he : (num * 2 ^ f.depth / den).log2 - k = e) :
    f.nearest num den =
      min (e * 2 ^ k + roundDiv (num * 2 ^ f.depth) (den * 2 ^ e)) f.infinity := by
  simp only [nearest, Nat.shiftLeft_eq, hprecision, Nat.add_sub_add_right, he, Nat.add_sub_cancel]

/-- The exponent of a quotient, with as many binary digits as there are. -/
theorem lt_of_log2 (hden : 0 < den) (he : (scaled / den).log2 - k = e) :
    scaled < 2 * 2 ^ k * (den * 2 ^ e) := by
  have hquotient : scaled / den < 2 * 2 ^ k * 2 ^ e := by
    calc
      scaled / den < 2 ^ ((scaled / den).log2 + 1) := Nat.lt_log2_self
      _ ≤ 2 ^ (k + 1 + e) := Nat.pow_le_pow_right (by omega) (by omega)
      _ = 2 * 2 ^ k * 2 ^ e := by rw [Nat.pow_add, Nat.pow_succ']
  calc
    scaled < 2 * 2 ^ k * 2 ^ e * den := (Nat.div_lt_iff_lt_mul hden).mp hquotient
    _ = 2 * 2 ^ k * (den * 2 ^ e) := by rw [Nat.mul_assoc, Nat.mul_comm (2 ^ e)]

theorem le_of_log2 (hden : 0 < den) (he : (scaled / den).log2 - k = e) (hpos : 0 < e) :
    2 ^ k * (den * 2 ^ e) ≤ scaled := by
  have hne : scaled / den ≠ 0 := by
    intro h
    rw [h, Nat.log2_zero] at he
    omega
  have hquotient : 2 ^ k * 2 ^ e ≤ scaled / den := by
    rw [← Nat.pow_add, show k + e = (scaled / den).log2 by omega]
    exact Nat.log2_self_le hne
  calc
    2 ^ k * (den * 2 ^ e) = 2 ^ k * 2 ^ e * den := by rw [Nat.mul_assoc, Nat.mul_comm (2 ^ e)]
    _ ≤ scaled := (Nat.le_div_iff_mul_le hden).mp hquotient

theorem nearest_eq_infinity_iff_scaled (hprecision : f.precision = k + 1)
    (hinfinity : f.infinity = (m + 2) * 2 ^ k) (hden : 0 < den) :
    f.nearest num den = f.infinity ↔
      (4 * 2 ^ k - 1) * (den * 2 ^ m) ≤ 2 * (num * 2 ^ f.depth) := by
  obtain ⟨e, he⟩ : ∃ e, (num * 2 ^ f.depth / den).log2 - k = e := ⟨_, rfl⟩
  rw [nearest_eq hprecision he, min_eq_right_iff, hinfinity, Nat.add_mul]
  generalize num * 2 ^ f.depth = scaled at he ⊢
  have hunit : 0 < den * 2 ^ e := Nat.mul_pos hden (Nat.two_pow_pos e)
  have hdigits : 0 < 2 ^ k := Nat.two_pow_pos k
  have hlt := lt_of_log2 hden he
  rcases Nat.lt_trichotomy e m with hsmall | rfl | hlarge
  · have hround : roundDiv scaled (den * 2 ^ e) ≤ 2 * 2 ^ k := roundDiv_le hlt
    have hexponent : e * 2 ^ k + 2 ^ k ≤ m * 2 ^ k :=
      Nat.succ_mul e (2 ^ k) ▸ Nat.mul_le_mul_right (2 ^ k) hsmall
    have hbelow : 2 * scaled < (4 * 2 ^ k - 1) * (den * 2 ^ m) := by
      calc
        2 * scaled < 2 * (2 * 2 ^ k * (den * 2 ^ e)) := Nat.mul_lt_mul_of_pos_left hlt (by omega)
        _ = 2 * 2 ^ k * (den * 2 ^ (e + 1)) := by
          rw [Nat.pow_succ', Nat.mul_left_comm den, Nat.mul_left_comm]
        _ ≤ (4 * 2 ^ k - 1) * (den * 2 ^ m) := Nat.mul_le_mul (by omega)
          (Nat.mul_le_mul_left den (Nat.pow_le_pow_right (by omega) hsmall))
    omega
  · rw [Nat.add_le_add_iff_left]
    exact even_le_roundDiv_iff hunit
  · have hround : 2 ^ k ≤ roundDiv scaled (den * 2 ^ e) :=
      le_roundDiv hunit (le_of_log2 hden he (by omega))
    have hexponent : m * 2 ^ k + 2 ^ k ≤ e * 2 ^ k :=
      Nat.succ_mul m (2 ^ k) ▸ Nat.mul_le_mul_right (2 ^ k) hlarge
    have habove : (4 * 2 ^ k - 1) * (den * 2 ^ m) ≤ 2 * scaled := by
      calc
        (4 * 2 ^ k - 1) * (den * 2 ^ m) ≤ 4 * 2 ^ k * (den * 2 ^ m) :=
          Nat.mul_le_mul_right _ (by omega)
        _ = 2 * (2 ^ k * (den * 2 ^ (m + 1))) := by
          rw [Nat.pow_succ', Nat.mul_left_comm den, Nat.mul_left_comm (2 ^ k), Nat.mul_assoc 4]
          omega
        _ ≤ 2 * (2 ^ k * (den * 2 ^ e)) := Nat.mul_le_mul_left 2 (Nat.mul_le_mul_left _
          (Nat.mul_le_mul_left den (Nat.pow_le_pow_right (by omega) hlarge)))
        _ ≤ 2 * scaled := Nat.mul_le_mul_left 2 (le_of_log2 hden he (by omega))
    omega

/-- Infinity stands for what is half the way or more from the largest value to the next one that
there would be. -/
theorem nearest_eq_infinity_iff (hprecision : f.precision = k + 1)
    (hinfinity : f.infinity = (m + (f.depth + 1) + 2) * 2 ^ k) (hden : 0 < den) :
    f.nearest num den = f.infinity ↔ (4 * 2 ^ k - 1) * 2 ^ m * den ≤ num := by
  have hleft : (4 * 2 ^ k - 1) * (den * 2 ^ (m + (f.depth + 1))) =
      (4 * 2 ^ k - 1) * 2 ^ m * den * 2 ^ (f.depth + 1) := by
    rw [Nat.pow_add, Nat.mul_left_comm den, Nat.mul_assoc, Nat.mul_assoc]
  have hright : 2 * (num * 2 ^ f.depth) = num * 2 ^ (f.depth + 1) := by
    rw [Nat.pow_succ', Nat.mul_left_comm]
  rw [nearest_eq_infinity_iff_scaled hprecision hinfinity hden, hleft, hright,
    Nat.mul_le_mul_right_iff (Nat.two_pow_pos _)]

end Format

end InputRelay.Binary
