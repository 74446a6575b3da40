import InputRelay.Text.Digits
import Mathlib.Algebra.Group.Nat.Defs
import Mathlib.Data.List.Induction

namespace InputRelay.Text

variable {b : ℕ}

theorem digitsOf_ne_nil (n : ℕ) : digitsOf b n ≠ [] :=
  Nat.toDigits_ne_nil

theorem digitsOf_induction (hb : 1 < b) {motive : ℕ → List Char → Prop}
    (single : ∀ d < b, motive d [Nat.digitChar d])
    (more : ∀ n, 0 < n → ∀ d < b, motive n (digitsOf b n) →
      motive (n * b + d) (digitsOf b n ++ [Nat.digitChar d]))
    (n : ℕ) : motive n (digitsOf b n) := by
  induction n using Nat.strongRecOn with
  | ind n ih =>
    by_cases hn : n < b
    · rw [digitsOf, Nat.toDigits_of_lt_base hn]
      exact single n hn
    · have hpos : 0 < n / b := Nat.div_pos (by omega) (by omega)
      have hrec := more (n / b) hpos (n % b) (Nat.mod_lt n (by omega))
        (ih _ (Nat.div_lt_self (by omega) hb))
      rw [Nat.div_add_mod'] at hrec
      rw [digitsOf, Nat.toDigits_of_base_le hb (by omega)]
      exact hrec

theorem forall_mem_digitsOf (hb : 1 < b) {P : Char → Prop} (h : ∀ d < b, P (Nat.digitChar d))
    (n : ℕ) : ∀ c ∈ digitsOf b n, P c := by
  refine digitsOf_induction hb (motive := fun _ s ↦ ∀ c ∈ s, P c) ?_ ?_ n
  · intro d hd c hc
    rw [List.mem_singleton.mp hc]
    exact h d hd
  · intro n _ d hd ih c hc
    rcases List.mem_append.mp hc with hc | hc
    · exact ih c hc
    · rw [List.mem_singleton.mp hc]
      exact h d hd

theorem digitValue?_digitChar (hb : b ≤ 16) {d : ℕ} (hd : d < b) :
    digitValue? b (Nat.digitChar d) = some d := by
  have h : ∀ e < 16, digitValue? 16 (Nat.digitChar e) = some e := by decide
  have hd16 := h d (by omega)
  simp only [digitValue?, Option.ite_none_right_eq_some, Option.some.injEq] at hd16 ⊢
  exact ⟨by omega, hd16.2⟩

theorem isDigit_digitChar (hb : b ≤ 16) {d : ℕ} (hd : d < b) :
    isDigit b (Nat.digitChar d) = true := by
  rw [isDigit, digitValue?_digitChar hb hd, Option.isSome_some]

theorem digitValue?_toLower (hb : b ≤ 16) (c : Char) :
    digitValue? b c.toLower = digitValue? b c := by
  by_cases hc : 65 ≤ c.toNat ∧ c.toNat ≤ 90
  · have hupper : ∀ i < 26, ∀ b < 17, digitValue? b (Char.ofNat (65 + i)).toLower =
        digitValue? b (Char.ofNat (65 + i)) := by decide
    have h := hupper (c.toNat - 65) (by omega) b (by omega)
    rwa [Nat.add_sub_cancel' hc.1, Char.ofNat_toNat] at h
  · have hlower : c.toLower = c := dif_neg hc
    rw [hlower]

theorem numberOf_map_toLower (hb : b ≤ 16) (ds : List Char) :
    numberOf b (ds.map Char.toLower) = numberOf b ds := by
  simp only [numberOf, List.foldl_map, digitValue?_toLower hb]

theorem numberOf_concat (s : List Char) (c : Char) :
    numberOf b (s ++ [c]) = numberOf b s * b + (digitValue? b c).getD 0 := by
  rw [numberOf, List.foldl_append]
  rfl

theorem numberOf_zeros (count : ℕ) (s : List Char) :
    numberOf b (List.replicate count '0' ++ s) = numberOf b s := by
  induction count with
  | zero => rfl
  | succ count ih =>
    have hzero : (digitValue? b '0').getD 0 = 0 := by
      cases b <;> rfl
    rw [← ih, numberOf, List.replicate_succ, List.cons_append, List.foldl_cons, hzero,
      Nat.zero_mul]
    rfl

theorem digitsOf_concat (hb : 1 < b) {n d : ℕ} (hn : 0 < n) (hd : d < b) :
    digitsOf b (n * b + d) = digitsOf b n ++ [Nat.digitChar d] := by
  have hle : b ≤ n * b + d := Nat.le_add_right_of_le (Nat.le_mul_of_pos_left b hn)
  have hdiv : (n * b + d) / b = n := by
    rw [Nat.add_comm, Nat.add_mul_div_right _ _ (by omega), Nat.div_eq_of_lt hd, Nat.zero_add]
  have hmod : (n * b + d) % b = d := by
    rw [Nat.add_comm, Nat.add_mul_mod_self_right, Nat.mod_eq_of_lt hd]
  rw [digitsOf, Nat.toDigits_of_base_le hb hle, hdiv, hmod]
  rfl

theorem head_digitsOf {n : ℕ} (hn : 0 < n) :
    ∃ d < 10, 0 < d ∧ ∃ ds, digitsOf 10 n = Nat.digitChar d :: ds := by
  revert hn
  induction n using digitsOf_induction (b := 10) (by omega) with
  | single d hd => exact fun hpos ↦ ⟨d, hd, hpos, [], rfl⟩
  | more n hn d hd ih =>
    intro _
    obtain ⟨e, he, hpos, es, h⟩ := ih hn
    exact ⟨e, he, hpos, es ++ [Nat.digitChar d], by rw [h, List.cons_append]⟩

theorem toLower_of_digitValue? (hb : b ≤ 16) {c : Char} {d : ℕ} (h : digitValue? b c = some d) :
    d < b ∧ c.toLower = Nat.digitChar d := by
  have hsmall : ∀ i < 128, ∀ d < 16, digitValue? 16 (Char.ofNat i) = some d →
      (Char.ofNat i).toLower = Nat.digitChar d := by decide
  simp only [digitValue?, Option.ite_none_right_eq_some, Option.some.injEq] at h
  obtain ⟨hlt, hd⟩ := h
  have hascii : c.toNat < 128 := by
    by_contra hc
    have habove : ∀ m : Char, m.toNat < 128 → ¬c ≤ m := by
      intro m hm hle
      have hle : c.toNat ≤ m.toNat := hle
      omega
    rw [if_neg fun h ↦ habove '9' (by decide) h.2, if_neg fun h ↦ habove 'f' (by decide) h.2,
      if_neg fun h ↦ habove 'F' (by decide) h.2] at hlt
    omega
  have hlower := hsmall c.toNat hascii d (by omega)
  rw [Char.ofNat_toNat] at hlower
  refine ⟨by omega, hlower ?_⟩
  rw [digitValue?, hd, if_pos (by omega)]

/-- Digits are those of their number, with zeros in front. -/
theorem exists_zeros_digitsOf (hb : 1 < b) (hb' : b ≤ 16) {ds : List Char} (hne : ds ≠ [])
    (hds : ∀ c ∈ ds, isDigit b c = true) :
    ∃ zeros, ds.map Char.toLower = List.replicate zeros '0' ++ digitsOf b (numberOf b ds) := by
  induction ds using List.reverseRecOn with
  | nil => exact absurd rfl hne
  | append_singleton ds c ih =>
    have hdigit := hds c (List.mem_append_right ds List.mem_cons_self)
    obtain ⟨d, hd⟩ := Option.isSome_iff_exists.mp hdigit
    obtain ⟨hlt, hc⟩ := toLower_of_digitValue? hb' hd
    rw [numberOf_concat, hd, Option.getD_some, List.map_append, List.map_singleton, hc]
    have hone : digitsOf b d = [Nat.digitChar d] := Nat.toDigits_of_lt_base hlt
    by_cases hnil : ds = []
    · subst hnil
      refine ⟨0, ?_⟩
      rw [show numberOf b [] = 0 from rfl, Nat.zero_mul, Nat.zero_add, hone]
      rfl
    obtain ⟨zeros, hzeros⟩ := ih hnil fun c hc ↦ hds c (List.mem_append_left _ hc)
    rw [hzeros]
    rcases Nat.eq_zero_or_pos (numberOf b ds) with hzero | hpos
    · refine ⟨zeros + 1, ?_⟩
      have hzero' : digitsOf b 0 = ['0'] := Nat.toDigits_of_lt_base (by omega)
      rw [hzero, hzero', Nat.zero_mul, Nat.zero_add, hone, List.replicate_succ']
    · exact ⟨zeros, by rw [digitsOf_concat hb hpos hlt, List.append_assoc]⟩

variable (hb : 1 < b) (hb' : b ≤ 16)
include hb hb'

theorem numberOf_digitsOf (n : ℕ) : numberOf b (digitsOf b n) = n := by
  induction n using digitsOf_induction hb with
  | single d hd =>
    have h := numberOf_concat (b := b) [] (Nat.digitChar d)
    rw [digitValue?_digitChar hb' hd] at h
    simpa [numberOf] using h
  | more n hn d hd ih =>
    rw [numberOf_concat, ih, digitValue?_digitChar hb' hd, Option.getD_some]

theorem isDigit_of_mem_digitsOf (n : ℕ) : ∀ c ∈ digitsOf b n, isDigit b c = true :=
  forall_mem_digitsOf hb (fun _ hd ↦ isDigit_digitChar hb' hd) n

/-- Digits are read for what they are whatever case they have and whatever zeros stand in front. -/
theorem digits_of_map_toLower {ds : List Char} {zeros n : ℕ}
    (h : ds.map Char.toLower = List.replicate zeros '0' ++ digitsOf b n) :
    (∀ c ∈ ds, isDigit b c = true) ∧ numberOf b ds = n := by
  constructor
  · intro c hc
    have hmem : c.toLower ∈ List.replicate zeros '0' ++ digitsOf b n :=
      h ▸ List.mem_map_of_mem hc
    rw [isDigit, ← digitValue?_toLower hb']
    rcases List.mem_append.mp hmem with hzero | hdigit
    · rw [(List.mem_replicate.mp hzero).2]
      exact isDigit_digitChar hb' (Nat.zero_lt_of_lt hb)
    · exact isDigit_of_mem_digitsOf hb hb' n _ hdigit
  · rw [← numberOf_map_toLower hb', h, numberOf_zeros, numberOf_digitsOf hb hb']

omit hb' in
theorem length_digitsOf_le {n k : ℕ} (hk : 0 < k) (hn : n < b ^ k) :
    (digitsOf b n).length ≤ k :=
  (Nat.length_toDigits_le_iff hb hk).mpr hn

omit hb hb'

def SpellsHex (width n : ℕ) (ds : List Char) : Prop :=
  n < 16 ^ width ∧ ds.map Char.toLower = padLeft width '0' (digitsOf 16 n)

theorem SpellsHex.length {width n : ℕ} {ds : List Char} (h : SpellsHex width n ds)
    (hwidth : 0 < width) : ds.length = width := by
  rw [← List.length_map Char.toLower, h.2]
  exact length_padLeft (length_digitsOf_le (by omega) hwidth h.1)

theorem SpellsHex.digits {width n : ℕ} {ds : List Char} (h : SpellsHex width n ds) :
    (∀ c ∈ ds, isDigit 16 c = true) ∧ numberOf 16 ds = n :=
  digits_of_map_toLower (by omega) (Nat.le_refl 16) h.2

end InputRelay.Text
