import InputRelay.Proofs.Text.Digits

namespace InputRelay.Text

/-- A run of one kind of characters is determined together with its boundary in a longer text. -/
theorem run_append_inj {P : Char → Bool} {x y s t : List Char} {c d : Char}
    (hx : ∀ c ∈ x, P c = true) (hy : ∀ c ∈ y, P c = true) (hc : P c = false) (hd : P d = false)
    (h : x ++ c :: s = y ++ d :: t) : x = y ∧ c :: s = d :: t := by
  induction x generalizing y with
  | nil =>
    cases y with
    | nil => exact ⟨rfl, h⟩
    | cons a y =>
      obtain ⟨rfl, -⟩ := List.cons.inj h
      cases (hy c List.mem_cons_self).symm.trans hc
  | cons a x ih =>
    cases y with
    | nil =>
      obtain ⟨rfl, -⟩ := List.cons.inj h
      cases (hx a List.mem_cons_self).symm.trans hd
    | cons b y =>
      obtain ⟨rfl, hrest⟩ := List.cons.inj h
      obtain ⟨rfl, hst⟩ := ih (List.forall_mem_cons.mp hx).2 (List.forall_mem_cons.mp hy).2 hrest
      exact ⟨rfl, hst⟩

theorem toList_toString (n : ℕ) : (toString n).toList = digitsOf 10 n := by
  rw [Nat.toString_eq_ofList_toDigits, String.toList_ofList, digitsOf]

theorem toList_toString_negSucc (n : ℕ) :
    (toString (Int.negSucc n)).toList = '-' :: digitsOf 10 (n + 1) := by
  rw [show toString (Int.negSucc n) = "-" ++ toString (n + 1) from rfl, String.toList_append,
    toList_toString]
  rfl

theorem digitsOf_injective {b : ℕ} (hb : 1 < b) (hb' : b ≤ 16) :
    Function.Injective (digitsOf b) := by
  intro n m h
  have hvalue := congrArg (numberOf b) h
  rwa [numberOf_digitsOf hb hb', numberOf_digitsOf hb hb'] at hvalue

theorem notMem_digitsOf {c : Char} (hc : isDigit 10 c = false) (n : ℕ) : c ∉ digitsOf 10 n := by
  intro h
  cases hc.symm.trans (isDigit_of_mem_digitsOf (by decide) (by decide) n c h)

def isNumeral (c : Char) : Bool :=
  c == '-' || isDigit 10 c

theorem isNumeral_of_mem (n : ℤ) : ∀ c ∈ (toString n).toList, isNumeral c = true := by
  have hdigits (m : ℕ) : ∀ c ∈ digitsOf 10 m, isNumeral c = true := by
    intro c hc
    rw [isNumeral, isDigit_of_mem_digitsOf (by decide) (by decide) m c hc, Bool.or_true]
  cases n with
  | ofNat n =>
    rw [show toString (Int.ofNat n) = toString n from rfl, toList_toString]
    exact hdigits n
  | negSucc n =>
    rw [toList_toString_negSucc]
    exact List.forall_mem_cons.mpr ⟨rfl, hdigits (n + 1)⟩

theorem toString_injective : Function.Injective (toString : ℤ → String) := by
  have hsign (n m : ℕ) : toString (Int.negSucc n) ≠ toString (Int.ofNat m) := by
    intro h
    have h : '-' :: digitsOf 10 (n + 1) = digitsOf 10 m := by
      rw [← toList_toString_negSucc, h]
      exact toList_toString m
    exact notMem_digitsOf (by decide) m (h ▸ List.mem_cons_self)
  intro n m h
  cases n with
  | ofNat n =>
    cases m with
    | ofNat m =>
      have h : digitsOf 10 n = digitsOf 10 m := by
        rw [← toList_toString, ← toList_toString]
        exact congrArg String.toList h
      rw [digitsOf_injective (by decide) (by decide) h]
    | negSucc m => exact absurd h.symm (hsign m n)
  | negSucc n =>
    cases m with
    | ofNat m => exact absurd h (hsign n m)
    | negSucc m =>
      have h := congrArg String.toList h
      rw [toList_toString_negSucc, toList_toString_negSucc] at h
      have hsucc := digitsOf_injective (by decide) (by decide) (List.cons.inj h).2
      rw [Nat.succ.inj hsucc]

theorem numeral_append_inj {n m : ℤ} {s t : List Char} {c d : Char} (hc : isNumeral c = false)
    (hd : isNumeral d = false)
    (h : (toString n).toList ++ c :: s = (toString m).toList ++ d :: t) :
    n = m ∧ c :: s = d :: t := by
  obtain ⟨hnm, hst⟩ := run_append_inj (isNumeral_of_mem n) (isNumeral_of_mem m) hc hd h
  exact ⟨toString_injective (String.toList_inj.mp hnm), hst⟩

/-- A word is found behind the blanks that pad it, before the blank that follows it. -/
theorem padLeft_append_inj {width : ℕ} {x y s t : List Char} (hx : x ≠ []) (hx' : ' ' ∉ x)
    (hy : y ≠ []) (hy' : ' ' ∉ y)
    (h : padLeft width ' ' x ++ ' ' :: s = padLeft width ' ' y ++ ' ' :: t) : x = y ∧ s = t := by
  have hblank (n : ℕ) : ∀ c ∈ List.replicate n ' ', (c == ' ') = true :=
    fun c hc ↦ beq_iff_eq.mpr (List.eq_of_mem_replicate hc)
  have hletter {x : List Char} (hx : ' ' ∉ x) : ∀ c ∈ x, (c == ' ') = false :=
    fun c hc ↦ beq_false_of_ne fun heq ↦ hx (heq ▸ hc)
  have hword {x : List Char} (hx : ' ' ∉ x) : ∀ c ∈ x, (c != ' ') = true :=
    fun c hc ↦ by rw [bne, hletter hx c hc, Bool.not_false]
  obtain ⟨c, x, rfl⟩ := List.exists_cons_of_ne_nil hx
  obtain ⟨d, y, rfl⟩ := List.exists_cons_of_ne_nil hy
  rw [padLeft, padLeft, List.append_assoc, List.append_assoc] at h
  obtain ⟨-, hcut⟩ := run_append_inj (P := (· == ' ')) (hblank _) (hblank _)
    (hletter hx' c List.mem_cons_self) (hletter hy' d List.mem_cons_self) h
  obtain ⟨hxy, hst⟩ := run_append_inj (x := c :: x) (y := d :: y) (P := (· != ' '))
    (hword hx') (hword hy') rfl rfl hcut
  exact ⟨hxy, (List.cons.inj hst).2⟩

end InputRelay.Text
