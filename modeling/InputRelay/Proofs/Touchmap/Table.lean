import InputRelay.Touchmap.Builder
import Mathlib.Data.List.Nodup
import Mathlib.Data.List.Pairwise
import Mathlib.Data.List.Perm.Basic

namespace InputRelay

/-- The table of the controls that were added: in ascending order of their codes, and those of one
code in the order in which they were added. -/
structure Tabulates (added table : List Control) : Prop where
  perm : table.Perm added
  sorted : table.Pairwise fun c d ↦ c.code.val ≤ d.code.val
  stable : ∀ code, table.filter (·.code = code) = added.filter (·.code = code)

theorem tabulates_mergeSort (added : List Control) :
    Tabulates added (added.mergeSort fun c d ↦ c.code.val ≤ d.code.val) := by
  have htrans : ∀ c d e : Control, decide (c.code.val ≤ d.code.val) = true →
      decide (d.code.val ≤ e.code.val) = true → decide (c.code.val ≤ e.code.val) = true := by
    intro c d e hcd hde
    simp only [decide_eq_true_eq] at hcd hde ⊢
    exact UInt8.le_trans hcd hde
  have htotal : ∀ c d : Control,
      (decide (c.code.val ≤ d.code.val) || decide (d.code.val ≤ c.code.val)) = true := by
    intro c d
    simp only [Bool.or_eq_true, decide_eq_true_eq]
    exact UInt8.le_total c.code.val d.code.val
  have hperm := List.mergeSort_perm added fun c d ↦ decide (c.code.val ≤ d.code.val)
  refine ⟨hperm, ?_, fun code ↦ ?_⟩
  · simpa only [decide_eq_true_eq] using List.pairwise_mergeSort htrans htotal added
  · -- controls of one code are in order already, so the sort keeps them as they stand
    have hone : (added.filter (·.code = code)).Pairwise
        fun c d ↦ decide (c.code.val ≤ d.code.val) = true := by
      refine List.pairwise_of_forall_mem_list fun c hc d hd ↦ ?_
      have hc := of_decide_eq_true (List.mem_filter.mp hc).2
      have hd := of_decide_eq_true (List.mem_filter.mp hd).2
      rw [hc, hd]
      exact decide_eq_true (UInt8.le_refl code.val)
    have hsub := (List.sublist_mergeSort htrans htotal hone List.filter_sublist).filter
      (·.code = code)
    rw [List.filter_filter] at hsub
    simp only [Bool.and_self] at hsub
    exact (hsub.eq_of_length (hperm.filter _).length_eq.symm).symm

theorem find?_ne_of_shadowed {before after : List Control} {k d : Control}
    (h : (before ++ k :: after).Nodup) (hd : d ∈ before) (hdk : d.code = k.code) :
    (before ++ k :: after).find? (·.code = k.code) ≠ some k := by
  intro hfind
  have hfound : (before.find? (·.code = k.code)).isSome = true :=
    List.find?_isSome.mpr ⟨d, hd, decide_eq_true hdk⟩
  obtain ⟨d', hd'⟩ := Option.isSome_iff_exists.mp hfound
  rw [List.find?_append, hd', Option.some_or] at hfind
  have hk : k ∈ before := Option.some.inj hfind ▸ List.mem_of_find?_eq_some hd'
  exact (List.nodup_append.mp h).2.2 k hk k List.mem_cons_self rfl

namespace Tabulates

variable {added table : List Control}

theorem find?_eq (h : Tabulates added table) (code : ButtonCode) :
    table.find? (·.code = code) = added.find? (·.code = code) := by
  rw [← List.head?_filter, ← List.head?_filter, h.stable]

end Tabulates

namespace Touchmap

theorem lt_partitionPoint_iff {α : Type} {test : α → Bool} {items : List α} {low high : ℕ}
    (hitems : items.Pairwise fun a b ↦ test b = true → test a = true) (hhigh : high ≤ items.length)
    (hle : low ≤ high) (hbelow : ∀ i < low, ∀ a, items[i]? = some a → test a = true)
    (habove : ∀ i, high ≤ i → ∀ a, items[i]? = some a → test a = false) {i : ℕ} {a : α}
    (ha : items[i]? = some a) :
    i < partitionPoint test items low high ↔ test a = true := by
  have hmono : ∀ {j k : ℕ} {b c : α}, j ≤ k → items[j]? = some b → items[k]? = some c →
      test c = true → test b = true := by
    intro j k b c hjk hb hc htest
    obtain ⟨hj, rfl⟩ := List.getElem?_eq_some_iff.mp hb
    obtain ⟨hk, rfl⟩ := List.getElem?_eq_some_iff.mp hc
    rcases Nat.eq_or_lt_of_le hjk with rfl | hlt
    · exact htest
    · exact List.pairwise_iff_getElem.mp hitems j k hj hk hlt htest
  fun_induction partitionPoint test items low high with
  | case1 low high hlt middle hpass ih =>
    obtain ⟨b, hb, htest⟩ := Option.any_eq_true _ _ |>.mp hpass
    exact ih hhigh (by omega) (fun j hj c hc ↦ hmono (by omega) hc hb htest) habove
  | case2 low high hlt middle hfail ih =>
    obtain ⟨b, hb⟩ : ∃ b, items[middle]? = some b := ⟨_, List.getElem?_eq_getElem (by omega)⟩
    have htest : test b ≠ true := by simpa [hb] using hfail
    refine ih (by omega) (by omega) hbelow fun j hj c hc ↦ ?_
    exact eq_false_of_ne_true (mt (hmono hj hb hc) htest)
  | case3 low high hge =>
    constructor
    · intro hi
      exact hbelow i hi a ha
    · intro htest
      by_contra hi
      exact Bool.false_ne_true ((habove i (by omega) a ha).symm.trans htest)

variable {m : Touchmap} {code : ButtonCode} {i : ℕ} {c : Control}

theorem getElem?_of_lookup? (h : m.lookup? code = some (i, c)) :
    code.isValid = true ∧ m.controls[i]? = some c ∧ c.code = code := by
  unfold lookup? at h
  split at h
  · rename_i hvalid
    simp only [Option.map_eq_some_iff, Option.filter_eq_some_iff, Prod.mk.injEq] at h
    obtain ⟨d, ⟨hd, hcode⟩, rfl, rfl⟩ := h
    exact ⟨hvalid, hd, eq_of_beq hcode⟩
  · cases h

/-- A table in order is looked up at the point that separates the codes below the one sought. -/
theorem exists_point (hm : m.controls.Pairwise fun c d ↦ c.code.val ≤ d.code.val)
    (hvalid : code ≠ .invalid) : ∃ point,
      m.lookup? code = (m.controls[point]?.filter (·.code == code)).map (fun c ↦ (point, c)) ∧
      ∀ {j : ℕ} {d : Control}, m.controls[j]? = some d → (j < point ↔ d.code.val < code.val) := by
  refine ⟨partitionPoint (·.code.val < code.val) m.controls 0 m.controls.length, ?_, ?_⟩
  · exact if_pos (bne_iff_ne.mpr hvalid)
  · intro j d hd
    have hsplit : m.controls.Pairwise fun a b ↦
        decide (b.code.val < code.val) = true → decide (a.code.val < code.val) = true := by
      refine hm.imp fun hab hb ↦ ?_
      simp only [decide_eq_true_eq] at hb ⊢
      exact UInt8.lt_of_le_of_lt hab hb
    have habove : ∀ k, m.controls.length ≤ k → ∀ a, m.controls[k]? = some a →
        decide (a.code.val < code.val) = false := by
      intro k hk a ha
      rw [List.getElem?_eq_none hk] at ha
      cases ha
    rw [lt_partitionPoint_iff hsplit (Nat.le_refl _) (Nat.zero_le _) (by simp) habove hd,
      decide_eq_true_eq]

/-- In a table in order the halving search finds the first control of a code, and its place. -/
theorem lookup?_eq_some_iff (hm : m.controls.Pairwise fun c d ↦ c.code.val ≤ d.code.val) :
    m.lookup? code = some (i, c) ↔ code ≠ .invalid ∧ m.controls[i]? = some c ∧ c.code = code ∧
      ∀ j < i, ∀ d, m.controls[j]? = some d → d.code ≠ code := by
  constructor
  · intro h
    obtain ⟨hvalid, hc, hcode⟩ := getElem?_of_lookup? h
    refine ⟨bne_iff_ne.mp hvalid, hc, hcode, fun j hj d hd hdc ↦ ?_⟩
    obtain ⟨point, hlookup, hbefore⟩ := exists_point hm (bne_iff_ne.mp hvalid)
    obtain rfl : point = i := by
      rw [hlookup, Option.map_eq_some_iff] at h
      obtain ⟨_, _, hpair⟩ := h
      exact congrArg Prod.fst hpair
    have hlt := (hbefore hd).mp hj
    rw [hdc] at hlt
    exact UInt8.lt_irrefl _ hlt
  · rintro ⟨hvalid, hc, hcode, hfirst⟩
    obtain ⟨point, hlookup, hbefore⟩ := exists_point hm hvalid
    obtain rfl : point = i := by
      rcases Nat.lt_trichotomy i point with h | h | h
      · have hlt := (hbefore hc).mp h
        rw [hcode] at hlt
        exact absurd hlt (UInt8.lt_irrefl _)
      · exact h.symm
      · obtain ⟨hi, rfl⟩ := List.getElem?_eq_some_iff.mp hc
        have hd := List.getElem?_eq_getElem (Nat.lt_trans h hi)
        have hge := mt (hbefore hd).mpr (Nat.lt_irrefl _)
        have hle := List.pairwise_iff_getElem.mp hm _ _ (Nat.lt_trans h hi) hi h
        rw [hcode] at hle
        have hval := UInt8.le_antisymm hle (UInt8.not_lt.mp hge)
        exact absurd (congrArg ButtonCode.mk hval) (hfirst _ h _ hd)
    simp [hlookup, hc, hcode]

theorem exists_lookup?_iff (hm : m.controls.Pairwise fun c d ↦ c.code.val ≤ d.code.val)
    (hvalid : code ≠ .invalid) :
    (∃ i, m.lookup? code = some (i, c)) ↔ m.controls.find? (·.code = code) = some c := by
  rw [List.find?_eq_some_iff_getElem]
  constructor
  · rintro ⟨i, h⟩
    obtain ⟨-, hc, hcode, hfirst⟩ := (lookup?_eq_some_iff hm).mp h
    obtain ⟨hi, rfl⟩ := List.getElem?_eq_some_iff.mp hc
    refine ⟨decide_eq_true hcode, i, hi, rfl, fun j hj ↦ ?_⟩
    simpa using hfirst j hj _ (List.getElem?_eq_getElem (by omega))
  · rintro ⟨hcode, i, hi, hc, hfirst⟩
    refine ⟨i, (lookup?_eq_some_iff hm).mpr ⟨hvalid, ?_, of_decide_eq_true hcode, ?_⟩⟩
    · rw [List.getElem?_eq_getElem hi, hc]
    · intro j hj d hd
      obtain ⟨hjlen, rfl⟩ := List.getElem?_eq_some_iff.mp hd
      simpa using hfirst j hj

theorem lookup?_eq_none_iff (hm : m.controls.Pairwise fun c d ↦ c.code.val ≤ d.code.val) :
    m.lookup? code = none ↔ code = .invalid ∨ ∀ c ∈ m.controls, c.code ≠ code := by
  by_cases hvalid : code = .invalid
  · subst code
    simp [lookup?, ButtonCode.isValid]
  · have hnone : m.lookup? code = none ↔ m.controls.find? (·.code = code) = none := by
      constructor
      · intro h
        refine Option.eq_none_iff_forall_ne_some.mpr fun c hc ↦ ?_
        obtain ⟨i, hi⟩ := (exists_lookup?_iff hm hvalid).mpr hc
        simp [h] at hi
      · intro h
        refine Option.eq_none_iff_forall_ne_some.mpr fun ⟨i, c⟩ hi ↦ ?_
        have hc := (exists_lookup?_iff hm hvalid).mp ⟨i, hi⟩
        simp [h] at hc
    rw [hnone]
    simp [hvalid]

variable {added : List Control}

theorem lookup?_eq_some_iff_find? (h : Tabulates added m.controls) (hm : m.controls.Nodup) :
    m.lookup? code = some (i, c) ↔
      code ≠ .invalid ∧ added.find? (·.code = code) = some c ∧ m.controls[i]? = some c := by
  constructor
  · intro hlookup
    obtain ⟨hvalid, hc, -⟩ := (lookup?_eq_some_iff h.sorted).mp hlookup
    refine ⟨hvalid, ?_, hc⟩
    rw [← h.find?_eq, ← exists_lookup?_iff h.sorted hvalid]
    exact ⟨i, hlookup⟩
  · rintro ⟨hvalid, hfind, hc⟩
    rw [← h.find?_eq, ← exists_lookup?_iff h.sorted hvalid] at hfind
    obtain ⟨j, hlookup⟩ := hfind
    obtain ⟨-, hj, -⟩ := getElem?_of_lookup? hlookup
    obtain ⟨hjlt, hjc⟩ := List.getElem?_eq_some_iff.mp hj
    obtain ⟨hilt, hic⟩ := List.getElem?_eq_some_iff.mp hc
    obtain rfl : j = i := hm.getElem_inj_iff.mp (hjc.trans hic.symm)
    exact hlookup

theorem lookup?_eq_none_iff_added (h : Tabulates added m.controls) :
    m.lookup? code = none ↔ code = .invalid ∨ ∀ c ∈ added, c.code ≠ code := by
  simp only [lookup?_eq_none_iff h.sorted, h.perm.mem_iff]

end Touchmap

end InputRelay
