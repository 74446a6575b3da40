import InputRelay.Proofs.Json.Members
import InputRelay.Proofs.Text.Digits
import InputRelay.Text.FlagSet

namespace InputRelay.Text

section Cutting

variable {separator : Char} {s : List Char}

theorem cut_of_notMem (h : separator ∉ s) : cut separator s = [s] := by
  induction s with
  | nil => rfl
  | cons c s ih =>
    obtain ⟨hc, hs⟩ := not_or.mp (List.mem_cons.not.mp h)
    rw [cut, if_neg (Ne.symm hc), ih hs]

theorem cut_append (h : separator ∉ s) (rest : List Char) :
    cut separator (s ++ separator :: rest) = s :: cut separator rest := by
  induction s with
  | nil => rw [List.nil_append, cut, if_pos rfl]
  | cons c s ih =>
    obtain ⟨hc, hs⟩ := not_or.mp (List.mem_cons.not.mp h)
    rw [List.cons_append, cut, if_neg (Ne.symm hc), ih hs]

end Cutting

section Trimming

variable {before s after : List Char}

theorem dropWhile_isBlank_append (hbefore : ∀ c ∈ before, isBlank c = true)
    (hs : ∀ c ∈ s, isBlank c = false) (hne : s ≠ []) :
    (before ++ s).dropWhile isBlank = s := by
  rw [List.dropWhile_append_of_pos hbefore]
  cases s with
  | nil => exact absurd rfl hne
  | cons c s => rw [List.dropWhile_cons_of_neg (by simp [hs c List.mem_cons_self])]

theorem trim_padded (hbefore : ∀ c ∈ before, isBlank c = true)
    (hafter : ∀ c ∈ after, isBlank c = true) (hs : ∀ c ∈ s, isBlank c = false) (hne : s ≠ []) :
    trim (before ++ s ++ after) = s := by
  have hdrop : (before ++ s ++ after).dropWhile isBlank = s ++ after := by
    rw [List.append_assoc, List.dropWhile_append_of_pos hbefore]
    cases s with
    | nil => exact absurd rfl hne
    | cons c s =>
      rw [List.cons_append, List.dropWhile_cons_of_neg (by simp [hs c List.mem_cons_self])]
  rw [trim, hdrop, List.reverse_append, dropWhile_isBlank_append, List.reverse_reverse]
  · simpa using hafter
  · simpa using hs
  · simpa using hne

end Trimming

/-- A part between bars: neither empty nor blank anywhere, and without a bar. -/
@[mk_iff]
structure IsPart (s : List Char) : Prop where
  ne_nil : s ≠ []
  notMem : '|' ∉ s
  notBlank : ∀ c ∈ s, isBlank c = false

instance : DecidablePred IsPart := fun s ↦
  letI : Decidable (∀ c ∈ s, isBlank c = false) := s.decidableBAll _
  decidable_of_iff' _ (isPart_iff s)

theorem trim_cut_intercalate {before part : List Char} {parts : List (List Char)}
    (hbefore : ∀ c ∈ before, isBlank c = true) (hparts : ∀ p ∈ part :: parts, IsPart p) :
    (cut '|' (before ++ [' ', '|', ' '].intercalate (part :: parts))).map trim = part :: parts := by
  obtain ⟨hpart, hrest⟩ := List.forall_mem_cons.mp hparts
  have hbar : '|' ∉ before := fun h ↦ absurd (hbefore _ h) (by decide)
  induction parts generalizing before part with
  | nil =>
    rw [List.intercalate_singleton, cut_of_notMem (by simp [hbar, hpart.notMem])]
    have htrim : trim (before ++ part ++ []) = part :=
      trim_padded hbefore (by simp) hpart.notBlank hpart.ne_nil
    rw [List.append_nil] at htrim
    rw [List.map_singleton, htrim]
  | cons next parts ih =>
    have hblank : ∀ c ∈ [' '], isBlank c = true := List.forall_mem_singleton.mpr rfl
    have hsplit : before ++ [' ', '|', ' '].intercalate (part :: next :: parts) =
        (before ++ part ++ [' ']) ++ '|' ::
          ([' '] ++ [' ', '|', ' '].intercalate (next :: parts)) := by
      simp
    obtain ⟨hnext, hrest⟩ := List.forall_mem_cons.mp hrest
    rw [hsplit, cut_append (by simp [hbar, hpart.notMem]), List.map_cons,
      trim_padded hbefore hblank hpart.notBlank hpart.ne_nil,
      ih hblank (List.forall_mem_cons.mpr ⟨hnext, hrest⟩) hnext hrest (by decide)]

namespace FlagNames

variable {w : ℕ} {names : FlagNames w}

/-- Each name is a part of its own, is not taken for a number, and stands for a single bit. -/
structure Proper (names : FlagNames w) : Prop where
  isPart : ∀ p ∈ names.single, IsPart p.1.toList
  lookup : ∀ p ∈ names.single, names.part? p.1.toList = some p.2
  bit : ∀ p ∈ names.single, ∃ i : Fin w, p.2 = BitVec.twoPow w i

def unnamed (names : FlagNames w) (bits : BitVec w) : BitVec w :=
  bits &&& ~~~(names.single.foldl (fun acc (_, flag) ↦ acc ||| flag) 0#w)

def values (names : FlagNames w) (bits : BitVec w) : List (BitVec w) :=
  (names.single.filter fun (_, flag) ↦ bits &&& flag == flag).map (·.2) ++
    if names.unnamed bits = 0#w then [] else [names.unnamed bits]

theorem parts_eq (bits : BitVec w) : names.parts bits =
    (names.single.filter fun (_, flag) ↦ bits &&& flag == flag).map (·.1) ++
      if names.unnamed bits = 0#w then []
      else ["0x" ++ String.ofList (digitsOf 16 (names.unnamed bits).toNat)] :=
  rfl

theorem hex?_digitsOf (bits : BitVec w) : hex? (digitsOf 16 bits.toNat) = some bits := by
  have hdigits := isDigit_of_mem_digitsOf (b := 16) (by decide) (by decide) bits.toNat
  have hnumber := numberOf_digitsOf (b := 16) (by decide) (by decide) bits.toNat
  have hne := digitsOf_ne_nil (b := 16) bits.toNat
  generalize digitsOf 16 bits.toNat = digits at hdigits hnumber hne ⊢
  unfold hex?
  split
  · exact absurd (hdigits '+' List.mem_cons_self) (by decide)
  · simp [hnumber, hne, List.all_eq_true.mpr hdigits]

theorem toList_hex (n : ℕ) : ("0x" ++ String.ofList (digitsOf 16 n)).toList =
    '0' :: 'x' :: digitsOf 16 n := by
  simp

theorem isPart_hex (n : ℕ) : IsPart ("0x" ++ String.ofList (digitsOf 16 n)).toList := by
  have hdigits : ∀ c ∈ digitsOf 16 n, '|' ≠ c ∧ isBlank c = false :=
    forall_mem_digitsOf (by decide) (by decide) n
  rw [toList_hex]
  refine ⟨by simp, ?_, ?_⟩
  · intro hbar
    have hbar : '|' ∈ digitsOf 16 n := by simpa using hbar
    exact (hdigits '|' hbar).1 rfl
  · intro c hc
    rcases List.mem_cons.mp hc with rfl | hc
    · decide
    rcases List.mem_cons.mp hc with rfl | hc
    · decide
    · exact (hdigits c hc).2

theorem Proper.forall_isPart (h : names.Proper) (bits : BitVec w) :
    ∀ p ∈ names.parts bits, IsPart p.toList := by
  intro p hp
  rcases List.mem_append.mp hp with hp | hp
  · obtain ⟨q, hq, rfl⟩ := List.mem_map.mp hp
    exact h.isPart q (List.mem_filter.mp hq).1
  · split at hp
    · cases hp
    · rw [List.mem_singleton.mp hp]
      exact isPart_hex _

theorem Proper.part?_parts (h : names.Proper) (bits : BitVec w) :
    List.Forall₂ (fun p v ↦ names.part? p.toList = some v) (names.parts bits)
      (names.values bits) := by
  rw [parts_eq, values]
  refine List.rel_append ?_ ?_
  · rw [List.forall₂_map_left_iff, List.forall₂_map_right_iff, List.forall₂_same]
    exact fun p hp ↦ h.lookup p (List.mem_filter.mp hp).1
  · by_cases hrest : names.unnamed bits = 0#w
    · rw [if_pos hrest, if_pos hrest]
      exact .nil
    · rw [if_neg hrest, if_neg hrest]
      refine .cons ?_ .nil
      rw [toList_hex]
      exact hex?_digitsOf _

theorem getLsbD_foldl_or {α : Type} (f : α → BitVec w) (l : List α) (acc : BitVec w) (i : ℕ) :
    (l.foldl (fun acc a ↦ acc ||| f a) acc).getLsbD i =
      (acc.getLsbD i || l.any fun a ↦ (f a).getLsbD i) := by
  induction l generalizing acc with
  | nil => simp
  | cons a l ih => rw [List.foldl_cons, ih, BitVec.getLsbD_or, List.any_cons, Bool.or_assoc]

theorem any_getLsbD_values (bits : BitVec w) (i : ℕ) :
    (names.values bits).any (·.getLsbD i) =
      ((names.single.filter fun p ↦ bits &&& p.2 == p.2).any (fun p ↦ p.2.getLsbD i) ||
        (names.unnamed bits).getLsbD i) := by
  rw [values, List.any_append, List.any_map]
  congr 1
  split
  · rename_i hrest
    simp [hrest]
  · simp

theorem Proper.any_getLsbD_named (h : names.Proper) (bits : BitVec w) (i : ℕ) :
    (names.single.filter fun p ↦ bits &&& p.2 == p.2).any (fun p ↦ p.2.getLsbD i) =
      (bits.getLsbD i && names.single.any fun p ↦ p.2.getLsbD i) := by
  rw [Bool.eq_iff_iff, Bool.and_eq_true, List.any_eq_true, List.any_eq_true]
  constructor
  · rintro ⟨p, hp, hi⟩
    obtain ⟨hp, hflag⟩ := List.mem_filter.mp hp
    rw [← beq_iff_eq.mp hflag, BitVec.getLsbD_and, Bool.and_eq_true] at hi
    exact ⟨hi.1, p, hp, hi.2⟩
  · rintro ⟨hbit, p, hp, hi⟩
    obtain ⟨j, hj⟩ := h.bit p hp
    obtain rfl : j.val = i := by
      rw [hj, BitVec.getLsbD_twoPow, Bool.and_eq_true] at hi
      exact of_decide_eq_true hi.2
    refine ⟨p, List.mem_filter.mpr ⟨hp, ?_⟩, hi⟩
    rw [hj, BitVec.and_twoPow, if_pos hbit, beq_self_eq_true]

theorem Proper.foldl_values (h : names.Proper) (bits : BitVec w) :
    (names.values bits).foldl (· ||| ·) 0#w = bits := by
  refine BitVec.eq_of_getLsbD_eq fun i hi ↦ ?_
  have hall : (names.single.foldl (fun acc (_, flag) ↦ acc ||| flag) 0#w).getLsbD i =
      names.single.any fun p ↦ p.2.getLsbD i :=
    (getLsbD_foldl_or Prod.snd names.single 0#w i).trans (by simp)
  refine (getLsbD_foldl_or id (names.values bits) 0#w i).trans ?_
  rw [BitVec.getLsbD_zero, Bool.false_or]
  refine (any_getLsbD_values bits i).trans ?_
  rw [h.any_getLsbD_named, unnamed, BitVec.getLsbD_and, BitVec.getLsbD_not, decide_eq_true hi,
    Bool.true_and, hall, ← Bool.and_or_distrib_left, Bool.or_not_self, Bool.and_true]

theorem not_all_isBlank_intercalate {part : List Char} (h : IsPart part)
    (parts : List (List Char)) :
    ([' ', '|', ' '].intercalate (part :: parts)).all isBlank = false := by
  obtain ⟨rest, hrest⟩ : ∃ rest, [' ', '|', ' '].intercalate (part :: parts) = part ++ rest := by
    cases parts with
    | nil => exact ⟨[], by simp⟩
    | cons next parts =>
      exact ⟨[' ', '|', ' '] ++ [' ', '|', ' '].intercalate (next :: parts), by simp⟩
  rw [hrest, List.all_append]
  obtain ⟨c, rest, rfl⟩ := List.exists_cons_of_ne_nil h.ne_nil
  simp [h.notBlank c List.mem_cons_self]

/-- Every mask is read as it is written, with whatever bits it has. -/
theorem Proper.read?_write (h : names.Proper) (bits : BitVec w) :
    names.read? (names.write bits) = some bits := by
  have hvalues := h.foldl_values bits
  have hparts := List.forall_mem_map.mpr (h.forall_isPart bits)
  have hread := h.part?_parts bits
  rw [← List.forall₂_map_left_iff (f := String.toList) (R := fun p v ↦ names.part? p = some v)]
    at hread
  unfold read? write
  rw [String.toList_intercalate]
  generalize (names.parts bits).map String.toList = parts at hparts hread ⊢
  generalize names.values bits = values at hvalues hread
  cases parts with
  | nil =>
    cases hread
    exact congrArg some hvalues
  | cons part parts =>
    have hcut : (cut '|' ([] ++ [' ', '|', ' '].intercalate (part :: parts))).map trim =
        part :: parts := trim_cut_intercalate (by simp) hparts
    rw [List.nil_append] at hcut
    rw [← hcut, List.forall₂_map_left_iff] at hread
    have hbars : " | ".toList = [' ', '|', ' '] := rfl
    rw [hbars, if_neg (by simp [not_all_isBlank_intercalate (hparts part List.mem_cons_self)]),
      Json.mapM_of_forall₂ hread, Option.map_some, hvalues]

end FlagNames

end InputRelay.Text

namespace InputRelay

open Text

theorem Modifiers.proper_names : names.Proper where
  isPart := by decide
  lookup := by decide
  bit := by decide

theorem MouseButtons.proper_names : names.Proper where
  isPart := by decide
  lookup := by decide
  bit := by decide

end InputRelay
