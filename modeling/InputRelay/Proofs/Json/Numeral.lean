import InputRelay.Json.Reader
import InputRelay.Json.Writer
import InputRelay.Proofs.Text.Digits

namespace InputRelay.Numeral

open Text

/-- A text that a numeral before it does not extend into. -/
def Ends (s : List Char) : Prop :=
  ∀ c ∈ s.head?, isDigit 10 c = false ∧ c ≠ '.' ∧ c ≠ 'e' ∧ c ≠ 'E'

theorem numberOf_decimal (n : ℕ) : numberOf 10 (digitsOf 10 n) = n :=
  numberOf_digitsOf (by omega) (by omega) n

theorem isDigit_decimal (n : ℕ) : ∀ c ∈ digitsOf 10 n, isDigit 10 c = true :=
  isDigit_of_mem_digitsOf (by omega) (by omega) n

theorem scanDigits_append {ds s : List Char} (hds : ∀ c ∈ ds, isDigit 10 c = true)
    (hs : ∀ c ∈ s.head?, isDigit 10 c = false) : scanDigits (ds ++ s) = (ds, s) := by
  rw [scanDigits, List.takeWhile_append_of_pos hds, List.dropWhile_append_of_pos hds]
  cases s with
  | nil => simp
  | cons c s =>
    have hc := hs c rfl
    rw [List.takeWhile_cons_of_neg (by simp [hc]), List.dropWhile_cons_of_neg (by simp [hc]),
      List.append_nil]

theorem scanDigits_digitsOf (n : ℕ) {s : List Char} (hs : ∀ c ∈ s.head?, isDigit 10 c = false) :
    scanDigits (digitsOf 10 n ++ s) = (digitsOf 10 n, s) :=
  scanDigits_append (isDigit_decimal n) hs

theorem scanWhole_digitsOf (n : ℕ) {s : List Char} (hs : ∀ c ∈ s.head?, isDigit 10 c = false) :
    scanWhole (digitsOf 10 n ++ s) = some (n, s) := by
  rcases Nat.eq_zero_or_pos n with rfl | hn
  · rfl
  · have hscan := scanDigits_digitsOf n hs
    have hvalue := numberOf_decimal n
    obtain ⟨d, hd, hpos, ds, hds⟩ := head_digitsOf hn
    have hzero : ∀ d < 10, 0 < d → Nat.digitChar d ≠ '0' := by decide
    rw [hds, List.cons_append] at hscan
    rw [hds] at hvalue
    rw [hds, List.cons_append, scanWhole, hscan]
    · exact congrArg (fun n ↦ some (n, s)) hvalue
    · intro r hr
      exact hzero d hd hpos (List.cons.inj hr).1

def writeFraction (fraction : List (Fin 10)) : List Char :=
  if fraction = [] then [] else '.' :: fraction.flatMap fun d ↦ digitsOf 10 d.val

def writeExponent : Option Int → List Char
  | none => []
  | some e => 'e' :: (if e < 0 then '-' else '+') :: digitsOf 10 e.natAbs

inductive SpellsExponent : Option Int → List Char → Prop
  | none : SpellsExponent none []
  | plus {letter : Char} {sign : List Char} (hletter : letter = 'e' ∨ letter = 'E')
      (hsign : sign = [] ∨ sign = ['+']) (zeros n : ℕ) : SpellsExponent (some n)
        (letter :: (sign ++ (List.replicate zeros '0' ++ digitsOf 10 n)))
  | minus {letter : Char} (hletter : letter = 'e' ∨ letter = 'E') (zeros n : ℕ) :
      SpellsExponent (some (-n)) (letter :: '-' :: (List.replicate zeros '0' ++ digitsOf 10 n))

/-- All the texts of a numeral. -/
def HasText (n : Numeral) (cs : List Char) : Prop :=
  ∃ exponent, SpellsExponent n.exponent exponent ∧
    cs = (if n.negative then ['-'] else []) ++
      (digitsOf 10 n.whole ++ (writeFraction n.fraction ++ exponent))

theorem write_eq (n : Numeral) : n.write = (if n.negative then ['-'] else []) ++
    (digitsOf 10 n.whole ++ (writeFraction n.fraction ++ writeExponent n.exponent)) := by
  rw [write, List.append_assoc, List.append_assoc]
  cases n.exponent <;> rfl

theorem decimalDigit_digitChar (d : Fin 10) : decimalDigit (Nat.digitChar d.val) = d := by
  revert d
  decide

theorem scanFraction_writeFraction (fraction : List (Fin 10)) {s : List Char}
    (hs : ∀ c ∈ s.head?, isDigit 10 c = false ∧ c ≠ '.') :
    scanFraction (writeFraction fraction ++ s) = some (fraction, s) := by
  by_cases hf : fraction = []
  · rw [writeFraction, if_pos hf, List.nil_append, hf, scanFraction]
    intro r hr
    subst s
    exact (hs '.' rfl).2 rfl
  · have hone : ∀ d : Fin 10, digitsOf 10 d.val = [Nat.digitChar d.val] :=
      fun d ↦ Nat.toDigits_of_lt_base d.isLt
    have hscan : scanDigits (fraction.map (fun d ↦ Nat.digitChar d.val) ++ s) =
        (fraction.map (fun d ↦ Nat.digitChar d.val), s) := by
      apply scanDigits_append
      · intro c hc
        obtain ⟨d, -, rfl⟩ := List.mem_map.mp hc
        exact isDigit_digitChar (by omega) d.isLt
      · exact fun c hc ↦ (hs c hc).1
    have hread : (fraction.map fun d ↦ Nat.digitChar d.val).map decimalDigit = fraction := by
      rw [List.map_map]
      exact (List.map_congr_left fun d _ ↦ decimalDigit_digitChar d).trans (List.map_id' _)
    simp only [writeFraction, hf, if_false, hone, ← List.map_eq_flatMap, List.cons_append,
      scanFraction, hscan]
    split
    · rename_i h
      exact absurd (List.map_eq_nil_iff.mp (Prod.mk.inj h).1) hf
    · rename_i h
      obtain ⟨rfl, rfl⟩ := Prod.mk.inj h
      rw [hread]

theorem digits_ne_nil (zeros n : ℕ) : List.replicate zeros '0' ++ digitsOf 10 n ≠ [] :=
  fun h ↦ digitsOf_ne_nil n (List.append_eq_nil_iff.mp h).2

theorem isDigit_digits (zeros n : ℕ) :
    ∀ c ∈ List.replicate zeros '0' ++ digitsOf 10 n, isDigit 10 c = true := by
  intro c hc
  rcases List.mem_append.mp hc with hc | hc
  · rw [(List.mem_replicate.mp hc).2]
    decide
  · exact isDigit_decimal n c hc

theorem scanExponentDigits_digits (negative : Bool) (zeros n : ℕ) {s : List Char}
    (hs : ∀ c ∈ s.head?, isDigit 10 c = false) :
    scanExponentDigits negative (List.replicate zeros '0' ++ digitsOf 10 n ++ s) =
      some (some (if negative then -(n : Int) else n), s) := by
  have hvalue : numberOf 10 (List.replicate zeros '0' ++ digitsOf 10 n) = n := by
    rw [numberOf_zeros, numberOf_decimal]
  unfold scanExponentDigits
  rw [scanDigits_append (isDigit_digits zeros n) hs]
  split
  · rename_i h
    exact absurd (Prod.mk.inj h).1 (digits_ne_nil zeros n)
  · rename_i h
    obtain ⟨rfl, rfl⟩ := Prod.mk.inj h
    rw [hvalue]

theorem scanExponent_unsigned {letter : Char} (hletter : letter = 'e' ∨ letter = 'E')
    {ds s : List Char} (hne : ds ≠ []) (hds : ∀ c ∈ ds, isDigit 10 c = true) :
    scanExponent (letter :: (ds ++ s)) = scanExponentDigits false (ds ++ s) := by
  obtain ⟨d, ds, rfl⟩ := List.exists_cons_of_ne_nil hne
  have hd := hds d List.mem_cons_self
  have hsign : ∀ r, d :: ds ++ s ≠ '+' :: r ∧ d :: ds ++ s ≠ '-' :: r := by
    intro r
    constructor <;>
      · intro h
        rw [(List.cons.inj h).1] at hd
        exact absurd hd (by decide)
  rcases hletter with rfl | rfl
  · exact scanExponent.eq_5 _ (fun r ↦ (hsign r).1) fun r ↦ (hsign r).2
  · exact scanExponent.eq_6 _ (fun r ↦ (hsign r).1) fun r ↦ (hsign r).2

theorem SpellsExponent.scan {exponent : Option Int} {cs : List Char}
    (h : SpellsExponent exponent cs) {s : List Char} (hs : Ends s) :
    scanExponent (cs ++ s) = some (exponent, s) := by
  cases h with
  | none =>
    cases s with
    | nil => rfl
    | cons c s =>
      obtain ⟨-, -, he, hE⟩ := hs c rfl
      rw [List.nil_append, scanExponent] <;>
        · intro r hr
          have hc := (List.cons.inj hr).1
          contradiction
  | plus hletter hsign zeros n =>
    have hdigits := scanExponentDigits_digits false zeros n fun c hc ↦ (hs c hc).1
    rcases hsign with rfl | rfl
    · rw [List.cons_append, List.nil_append, scanExponent_unsigned hletter (digits_ne_nil zeros n)
        (isDigit_digits zeros n)]
      exact hdigits
    · rcases hletter with rfl | rfl <;> exact hdigits
  | minus hletter zeros n =>
    have hdigits := scanExponentDigits_digits true zeros n fun c hc ↦ (hs c hc).1
    rcases hletter with rfl | rfl <;> exact hdigits

theorem SpellsExponent.ends {exponent : Option Int} {cs : List Char}
    (h : SpellsExponent exponent cs) {s : List Char} (hs : Ends s) :
    ∀ c ∈ (cs ++ s).head?, isDigit 10 c = false ∧ c ≠ '.' := by
  cases h with
  | none => exact fun c hc ↦ ⟨(hs c hc).1, (hs c hc).2.1⟩
  | plus hletter | minus hletter =>
    rintro c ⟨⟩
    rcases hletter with rfl | rfl <;> decide

theorem scanUnsigned_spelled (n : Numeral) {exponent s : List Char}
    (hexponent : SpellsExponent n.exponent exponent) (hs : Ends s) :
    scanUnsigned n.negative (digitsOf 10 n.whole ++
      (writeFraction n.fraction ++ (exponent ++ s))) = some (n, s) := by
  have hends := hexponent.ends hs
  have hfraction : ∀ c ∈ (writeFraction n.fraction ++ (exponent ++ s)).head?,
      isDigit 10 c = false := by
    by_cases hf : n.fraction = []
    · rw [writeFraction, if_pos hf]
      exact fun c hc ↦ (hends c hc).1
    · rw [writeFraction, if_neg hf]
      rintro c ⟨⟩
      decide
  simp only [scanUnsigned, scanWhole_digitsOf n.whole hfraction,
    scanFraction_writeFraction n.fraction hends, hexponent.scan hs, Option.bind_eq_bind,
    Option.bind_some]

theorem HasText.head {n : Numeral} {cs : List Char} (h : n.HasText cs) :
    ∃ c s, cs = c :: s ∧ (c = '-' ∨ isDigit 10 c = true) := by
  obtain ⟨exponent, -, rfl⟩ := h
  cases n.negative with
  | true => exact ⟨'-', _, rfl, Or.inl rfl⟩
  | false =>
    obtain ⟨c, ds, hds⟩ := List.exists_cons_of_ne_nil (digitsOf_ne_nil (b := 10) n.whole)
    have hc := isDigit_decimal n.whole c (hds ▸ List.mem_cons_self)
    exact ⟨c, ds ++ _, by rw [hds]; rfl, Or.inr hc⟩

theorem HasText.scan {n : Numeral} {cs : List Char} (h : n.HasText cs) {s : List Char}
    (hs : Ends s) : Numeral.scan (cs ++ s) = some (n, s) := by
  obtain ⟨exponent, hexponent, rfl⟩ := h
  have hunsigned := scanUnsigned_spelled n hexponent hs
  rw [List.append_assoc, List.append_assoc, List.append_assoc]
  cases hn : n.negative with
  | true =>
    rw [hn] at hunsigned
    exact hunsigned
  | false =>
    rw [hn] at hunsigned
    rw [if_neg (by decide), List.nil_append, Numeral.scan, hunsigned]
    intro r hr
    rw [hr] at hunsigned
    contradiction

theorem hasText_write (n : Numeral) : n.HasText n.write := by
  refine ⟨writeExponent n.exponent, ?_, n.write_eq⟩
  cases n.exponent with
  | none => exact .none
  | some e =>
    by_cases he : e < 0
    · have hspelled := SpellsExponent.minus (Or.inl rfl) 0 e.natAbs
      rw [Int.ofNat_natAbs_of_nonpos (by omega), Int.neg_neg] at hspelled
      rw [writeExponent, if_pos he]
      exact hspelled
    · have hspelled := SpellsExponent.plus (Or.inl rfl) (Or.inr rfl) 0 e.natAbs
      rw [Int.natAbs_of_nonneg (by omega)] at hspelled
      rw [writeExponent, if_neg he]
      exact hspelled

end InputRelay.Numeral
