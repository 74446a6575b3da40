import InputRelay.Proofs.Binary.Rounding
import InputRelay.Proofs.Toml.Text
import InputRelay.Toml.Scalar
import Mathlib.Tactic.Ring

namespace InputRelay.Toml

open Text

/-- What may stand behind a value, apart from spaces: the end of its line, or of its place in
what holds it. -/
def Ends (r : List Char) : Prop :=
  ∀ c ∈ (skipSpaces r).head?, c ∈ ['\n', '\r', '#', ',', ']', '}']

def delimiters : List Char :=
  [' ', '\t', '\n', '\r', '#', ',', ']', '}']

inductive IsSign : List Char → Bool → Prop
  | none : IsSign [] false
  | plus : IsSign ['+'] false
  | minus : IsSign ['-'] true

/-- Digits among which single underscores may stand. -/
inductive Spaced : List Char → List Char → Prop
  | one (d : Char) : Spaced [d] [d]
  | cons (d : Char) {ds cs : List Char} (h : Spaced ds cs) : Spaced (d :: ds) (d :: cs)
  | underscore (d : Char) {ds cs : List Char} (h : Spaced ds cs) :
      Spaced (d :: ds) (d :: '_' :: cs)

inductive IsBaseLetter : Char → ℕ → Prop
  | hexadecimal : IsBaseLetter 'x' 16
  | octal : IsBaseLetter 'o' 8
  | binary : IsBaseLetter 'b' 2

/-- All the texts of an integer. Those of another base than ten may have zeros in front. -/
inductive HasIntegerText : Int → List Char → Prop
  | decimal {n : ℕ} {negative : Bool} {sign cs : List Char} (hsign : IsSign sign negative)
      (h : Spaced (digitsOf 10 n) cs) :
      HasIntegerText (if negative then -n else n) (sign ++ cs)
  | based {n zeros base : ℕ} {letter : Char} {ds cs : List Char}
      (hbase : IsBaseLetter letter base)
      (hds : ds.map Char.toLower = List.replicate zeros '0' ++ digitsOf base n)
      (h : Spaced ds cs) : HasIntegerText n ('0' :: letter :: cs)

inductive HasFractionText : List Char → List Char → Prop
  | empty : HasFractionText [] []
  | digits {ds cs : List Char} (hds : ∀ c ∈ ds, isDigit 10 c = true) (h : Spaced ds cs) :
      HasFractionText ds ('.' :: cs)

inductive HasExponentText : Int → List Char → Prop
  | empty : HasExponentText 0 []
  | digits {letter : Char} {negative : Bool} {sign ds cs : List Char}
      (hletter : letter = 'e' ∨ letter = 'E') (hsign : IsSign sign negative)
      (hds : ∀ c ∈ ds, isDigit 10 c = true) (h : Spaced ds cs) :
      HasExponentText (if negative then -numberOf 10 ds else numberOf 10 ds)
        (letter :: (sign ++ cs))

/-- The least number that is too large for double precision. It is half the way from the largest
finite number to `2 ^ 1024`. -/
def doubleLimit : ℕ :=
  (4 * 2 ^ 52 - 1) * 2 ^ 970

def IsFinite (n : ℕ) (exponent : Int) : Prop :=
  n * 10 ^ exponent.toNat < doubleLimit * 10 ^ (-exponent).toNat

/-- All the texts of a float. Only one above zero may be too large. -/
inductive HasFloatText : List Char → Prop
  | decimal {n : ℕ} {negative : Bool} {exponent : Int} {sign whole ds fraction power : List Char}
      (hsign : IsSign sign negative) (hwhole : Spaced (digitsOf 10 n) whole)
      (hfraction : HasFractionText ds fraction) (hexponent : HasExponentText exponent power)
      (hsome : fraction ++ power ≠ [])
      (hfinite : negative = true ∨
        IsFinite (numberOf 10 (digitsOf 10 n ++ ds)) (exponent - ds.length)) :
      HasFloatText (sign ++ (whole ++ (fraction ++ power)))
  | special {negative : Bool} {sign word : List Char} (hsign : IsSign sign negative)
      (hword : word = ['i', 'n', 'f'] ∨ word = ['n', 'a', 'n']) : HasFloatText (sign ++ word)

section Ends

variable {r : List Char}

theorem Ends.head (h : Ends r) {c : Char} (hc : c ∈ r.head?) : c ∈ delimiters := by
  cases r with
  | nil => cases hc
  | cons d r =>
    cases hc
    by_cases hspace : isSpace c = true
    · have hcases : c = ' ' ∨ c = '\t' := by simpa [isSpace] using hspace
      obtain rfl | rfl := hcases <;> decide
    · have hskip : skipSpaces (c :: r) = c :: r := List.dropWhile_cons_of_neg hspace
      have hmem := h c (by rw [hskip]; rfl)
      exact List.mem_cons_of_mem _ (List.mem_cons_of_mem _ hmem)

theorem Ends.tail {c : Char} (h : Ends (c :: r)) (hc : isSpace c = true) : Ends r := by
  have hskip : skipSpaces (c :: r) = skipSpaces r := List.dropWhile_cons_of_pos hc
  rwa [Ends, hskip] at h

theorem Ends.number (h : Ends r) : ∀ c ∈ r.head?, isDigit 10 c = false ∧ c ≠ '_' ∧ c ≠ '.' ∧
    c ≠ 'e' ∧ c ≠ 'E' ∧ c ≠ '-' ∧ c ≠ ':' := by
  have hall : ∀ c ∈ delimiters, isDigit 10 c = false ∧ c ≠ '_' ∧ c ≠ '.' ∧ c ≠ 'e' ∧ c ≠ 'E' ∧
      c ≠ '-' ∧ c ≠ ':' :=
    List.forall_iff_forall_mem.mp (by decide)
  exact fun c hc ↦ hall c (h.head hc)

end Ends

section Digits

variable {base : ℕ} {ds cs r : List Char}

theorem Spaced.exists_cons (h : Spaced ds cs) : ∃ d t u, ds = d :: t ∧ cs = d :: u := by
  cases h with
  | one d => exact ⟨d, [], [], rfl, rfl⟩
  | cons d h | underscore d h => exact ⟨d, _, _, rfl, rfl⟩

theorem Spaced.mem (h : Spaced ds cs) : ∀ c ∈ cs, c ∈ ds ∨ c = '_' := by
  induction h with
  | one d => exact fun c hc ↦ .inl hc
  | cons d _ ih | underscore d _ ih =>
    intro c hc
    simp only [List.mem_cons] at hc ⊢
    have := ih c
    tauto

theorem ne_underscore (hbase : base ≤ 16) {d : Char} (hd : isDigit base d = true) : d ≠ '_' := by
  rintro rfl
  have hvalue : digitValue? base '_' = none := if_neg (Nat.not_lt.mpr hbase)
  rw [isDigit, hvalue] at hd
  cases hd

theorem digits?_eq_none_of_head {c : Char} (hc : isDigit base c = false) (s : List Char) :
    digits? base (c :: s) = none := by
  rw [digits?.eq_def]
  split <;> simp_all

theorem Spaced.read (h : Spaced ds cs) (hbase : base ≤ 16)
    (hds : ∀ c ∈ ds, isDigit base c = true) (hr : ∀ c ∈ r.head?, isDigit base c = false ∧ c ≠ '_') :
    digits? base (cs ++ r) = some (ds, r) := by
  induction h with
  | one d =>
    have hd := hds d List.mem_cons_self
    cases r with
    | nil => simp [digits?, hd]
    | cons c r =>
      obtain ⟨hc, hunderscore⟩ := hr c rfl
      simp [digits?, hd, hunderscore, digits?_eq_none_of_head hc]
  | cons d h ih =>
    obtain ⟨hd, hds⟩ := List.forall_mem_cons.mp hds
    obtain ⟨e, t, u, rfl, rfl⟩ := h.exists_cons
    have he := ne_underscore hbase (hds e List.mem_cons_self)
    rw [List.cons_append, digits?, if_pos hd, ih hds]
    · rfl
    · intro s hs
      exact he (List.cons.inj hs).1
  | underscore d h ih =>
    obtain ⟨hd, hds⟩ := List.forall_mem_cons.mp hds
    rw [List.cons_append, List.cons_append, digits?, if_pos hd, ih hds]
    rfl

theorem isDigit_decimal (n : ℕ) : ∀ c ∈ digitsOf 10 n, isDigit 10 c = true :=
  isDigit_of_mem_digitsOf (by omega) (by omega) n

theorem Spaced.eq_of_zero (h : Spaced (digitsOf 10 0) cs) : cs = ['0'] := by
  have hzero : digitsOf 10 0 = ['0'] := rfl
  rw [hzero] at h
  cases h with
  | one d => rfl
  | cons d h | underscore d h => cases h

theorem Spaced.head_ne_zero {n : ℕ} (h : Spaced (digitsOf 10 n) cs) (hn : 0 < n) :
    ∃ d u, cs = d :: u ∧ d ≠ '0' := by
  obtain ⟨d, t, u, hds, rfl⟩ := h.exists_cons
  obtain ⟨k, hk, hpos, es, hes⟩ := head_digitsOf hn
  have hne : ∀ k < 10, 0 < k → Nat.digitChar k ≠ '0' := by decide
  rw [hds] at hes
  rw [(List.cons.inj hes).1]
  exact ⟨_, u, rfl, hne k hk hpos⟩

theorem Spaced.decimal {n : ℕ} (h : Spaced (digitsOf 10 n) cs)
    (hr : ∀ c ∈ r.head?, isDigit 10 c = false ∧ c ≠ '_') :
    decimal? (cs ++ r) = some (digitsOf 10 n, r) := by
  rcases Nat.eq_zero_or_pos n with rfl | hn
  · rw [h.eq_of_zero]
    rfl
  · have hread := h.read (by omega) (isDigit_decimal n) hr
    obtain ⟨d, u, rfl, hd⟩ := h.head_ne_zero hn
    rw [List.cons_append, decimal?, ← List.cons_append, hread]
    intro s hs
    exact hd (List.cons.inj hs).1

theorem sign?_append {sign : List Char} {negative : Bool} (hsign : IsSign sign negative)
    (hr : ∀ c ∈ r.head?, c ≠ '-' ∧ c ≠ '+') : sign? (sign ++ r) = (negative, r) := by
  cases hsign with
  | none =>
    rw [List.nil_append]
    unfold sign?
    split
    · exact absurd rfl (hr '-' rfl).1
    · exact absurd rfl (hr '+' rfl).2
    · rfl
  | plus | minus => rfl

theorem ne_sign {d : Char} (hd : isDigit 10 d = true) : d ≠ '-' ∧ d ≠ '+' := by
  constructor
  all_goals
    rintro rfl
    exact absurd hd (by decide)

theorem Spaced.signed (h : Spaced ds cs) (hds : ∀ c ∈ ds, isDigit 10 c = true) {sign : List Char}
    {negative : Bool} (hsign : IsSign sign negative) (r : List Char) :
    sign? (sign ++ (cs ++ r)) = (negative, cs ++ r) := by
  obtain ⟨d, t, u, rfl, rfl⟩ := h.exists_cons
  apply sign?_append hsign
  rintro _ ⟨⟩
  exact ne_sign (hds d List.mem_cons_self)

theorem Spaced.head_signed (h : Spaced ds cs) (hds : ∀ c ∈ ds, isDigit 10 c = true)
    {sign : List Char} {negative : Bool} (hsign : IsSign sign negative) (r : List Char) :
    ∃ c u, sign ++ (cs ++ r) = c :: u ∧ (isDigit 10 c = true ∨ c = '+' ∨ c = '-') := by
  cases hsign with
  | none =>
    obtain ⟨d, t, u, rfl, rfl⟩ := h.exists_cons
    exact ⟨d, u ++ r, rfl, .inl (hds d List.mem_cons_self)⟩
  | plus => exact ⟨'+', cs ++ r, rfl, .inr (.inl rfl)⟩
  | minus => exact ⟨'-', cs ++ r, rfl, .inr (.inr rfl)⟩

end Digits

section Overflow

theorem pow_le_doubleLimit_le_pow : 10 ^ 308 ≤ doubleLimit ∧ doubleLimit ≤ 10 ^ 309 := by
  decide +kernel

theorem double_nearest_eq_infinity_iff {num den : ℕ} (hden : 0 < den) :
    Binary.double.nearest num den = Binary.double.infinity ↔ doubleLimit * den ≤ num :=
  Binary.Format.nearest_eq_infinity_iff rfl rfl hden

theorem pow_add_le {a limit : ℕ} (h : 10 ^ a ≤ limit) (k : ℕ) :
    10 ^ (a + k) ≤ limit * 10 ^ k := by
  rw [Nat.pow_add]
  exact Nat.mul_le_mul_right _ h

theorem le_pow_add {a limit : ℕ} (h : limit ≤ 10 ^ a) (k : ℕ) :
    limit * 10 ^ k ≤ 10 ^ (a + k) := by
  rw [Nat.pow_add]
  exact Nat.mul_le_mul_right _ h

theorem lt_pow_length_digitsOf (n : ℕ) : n < 10 ^ (digitsOf 10 n).length :=
  (Nat.length_toDigits_le_iff (by omega)
    (List.length_pos_iff.mpr (digitsOf_ne_nil n))).mp (Nat.le_refl _)

theorem pow_le_of_lt_length_digitsOf {n k : ℕ} (hn : 0 < n) (hk : k < (digitsOf 10 n).length) :
    10 ^ k ≤ n := by
  rcases Nat.eq_zero_or_pos k with rfl | hpos
  · exact hn
  · by_contra hlt
    have hle := (Nat.length_toDigits_le_iff (by omega) hpos).mpr (Nat.not_le.mp hlt)
    exact Nat.not_le.mpr hk hle

/-- The count of the digits of a number tells most of the finite ones from the others. -/
theorem overflows_eq_false_iff (significand : List Char) (exponent : Int) :
    overflows significand exponent = false ↔ IsFinite (numberOf 10 significand) exponent := by
  have hlow := pow_add_le pow_le_doubleLimit_le_pow.1
  have hhigh := le_pow_add pow_le_doubleLimit_le_pow.2
  have hround := @double_nearest_eq_infinity_iff
  unfold IsFinite overflows
  generalize numberOf 10 significand = n
  have hn := lt_pow_length_digitsOf n
  have hlength : 0 < (digitsOf 10 n).length := List.length_pos_iff.mpr (digitsOf_ne_nil n)
  have hpow (k : ℕ) : 0 < 10 ^ k := Nat.pow_pos (by omega)
  dsimp only
  split
  · rename_i hsmall
    refine iff_of_true rfl ?_
    refine Nat.lt_of_lt_of_le ?_ (hlow (-exponent).toNat)
    rcases hsmall with rfl | htop
    · rw [Nat.zero_mul]
      exact hpow _
    · calc
        n * 10 ^ exponent.toNat < 10 ^ (digitsOf 10 n).length * 10 ^ exponent.toNat :=
          Nat.mul_lt_mul_of_pos_right hn (hpow _)
        _ ≤ 10 ^ (308 + (-exponent).toNat) := by
          rw [← Nat.pow_add]
          exact Nat.pow_le_pow_right (by omega) (by omega)
  · rename_i hlarge
    obtain ⟨hne, -⟩ := not_or.mp hlarge
    split
    · rename_i htop
      refine iff_of_false Bool.true_eq_false.mp (Nat.not_lt.mpr ?_)
      calc
        doubleLimit * 10 ^ (-exponent).toNat ≤ 10 ^ (309 + (-exponent).toNat) := hhigh _
        _ ≤ 10 ^ ((digitsOf 10 n).length - 1) * 10 ^ exponent.toNat := by
          rw [← Nat.pow_add]
          exact Nat.pow_le_pow_right (by omega) (by omega)
        _ ≤ n * 10 ^ exponent.toNat :=
          Nat.mul_le_mul_right _ (pow_le_of_lt_length_digitsOf (by omega) (by omega))
    · rw [beq_eq_false_iff_ne, ne_eq]
      exact (not_congr (hround (hpow _))).trans Nat.not_le

end Overflow

section Numbers

variable {n : ℕ} {negative : Bool} {sign ds cs r : List Char}

theorem rangeCheck_of_mem {i : Int} (hi : -2 ^ 63 ≤ i ∧ i < 2 ^ 63) :
    rangeCheck i = some (.integer i) := by
  have hmin : Int64.minValue.toInt = -2 ^ 63 := rfl
  have hmax : Int64.maxValue.toInt = 2 ^ 63 - 1 := rfl
  rw [rangeCheck, hmin, hmax, if_pos ⟨hi.1, by omega⟩]

theorem numberOf_decimal (n : ℕ) : numberOf 10 (digitsOf 10 n) = n :=
  numberOf_digitsOf (by omega) (by omega) n

theorem Ends.decimal (hr : Ends r) : ∀ c ∈ r.head?, isDigit 10 c = false ∧ c ≠ '_' :=
  fun c hc ↦ ⟨(hr.number c hc).1, (hr.number c hc).2.1⟩

theorem Ends.based (hr : Ends r) {base : ℕ} (hbase : base ∈ [16, 8, 2]) :
    ∀ c ∈ r.head?, isDigit base c = false ∧ c ≠ '_' := by
  have hall : ∀ c ∈ delimiters, ∀ base ∈ [16, 8, 2], isDigit base c = false ∧ c ≠ '_' :=
    List.forall_iff_forall_mem.mp (by decide)
  exact fun c hc ↦ hall c (hr.head hc) base hbase

/-- A decimal number does not start like one of another base. -/
theorem Spaced.ne_based (h : Spaced (digitsOf 10 n) cs) (hsign : IsSign sign negative)
    {letter : Char} (hr : ∀ c ∈ r.head?, c ≠ letter) (s : List Char) :
    sign ++ (cs ++ r) ≠ '0' :: letter :: s := by
  intro heq
  cases hsign with
  | none =>
    rcases Nat.eq_zero_or_pos n with rfl | hn
    · rw [h.eq_of_zero] at heq
      have hrest : r = letter :: s := (List.cons.inj heq).2
      exact hr letter (by rw [hrest]; rfl) rfl
    · obtain ⟨d, u, rfl, hd⟩ := h.head_ne_zero hn
      exact hd (List.cons.inj heq).1
  | plus | minus => exact absurd (List.cons.inj heq).1 (by decide)

theorem based?_spelled {base zeros : ℕ} (hbase : base ∈ [16, 8, 2])
    (hds : ds.map Char.toLower = List.replicate zeros '0' ++ digitsOf base n)
    (h : Spaced ds cs) (hn : (n : Int) < 2 ^ 63) (hr : Ends r) :
    based? base (cs ++ r) = some (.integer n, r) := by
  have hbounds : ∀ base ∈ [16, 8, 2], 1 < base ∧ base ≤ 16 := by decide
  obtain ⟨hlow, hhigh⟩ := hbounds base hbase
  obtain ⟨hdigits, hvalue⟩ := digits_of_map_toLower hlow hhigh hds
  have hrange : rangeCheck n = some (.integer n) := rangeCheck_of_mem ⟨by omega, hn⟩
  rw [based?, h.read hhigh hdigits (hr.based hbase)]
  simp only [Option.bind_eq_bind, Option.bind_some, hvalue, hrange]

theorem HasIntegerText.read {i : Int} (h : HasIntegerText i cs) (hi : -2 ^ 63 ≤ i ∧ i < 2 ^ 63)
    (hr : Ends r) : integer? (cs ++ r) = some (.integer i, r) := by
  cases h with
  | decimal hsign h =>
    have hletter : ∀ {letter}, letter ∉ delimiters → ∀ c ∈ r.head?, c ≠ letter := by
      rintro _ hletter c hc rfl
      exact hletter (hr.head hc)
    rw [List.append_assoc, integer?]
    · simp only [h.signed (isDigit_decimal _) hsign r, h.decimal hr.decimal, numberOf_decimal,
        rangeCheck_of_mem hi, Option.bind_eq_bind, Option.bind_some]
    · exact h.ne_based hsign (hletter (by decide))
    · exact h.ne_based hsign (hletter (by decide))
    · exact h.ne_based hsign (hletter (by decide))
  | based hbase hds h =>
    cases hbase <;> exact based?_spelled (by decide) hds h hi.2 hr

theorem HasFractionText.read (h : HasFractionText ds cs)
    (hr : ∀ c ∈ r.head?, isDigit 10 c = false ∧ c ≠ '_' ∧ c ≠ '.') :
    fraction? (cs ++ r) = if cs = [] then none else some (ds, r) := by
  cases h with
  | empty =>
    rw [List.nil_append, if_pos rfl, fraction?]
    rintro s rfl
    exact (hr '.' rfl).2.2 rfl
  | digits hds h =>
    rw [if_neg (List.cons_ne_nil _ _)]
    exact h.read (by omega) hds fun c hc ↦ ⟨(hr c hc).1, (hr c hc).2.1⟩

theorem HasExponentText.read {exponent : Int} (h : HasExponentText exponent cs) (hr : Ends r) :
    exponent? (cs ++ r) = if cs = [] then none else some (exponent, r) := by
  cases h with
  | empty =>
    rw [List.nil_append, if_pos rfl]
    cases r with
    | nil => rfl
    | cons c r =>
      obtain ⟨-, -, -, he, hE, -⟩ := hr.number c rfl
      exact if_neg (not_or.mpr ⟨he, hE⟩)
  | digits hletter hsign hds h =>
    rw [if_neg (List.cons_ne_nil _ _), List.cons_append, List.append_assoc, exponent?,
      if_pos hletter]
    simp only [h.signed hds hsign r, h.read (by omega) hds hr.decimal, Option.bind_eq_bind,
      Option.bind_some]

theorem HasExponentText.head {exponent : Int} (h : HasExponentText exponent cs) (hr : Ends r) :
    ∀ c ∈ (cs ++ r).head?, isDigit 10 c = false ∧ c ≠ '_' ∧ c ≠ '.' := by
  cases h with
  | empty => exact fun c hc ↦ ⟨(hr.number c hc).1, (hr.number c hc).2.1, (hr.number c hc).2.2.1⟩
  | digits hletter _ _ _ =>
    rintro _ ⟨⟩
    obtain rfl | rfl := hletter <;> decide

theorem HasFractionText.head (h : HasFractionText ds cs)
    (hr : ∀ c ∈ r.head?, isDigit 10 c = false ∧ c ≠ '_' ∧ c ≠ '.') :
    ∀ c ∈ (cs ++ r).head?, isDigit 10 c = false ∧ c ≠ '_' := by
  cases h with
  | empty => exact fun c hc ↦ ⟨(hr c hc).1, (hr c hc).2.1⟩
  | digits _ _ =>
    rintro _ ⟨⟩
    decide

theorem decimalFloat?_decimal {exponent : Int} {whole fraction power : List Char}
    (hsign : IsSign sign negative) (hwhole : Spaced (digitsOf 10 n) whole)
    (hfraction : HasFractionText ds fraction) (hexponent : HasExponentText exponent power)
    (hsome : fraction ++ power ≠ [])
    (hfinite : negative = true ∨
      IsFinite (numberOf 10 (digitsOf 10 n ++ ds)) (exponent - ds.length)) (hr : Ends r) :
    decimalFloat? (sign ++ (whole ++ (fraction ++ (power ++ r)))) = some (.float, r) := by
  have hpower := hexponent.head hr
  have hrange : (!negative && overflows (digitsOf 10 n ++ ds) (exponent - ds.length)) = false := by
    rcases hfinite with rfl | hfinite
    · rfl
    · rw [(overflows_eq_false_iff _ _).mpr hfinite, Bool.and_false]
  rw [decimalFloat?]
  simp only [hwhole.signed (isDigit_decimal n) hsign, hwhole.decimal (hfraction.head hpower),
    Option.bind_eq_bind, Option.bind_some, hfraction.read hpower]
  cases hfraction with
  | empty =>
    have hread : exponent? (power ++ r) = some (exponent, r) :=
      (hexponent.read hr).trans (if_neg hsome)
    simp only [if_true, List.nil_append, hread, Option.map_some, Option.bind_some, hrange,
      Bool.false_eq_true, if_false]
  | digits _ _ =>
    simp only [if_neg (List.cons_ne_nil _ _), hexponent.read hr]
    cases hexponent with
    | empty => simp only [if_true, List.nil_append, hrange, Bool.false_eq_true, if_false]
    | digits _ _ _ _ =>
      simp only [if_neg (List.cons_ne_nil _ _), hrange, Bool.false_eq_true, if_false]

theorem HasIntegerText.decimalFloat?_eq_none {i : Int} (h : HasIntegerText i cs) (hr : Ends r) :
    decimalFloat? (cs ++ r) = none := by
  have hnone : ∀ c s, c ≠ '.' → c ≠ 'e' → c ≠ 'E' →
      fraction? (c :: s) = none ∧ exponent? (c :: s) = none := by
    intro c s hpoint he hE
    refine ⟨?_, if_neg (not_or.mpr ⟨he, hE⟩)⟩
    rw [fraction?]
    rintro s ⟨⟩
    exact hpoint rfl
  cases h with
  | @decimal n negative sign cs hsign h =>
    have hrest : fraction? r = none ∧ exponent? r = none := by
      cases r with
      | nil => exact ⟨rfl, rfl⟩
      | cons c r =>
        obtain ⟨-, -, hpoint, he, hE, -⟩ := hr.number c rfl
        exact hnone c r hpoint he hE
    rw [List.append_assoc, decimalFloat?]
    simp only [h.signed (isDigit_decimal n) hsign, h.decimal hr.decimal, hrest,
      Option.bind_eq_bind, Option.bind_some, Option.map_none, Option.bind_none]
  | @based n zeros base letter ds cs hbase hds h =>
    obtain ⟨hpoint, he, hE⟩ : letter ≠ '.' ∧ letter ≠ 'e' ∧ letter ≠ 'E' := by
      cases hbase <;> decide
    have hrest := hnone letter (cs ++ r) hpoint he hE
    have hsign : sign? ('0' :: letter :: (cs ++ r)) = (false, '0' :: letter :: (cs ++ r)) := rfl
    rw [List.cons_append, List.cons_append, decimalFloat?, hsign]
    simp only [decimal?, hrest, Option.bind_eq_bind, Option.bind_some, Option.map_none,
      Option.bind_none]

def IsNumberHead (c : Char) : Prop :=
  isDigit 10 c = true ∨ c = '+' ∨ c = '-'

theorem HasIntegerText.head {i : Int} (h : HasIntegerText i cs) :
    ∃ c t, cs = c :: t ∧ IsNumberHead c := by
  cases h with
  | decimal hsign h => simpa [IsNumberHead] using h.head_signed (isDigit_decimal _) hsign []
  | based _ _ _ => exact ⟨'0', _, rfl, .inl rfl⟩

theorem HasIntegerText.specialFloat?_eq_none {i : Int} (h : HasIntegerText i cs)
    (r : List Char) : specialFloat? (cs ++ r) = none := by
  have hnone : ∀ {d : Char} {t : List Char}, isDigit 10 d = true →
      ∀ {negative}, sign? (cs ++ r) = (negative, d :: t) → specialFloat? (cs ++ r) = none := by
    intro d t hd negative heq
    rw [specialFloat?, heq]
    split
    · rename_i hcons
      cases hcons
      cases hd
    · rename_i hcons
      cases hcons
      cases hd
    · rfl
  cases h with
  | decimal hsign h =>
    have heq := h.signed (isDigit_decimal _) hsign r
    obtain ⟨d, t, u, hds, rfl⟩ := h.exists_cons
    have hd := isDigit_decimal _ d (by rw [hds]; exact List.mem_cons_self)
    exact hnone hd (by rw [List.append_assoc]; exact heq)
  | based _ _ _ => exact hnone (d := '0') rfl rfl

theorem HasFloatText.head (h : HasFloatText cs) :
    ∃ c t, cs = c :: t ∧ (IsNumberHead c ∨ c = 'i' ∨ c = 'n') := by
  cases h with
  | decimal hsign hwhole _ _ _ _ =>
    obtain ⟨c, t, heq, hc⟩ := hwhole.head_signed (isDigit_decimal _) hsign _
    exact ⟨c, t, heq, .inl hc⟩
  | special hsign hword =>
    cases hsign with
    | none =>
      obtain rfl | rfl := hword
      · exact ⟨'i', _, rfl, .inr (.inl rfl)⟩
      · exact ⟨'n', _, rfl, .inr (.inr rfl)⟩
    | plus => exact ⟨'+', _, rfl, .inl (.inr (.inl rfl))⟩
    | minus => exact ⟨'-', _, rfl, .inl (.inr (.inr rfl))⟩

theorem HasFloatText.read (h : HasFloatText cs) (hr : Ends r)
    (other : Option (Value × List Char)) :
    (decimalFloat? (cs ++ r) <|> specialFloat? (cs ++ r) <|> other) = some (.float, r) := by
  cases h with
  | decimal hsign hwhole hfraction hexponent hsome hfinite =>
    rw [List.append_assoc, List.append_assoc, List.append_assoc,
      decimalFloat?_decimal hsign hwhole hfraction hexponent hsome hfinite hr]
    rfl
  | special hsign hword =>
    cases hsign <;> obtain rfl | rfl := hword <;> rfl

end Numbers

end InputRelay.Toml
