import InputRelay.Proofs.Toml.Number

namespace InputRelay.Toml

open Text

def HasFieldText (width n : ℕ) (ds : List Char) : Prop :=
  n < 10 ^ width ∧ ds = padLeft width '0' (digitsOf 10 n)

structure IsDate (year month day : ℕ) : Prop where
  month_pos : 1 ≤ month
  month_le : month ≤ 12
  day_pos : 1 ≤ day
  day_le : day ≤ 31
  day_le_of_short : month ∈ [4, 6, 9, 11] → day ≤ 30
  day_le_of_february : month = 2 → day ≤ 29
  leap : month = 2 → day = 29 → year % 4 = 0 ∧ (year % 100 ≠ 0 ∨ year % 400 = 0)

inductive HasDateText : List Char → Prop
  | mk {year month day : ℕ} {ys ms ds : List Char} (h : IsDate year month day)
      (hyear : HasFieldText 4 year ys) (hmonth : HasFieldText 2 month ms)
      (hday : HasFieldText 2 day ds) : HasDateText (ys ++ '-' :: (ms ++ '-' :: ds))

inductive HasTimeText : List Char → Prop
  | mk {hour minute second : ℕ} {hs ms ss fraction : List Char} (hhour : hour ≤ 23)
      (hminute : minute ≤ 59) (hsecond : second ≤ 60) (hhours : HasFieldText 2 hour hs)
      (hminutes : HasFieldText 2 minute ms) (hseconds : HasFieldText 2 second ss)
      (hfraction : fraction = [] ∨ ∃ d ds, (∀ c ∈ d :: ds, isDigit 10 c = true) ∧
        fraction = '.' :: d :: ds) :
      HasTimeText (hs ++ ':' :: (ms ++ ':' :: (ss ++ fraction)))

inductive HasOffsetText : List Char → Prop
  | zero {c : Char} (hc : c = 'Z' ∨ c = 'z') : HasOffsetText [c]
  | hours {hour minute : ℕ} {c : Char} {hs ms : List Char} (hc : c = '+' ∨ c = '-')
      (hhour : hour ≤ 23) (hminute : minute ≤ 59) (hhours : HasFieldText 2 hour hs)
      (hminutes : HasFieldText 2 minute ms) : HasOffsetText (c :: (hs ++ ':' :: ms))

/-- All the texts of a date, a time or both. -/
inductive HasDateTimeText : List Char → Prop
  | date {ds : List Char} (hdate : HasDateText ds) : HasDateTimeText ds
  | time {ts : List Char} (htime : HasTimeText ts) : HasDateTimeText ts
  | both {c : Char} {ds ts offset : List Char} (hc : c = 'T' ∨ c = 't' ∨ c = ' ')
      (hdate : HasDateText ds) (htime : HasTimeText ts)
      (hoffset : offset = [] ∨ HasOffsetText offset) :
      HasDateTimeText (ds ++ c :: (ts ++ offset))

section DateTimes

variable {width low high n : ℕ} {cs ds r : List Char}

theorem field?_eq_some {s s' : List Char} (h : field? width low high s = some (n, s')) :
    (s.take width).length = width ∧ (∀ c ∈ s.take width, isDigit 10 c = true) ∧
      s' = s.drop width := by
  unfold field? at h
  dsimp only at h
  obtain ⟨⟨hlength, hdigits, -⟩, h⟩ := Option.ite_none_right_eq_some.mp h
  exact ⟨hlength, List.all_eq_true.mp hdigits, (Prod.mk.inj (Option.some.inj h)).2.symm⟩

theorem field?_eq_none_of_head {c : Char} (hc : isDigit 10 c = false) (hwidth : 0 < width)
    (s : List Char) : field? width low high (c :: s) = none := by
  rw [Option.eq_none_iff_forall_ne_some]
  rintro ⟨n, s'⟩ h
  obtain ⟨width, rfl⟩ := Nat.exists_eq_add_one.mpr hwidth
  have hdigit := (field?_eq_some h).2.1 c (by rw [List.take_succ_cons]; exact List.mem_cons_self)
  exact Bool.false_ne_true (hc.symm.trans hdigit)

theorem dateTime?_eq_none_of_head {c : Char} (hc : isDigit 10 c = false) (s : List Char) :
    dateTime? (c :: s) = none := by
  rw [dateTime?, date?, time?, field?_eq_none_of_head hc (by omega),
    field?_eq_none_of_head hc (by omega)]
  rfl

/-- A field among digits and underscores leaves what a date or a time does not go on with. -/
theorem expect?_after_field {c : Char} (hcs : ∀ c ∈ cs, isDigit 10 c = true ∨ c = '_')
    (hr : ∀ d ∈ r.head?, isDigit 10 d = false ∧ d ≠ c) (hc : isDigit 10 c = false ∧ c ≠ '_')
    {s : List Char} (h : field? width low high (cs ++ r) = some (n, s)) : expect? c s = none := by
  obtain ⟨hlength, hdigits, rfl⟩ := field?_eq_some h
  have hwidth : width ≤ cs.length := by
    by_contra hlt
    cases r with
    | nil =>
      rw [List.append_nil, List.length_take] at hlength
      omega
    | cons d r =>
      have hmem : d ∈ (cs ++ d :: r).take width := by
        rw [List.take_append, show width - cs.length = width - cs.length - 1 + 1 by omega,
          List.take_succ_cons]
        simp
      exact Bool.false_ne_true ((hr d rfl).1.symm.trans (hdigits d hmem))
  rw [List.drop_append_of_le_length hwidth]
  cases hdrop : cs.drop width with
  | nil =>
    cases r with
    | nil => rfl
    | cons d r => exact if_neg (hr d rfl).2
  | cons d t =>
    refine if_neg ?_
    rintro rfl
    rcases hcs d (List.mem_of_mem_drop (hdrop ▸ List.mem_cons_self)) with hd | hd
    · exact Bool.false_ne_true (hc.1.symm.trans hd)
    · exact hc.2 hd

theorem dateTime?_eq_none (hcs : ∀ c ∈ cs, isDigit 10 c = true ∨ c = '_')
    (hr : ∀ c ∈ r.head?, isDigit 10 c = false ∧ c ≠ '-' ∧ c ≠ ':') :
    dateTime? (cs ++ r) = none := by
  have hdate : date? (cs ++ r) = none := by
    rw [date?]
    cases hyear : field? 4 0 9999 (cs ++ r) with
    | none => rfl
    | some p =>
      have hstop := expect?_after_field hcs (fun d hd ↦ ⟨(hr d hd).1, (hr d hd).2.1⟩)
        (by decide) hyear
      change (expect? '-' p.2).bind _ = none
      rw [hstop]
      rfl
  have htime : time? (cs ++ r) = none := by
    rw [time?]
    cases hhour : field? 2 0 23 (cs ++ r) with
    | none => rfl
    | some p =>
      have hstop := expect?_after_field hcs (fun d hd ↦ ⟨(hr d hd).1, (hr d hd).2.2⟩)
        (by decide) hhour
      change (expect? ':' p.2).bind _ = none
      rw [hstop]
      rfl
  rw [dateTime?, hdate, htime]
  rfl


theorem HasFieldText.length (h : HasFieldText width n ds) (hwidth : 0 < width) :
    ds.length = width := by
  rw [h.2]
  exact length_padLeft (length_digitsOf_le (by omega) hwidth h.1)

theorem HasFieldText.isDigit (h : HasFieldText width n ds) : ∀ c ∈ ds, isDigit 10 c = true := by
  intro c hc
  rw [h.2] at hc
  rcases List.mem_append.mp hc with hc | hc
  · rw [(List.mem_replicate.mp hc).2]
    decide
  · exact isDigit_decimal n c hc

theorem HasFieldText.read (h : HasFieldText width n ds) (hwidth : 0 < width) (hlow : low ≤ n)
    (hhigh : n ≤ high) (r : List Char) : field? width low high (ds ++ r) = some (n, r) := by
  have hlength := h.length hwidth
  have hdigits : ds.all (Text.isDigit 10) = true := List.all_eq_true.mpr h.isDigit
  have hvalue : numberOf 10 ds = n := by
    rw [h.2, padLeft, numberOf_zeros, numberOf_digitsOf (by omega) (by omega)]
  rw [field?, List.take_left' hlength, List.drop_left' hlength, hvalue,
    if_pos ⟨hlength, hdigits, hlow, hhigh⟩]

theorem IsDate.day_le_daysInMonth {year month day : ℕ} (h : IsDate year month day) :
    day ≤ daysInMonth year month := by
  unfold daysInMonth
  split
  case h_1 =>
    have hfebruary := h.day_le_of_february rfl
    split
    · exact hfebruary
    · rename_i hleap
      have hne : day ≠ 29 := fun h29 ↦ hleap (h.leap rfl h29)
      omega
  case h_6 => exact h.day_le
  all_goals exact h.day_le_of_short (by decide)

theorem HasDateText.read (h : HasDateText cs) (r : List Char) : date? (cs ++ r) = some r := by
  obtain ⟨h, hyear, hmonth, hday⟩ := h
  have hyear_le : _ ≤ 9999 := Nat.le_of_lt_succ hyear.1
  simp only [List.append_assoc, List.cons_append, date?, hyear.read (by omega) (Nat.zero_le _)
    hyear_le, hmonth.read (by omega) h.month_pos h.month_le, hday.read (by omega) h.day_pos
    h.day_le_daysInMonth, expect?, if_true, Option.bind_eq_bind, Option.bind_some]

/-- What stands behind the seconds goes on with them only if it is a fraction. -/
theorem HasTimeText.read (h : HasTimeText cs)
    (hr : ∀ c ∈ r.head?, isDigit 10 c = false ∧ c ≠ '.') : time? (cs ++ r) = some r := by
  obtain ⟨hhour, hminute, hsecond, hhours, hminutes, hseconds, hfraction⟩ := h
  simp only [List.append_assoc, List.cons_append, time?, hhours.read (by omega) (Nat.zero_le _)
    hhour, hminutes.read (by omega) (Nat.zero_le _) hminute, hseconds.read (by omega)
    (Nat.zero_le _) hsecond, expect?, if_true, Option.bind_eq_bind, Option.bind_some]
  rcases hfraction with rfl | ⟨d, ds, hds, rfl⟩
  · rw [List.nil_append]
    split
    · exact absurd rfl (hr '.' rfl).2
    · rfl
  · obtain ⟨hd, hds⟩ := List.forall_mem_cons.mp hds
    have hdrop : (ds ++ r).dropWhile (isDigit 10) = r := by
      rw [List.dropWhile_append_of_pos hds]
      cases r with
      | nil => rfl
      | cons c r => exact List.dropWhile_cons_of_neg (by simp [(hr c rfl).1])
    simp [hd, hdrop]

theorem HasOffsetText.read (h : HasOffsetText cs) (r : List Char) :
    offset? (cs ++ r) = some r := by
  cases h with
  | zero hc => exact if_pos hc
  | @hours _ _ c _ _ hc hhour hminute hhours hminutes =>
    have hzone : ¬(c = 'Z' ∨ c = 'z') := by
      obtain rfl | rfl := hc <;> decide
    simp only [List.append_assoc, List.cons_append, offset?, if_neg hzone, if_pos hc,
      hhours.read (by omega) (Nat.zero_le _) hhour, hminutes.read (by omega) (Nat.zero_le _)
      hminute, expect?, if_true, Option.bind_eq_bind, Option.bind_some]

theorem HasFieldText.exists_cons (h : HasFieldText width n ds) (hwidth : 0 < width) :
    ∃ d t, ds = d :: t ∧ Text.isDigit 10 d = true := by
  obtain ⟨d, t, rfl⟩ := List.exists_cons_of_length_pos ((h.length hwidth).symm ▸ hwidth)
  exact ⟨d, t, rfl, h.isDigit d List.mem_cons_self⟩

theorem HasDateTimeText.head (h : HasDateTimeText cs) :
    ∃ d t, cs = d :: t ∧ isDigit 10 d = true := by
  have hdate : ∀ {ds}, HasDateText ds → ∃ d t, ds = d :: t ∧ isDigit 10 d = true := by
    rintro _ ⟨-, hyear, -, -⟩
    obtain ⟨d, t, rfl, hd⟩ := hyear.exists_cons (by omega)
    exact ⟨d, _, rfl, hd⟩
  cases h with
  | date h => exact hdate h
  | time h =>
    obtain ⟨-, -, -, hhours, -, -, -⟩ := h
    obtain ⟨d, t, rfl, hd⟩ := hhours.exists_cons (by omega)
    exact ⟨d, _, rfl, hd⟩
  | both _ h _ _ =>
    obtain ⟨d, t, rfl, hd⟩ := hdate h
    exact ⟨d, _, rfl, hd⟩

theorem Ends.offset? (hr : Ends r) : offset? r = none := by
  cases r with
  | nil => rfl
  | cons c r =>
    have hall : ∀ c ∈ delimiters,
        ¬(c = 'Z' ∨ c = 'z') ∧ ¬(c = '+' ∨ c = '-') :=
      List.forall_iff_forall_mem.mp (by decide)
    obtain ⟨hzone, hsign⟩ := hall c (hr.head rfl)
    rw [Toml.offset?, if_neg hzone, if_neg hsign]

/-- A space behind a date does not lead to a time. -/
theorem Ends.timeAfterDate? (hr : Ends r) : timeAfterDate? r = none := by
  cases r with
  | nil => rfl
  | cons c r =>
    have hall : ∀ c ∈ delimiters,
        (c = 'T' ∨ c = 't' ∨ c = ' ') → isSpace c = true :=
      List.forall_iff_forall_mem.mp (by decide)
    rw [Toml.timeAfterDate?]
    split
    · rename_i hc
      have htail := hr.tail (hall c (hr.head rfl) hc)
      cases r with
      | nil => rfl
      | cons d r =>
        rw [time?, field?_eq_none_of_head (htail.number d rfl).1 (by omega)]
        rfl
    · rfl

theorem HasTimeText.date? (h : HasTimeText cs) (r : List Char) : date? (cs ++ r) = none := by
  obtain ⟨-, -, -, hhours, -, -, -⟩ := h
  obtain ⟨a, b, rfl⟩ := List.length_eq_two.mp (hhours.length (by omega))
  rw [Toml.date?]
  cases hyear : field? 4 0 9999 _ with
  | none => rfl
  | some p =>
    have hcolon := (field?_eq_some hyear).2.1 ':' (by simp)
    exact absurd hcolon (by decide)

theorem HasDateTimeText.read (h : HasDateTimeText cs) (hr : Ends r) :
    dateTime? (cs ++ r) = some (.dateTime, r) := by
  have hends := hr.number
  have hseconds : ∀ c ∈ r.head?, isDigit 10 c = false ∧ c ≠ '.' :=
    fun c hc ↦ ⟨(hends c hc).1, (hends c hc).2.2.1⟩
  cases h with
  | date h => simp only [dateTime?, h.read, hr.timeAfterDate?]
  | time h => simp only [dateTime?, h.date?, h.read hseconds, Option.map_some]
  | @both c ds ts offset hc hdate htime hoffset =>
    rcases hoffset with rfl | hoffset
    · simp only [List.append_assoc, List.cons_append, List.nil_append, dateTime?, hdate.read,
        timeAfterDate?, if_pos hc, htime.read hseconds, hr.offset?, Option.getD_none]
    · have hzone : ∀ c ∈ (offset ++ r).head?, isDigit 10 c = false ∧ c ≠ '.' := by
        cases hoffset with
        | zero hc | hours hc =>
          rintro _ ⟨⟩
          obtain rfl | rfl := hc <;> decide
      simp only [List.append_assoc, List.cons_append, dateTime?, hdate.read,
        timeAfterDate?, if_pos hc, htime.read hzone, hoffset.read, Option.getD_some]

end DateTimes

end InputRelay.Toml
