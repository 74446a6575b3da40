import InputRelay.Proofs.Toml.DateTime

namespace InputRelay.Toml

open Text

def keywords : List (List Char × Bool) :=
  [(['t', 'r', 'u', 'e'], true), (['f', 'a', 'l', 's', 'e'], false)]

/-- All the texts of a value that holds no other values. -/
inductive HasScalarText : Value → List Char → Prop
  | string {s : String} {cs : List Char} (h : HasStringText s cs) : HasScalarText (.string s) cs
  | boolean {b : Bool} {cs : List Char} (h : (cs, b) ∈ keywords) : HasScalarText (.boolean b) cs
  | integer {i : Int} {cs : List Char} (hi : -2 ^ 63 ≤ i ∧ i < 2 ^ 63) (h : HasIntegerText i cs) :
      HasScalarText (.integer i) cs
  | float {cs : List Char} (h : HasFloatText cs) : HasScalarText .float cs
  | dateTime {cs : List Char} (h : HasDateTimeText cs) : HasScalarText .dateTime cs

section Numbers

variable {n : ℕ} {negative : Bool} {sign ds cs r : List Char}

/-- A number is no date or time, where neither goes on behind its digits. -/
theorem Spaced.dateTime?_eq_none (h : Spaced ds cs) (hds : ∀ c ∈ ds, isDigit 10 c = true)
    (hsign : IsSign sign negative)
    (hr : ∀ c ∈ r.head?, isDigit 10 c = false ∧ c ≠ '-' ∧ c ≠ ':') :
    dateTime? (sign ++ (cs ++ r)) = none := by
  cases hsign with
  | none =>
    rw [List.nil_append]
    exact Toml.dateTime?_eq_none (fun c hc ↦ (h.mem c hc).imp_left (hds c)) hr
  | plus | minus => exact dateTime?_eq_none_of_head rfl _

theorem HasIntegerText.dateTime?_eq_none {i : Int} (h : HasIntegerText i cs) (hr : Ends r) :
    dateTime? (cs ++ r) = none := by
  cases h with
  | decimal hsign h =>
    rw [List.append_assoc]
    refine h.dateTime?_eq_none (isDigit_decimal _) hsign fun c hc ↦ ?_
    obtain ⟨hdigit, -, -, -, -, hminus, hcolon⟩ := hr.number c hc
    exact ⟨hdigit, hminus, hcolon⟩
  | @based n zeros base letter ds cs hbase _ _ =>
    change dateTime? (['0'] ++ letter :: (cs ++ r)) = none
    refine Toml.dateTime?_eq_none ?_ ?_
    · exact List.forall_mem_singleton.mpr (by decide)
    · rintro _ ⟨⟩
      cases hbase <;> decide

theorem HasFloatText.dateTime?_eq_none (h : HasFloatText cs) (hr : Ends r) :
    dateTime? (cs ++ r) = none := by
  cases h with
  | @decimal n negative exponent sign whole ds fraction power hsign hwhole hfraction hexponent =>
    rw [List.append_assoc, List.append_assoc, List.append_assoc]
    refine hwhole.dateTime?_eq_none (isDigit_decimal _) hsign ?_
    cases hfraction with
    | digits _ _ =>
      rintro _ ⟨⟩
      decide
    | empty =>
      cases hexponent with
      | digits hletter _ _ _ =>
        rintro _ ⟨⟩
        obtain rfl | rfl := hletter <;> decide
      | empty =>
        intro c hc
        obtain ⟨hdigit, -, -, -, -, hminus, hcolon⟩ := hr.number c hc
        exact ⟨hdigit, hminus, hcolon⟩
  | special hsign hword =>
    cases hsign with
    | none => obtain rfl | rfl := hword <;> exact dateTime?_eq_none_of_head rfl _
    | plus | minus => exact dateTime?_eq_none_of_head rfl _

end Numbers

section Scalars

variable {v : Value} {cs r : List Char}

theorem Ends.unquoted (hr : Ends r) : Unquoted r := by
  have hall : ∀ c ∈ delimiters, c ≠ '"' ∧ c ≠ '\'' :=
    List.forall_iff_forall_mem.mp (by decide)
  cases r with
  | nil => exact ⟨nofun, nofun⟩
  | cons c r => exact .cons (hall c (hr.head rfl)) r

theorem scalarValue?_of_head {c : Char} (hc : c ∉ ['"', '\'', 't', 'f']) (s : List Char) :
    scalarValue? (c :: s) = (dateTime? (c :: s) <|> decimalFloat? (c :: s) <|>
      specialFloat? (c :: s) <|> integer? (c :: s)) := by
  simp only [List.mem_cons, List.not_mem_nil, or_false, not_or] at hc
  have hstring : string? (c :: s) = none := by
    rw [string?.eq_def]
    split <;> simp_all
  have hkeyword : keyword? (c :: s) = none := by
    rw [keyword?.eq_def]
    split <;> simp_all
  rw [scalarValue?, hstring, hkeyword]
  rfl

theorem IsNumberHead.not_mem {c : Char} (h : IsNumberHead c) {others : List Char}
    (hothers : others.Forall fun d ↦ isDigit 10 d = false ∧ d ≠ '+' ∧ d ≠ '-') :
    c ∉ others := by
  intro hc
  obtain ⟨hdigit, hplus, hminus⟩ := List.forall_iff_forall_mem.mp hothers c hc
  rcases h with h | h | h
  · exact Bool.false_ne_true (hdigit.symm.trans h)
  · exact hplus h
  · exact hminus h

theorem HasScalarText.head (h : HasScalarText v cs) :
    ∃ c t, cs = c :: t ∧ c ≠ '[' ∧ c ≠ '{' ∧ c ∉ delimiters := by
  have hnumber : ∀ {c : Char}, IsNumberHead c → c ≠ '[' ∧ c ≠ '{' ∧ c ∉ delimiters := by
    intro c hc
    have hmem : c ∉ '[' :: '{' :: delimiters := hc.not_mem (by decide)
    simpa only [List.mem_cons, not_or] using hmem
  cases h with
  | string h =>
    cases h with
    | basic _ | basicLines _ _ => exact ⟨'"', _, rfl, by decide⟩
    | literal _ | literalLines _ _ => exact ⟨'\'', _, rfl, by decide⟩
  | boolean h =>
    simp only [keywords, List.mem_cons, List.not_mem_nil, or_false, Prod.mk.injEq] at h
    obtain ⟨rfl, -⟩ | ⟨rfl, -⟩ := h
    · exact ⟨'t', _, rfl, by decide⟩
    · exact ⟨'f', _, rfl, by decide⟩
  | integer _ h =>
    obtain ⟨c, t, rfl, hc⟩ := h.head
    exact ⟨c, t, rfl, hnumber hc⟩
  | float h =>
    obtain ⟨c, t, rfl, hc | rfl | rfl⟩ := h.head
    · exact ⟨c, t, rfl, hnumber hc⟩
    · exact ⟨'i', t, rfl, by decide⟩
    · exact ⟨'n', t, rfl, by decide⟩
  | dateTime h =>
    obtain ⟨c, t, rfl, hc⟩ := h.head
    exact ⟨c, t, rfl, hnumber (.inl hc)⟩

theorem HasScalarText.read (h : HasScalarText v cs) (hr : Ends r) :
    scalarValue? (cs ++ r) = some (v, r) := by
  cases h with
  | string h =>
    rw [scalarValue?, h.read hr.unquoted]
    rfl
  | boolean h =>
    simp only [keywords, List.mem_cons, List.not_mem_nil, or_false, Prod.mk.injEq] at h
    obtain ⟨rfl, rfl⟩ | ⟨rfl, rfl⟩ := h <;> rfl
  | integer hi h =>
    have hdate := h.dateTime?_eq_none hr
    have hdecimal := h.decimalFloat?_eq_none hr
    have hspecial := h.specialFloat?_eq_none r
    have hread := h.read hi hr
    obtain ⟨c, t, rfl, hc⟩ := h.head
    rw [List.cons_append] at hdate hdecimal hspecial hread ⊢
    rw [scalarValue?_of_head (hc.not_mem (by decide)), hdate, hdecimal, hspecial, hread]
    rfl
  | float h =>
    have hdate := h.dateTime?_eq_none hr
    have hread := h.read hr (integer? (cs ++ r))
    obtain ⟨c, t, rfl, hc⟩ := h.head
    have hmem : c ∉ ['"', '\'', 't', 'f'] := by
      obtain hc | rfl | rfl := hc
      · exact hc.not_mem (by decide)
      · decide
      · decide
    rw [List.cons_append] at hdate hread ⊢
    rw [scalarValue?_of_head hmem, hdate]
    exact hread
  | dateTime h =>
    have hread := h.read hr
    obtain ⟨c, t, rfl, hc⟩ := h.head
    rw [List.cons_append] at hread ⊢
    rw [scalarValue?_of_head (IsNumberHead.not_mem (.inl hc) (by decide)), hread]
    rfl

end Scalars

end InputRelay.Toml
