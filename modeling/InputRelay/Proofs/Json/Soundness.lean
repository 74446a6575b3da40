import InputRelay.Proofs.Json.Reading

namespace InputRelay

open Text

namespace Literal

theorem spellsUnit_of_digits {ds : List Char} (hlength : ds.length = 4)
    (hds : ds.all (isDigit 16) = true) : SpellsUnit (numberOf 16 ds) ds := by
  have hne : ds ≠ [] := List.ne_nil_of_length_eq_add_one hlength
  obtain ⟨zeros, hzeros⟩ := exists_zeros_digitsOf (b := 16) (by omega) (by omega) hne
    (List.all_eq_true.mp hds)
  have hsum := congrArg List.length hzeros
  rw [List.length_map, hlength, List.length_append, List.length_replicate] at hsum
  have hwidth : (digitsOf 16 (numberOf 16 ds)).length ≤ 4 := by omega
  constructor
  · exact (Nat.length_toDigits_le_iff (b := 16) (k := 4) (by omega) (by omega)).mp hwidth
  · rw [hzeros, padLeft, show 4 - (digitsOf 16 (numberOf 16 ds)).length = zeros by omega]

theorem mem_shortEscapes {e c : Char} (h : escaped? e = some c) : (e, c) ∈ shortEscapes := by
  unfold escaped? at h
  split at h <;> cases h <;> simp [shortEscapes]

theorem SpellsPieces.of_scan {s rest : List Char} {pieces : List Piece}
    (h : Literal.scan s = some (pieces, rest)) :
    ∃ body, s = body ++ '"' :: rest ∧ SpellsPieces pieces body := by
  fun_induction Literal.scan s generalizing pieces rest with
  | case1 => cases h
  | case2 r =>
    cases h
    exact ⟨[], rfl, .nil⟩
  | case3 a b c d r hd ih =>
    obtain ⟨⟨more, rest'⟩, hmore, he⟩ := Option.map_eq_some_iff.mp h
    cases he
    obtain ⟨body, rfl, hbody⟩ := ih hmore
    exact ⟨_, rfl, .unit (spellsUnit_of_digits rfl hd) hbody⟩
  | case4 => cases h
  | case5 e r _ ih =>
    simp only [Option.bind_eq_bind, Option.bind_eq_some_iff] at h
    obtain ⟨c, hc, ⟨more, rest'⟩, hmore, he⟩ := h
    cases he
    obtain ⟨body, rfl, hbody⟩ := ih hmore
    exact ⟨_, rfl, .short (mem_shortEscapes hc) hbody⟩
  | case6 => cases h
  | case7 c r hquote _ _ hc ih =>
    obtain ⟨⟨more, rest'⟩, hmore, he⟩ := Option.map_eq_some_iff.mp h
    cases he
    obtain ⟨body, rfl, hbody⟩ := ih hmore
    have hplain : ' ' ≤ c ∧ c ≠ '"' ∧ c ≠ '\\' :=
      ⟨Char.not_lt.mp (hc ∘ Or.inl), hquote, hc ∘ Or.inr⟩
    exact ⟨_, rfl, .plain hplain hbody⟩

end Literal

namespace Numeral

theorem scanDigits_eq {s ds r : List Char} (h : scanDigits s = (ds, r)) :
    s = ds ++ r ∧ ∀ c ∈ ds, isDigit 10 c = true := by
  obtain ⟨rfl, rfl⟩ := Prod.mk.inj h
  exact ⟨List.takeWhile_append_dropWhile.symm, List.all_eq_true.mp List.all_takeWhile⟩

theorem toLower_of_isDigit {c : Char} (h : isDigit 10 c = true) : c.toLower = c := by
  by_cases hc : 65 ≤ c.toNat ∧ c.toNat ≤ 90
  · have hupper : ∀ i < 26, isDigit 10 (Char.ofNat (65 + i)) = false := by decide
    have hnone := hupper (c.toNat - 65) (by omega)
    rw [Nat.add_sub_cancel' hc.1, Char.ofNat_toNat] at hnone
    cases hnone.symm.trans h
  · exact dif_neg hc

theorem exists_zeros_decimal {ds : List Char} (hne : ds ≠ [])
    (hds : ∀ c ∈ ds, isDigit 10 c = true) :
    ∃ zeros, ds = List.replicate zeros '0' ++ digitsOf 10 (numberOf 10 ds) := by
  obtain ⟨zeros, hzeros⟩ := exists_zeros_digitsOf (b := 10) (by omega) (by omega) hne hds
  have hlower : ds.map Char.toLower = ds :=
    (List.map_congr_left fun c hc ↦ toLower_of_isDigit (hds c hc)).trans (List.map_id ds)
  exact ⟨zeros, hlower.symm.trans hzeros⟩

theorem digitsOf_decimalDigit {c : Char} (h : isDigit 10 c = true) :
    digitsOf 10 (decimalDigit c).val = [c] := by
  obtain ⟨d, hd⟩ := Option.isSome_iff_exists.mp h
  obtain ⟨hlt, hc⟩ := toLower_of_digitValue? (by omega) hd
  have hvalue : (decimalDigit c).val = d := by
    rw [decimalDigit, hd]
    exact Nat.mod_eq_of_lt hlt
  rw [hvalue, digitsOf, Nat.toDigits_of_lt_base hlt, ← hc, toLower_of_isDigit h]

theorem eq_of_scanWhole {s rest : List Char} {n : ℕ} (h : scanWhole s = some (n, rest)) :
    s = digitsOf 10 n ++ rest := by
  unfold scanWhole at h
  split at h
  · cases h
    rfl
  · rename_i hzero
    split at h
    · cases h
    · rename_i ds r hne hds
      cases h
      obtain ⟨rfl, hall⟩ := scanDigits_eq hds
      obtain ⟨zeros, hzeros⟩ := exists_zeros_decimal hne hall
      cases zeros with
      | zero => exact congrArg (· ++ rest) hzeros
      | succ zeros => exact absurd (congrArg (· ++ rest) hzeros) (hzero _)

theorem eq_of_scanFraction {s rest : List Char} {fraction : List (Fin 10)}
    (h : scanFraction s = some (fraction, rest)) : s = writeFraction fraction ++ rest := by
  unfold scanFraction at h
  split at h
  · split at h
    · cases h
    · rename_i ds r hne hds
      cases h
      obtain ⟨rfl, hall⟩ := scanDigits_eq hds
      have hback : (ds.map decimalDigit).flatMap (fun d ↦ digitsOf 10 d.val) = ds := by
        rw [List.flatMap_map, List.flatMap_congr fun c hc ↦ digitsOf_decimalDigit (hall c hc)]
        exact List.flatMap_singleton' ds
      rw [writeFraction, if_neg (hne ∘ List.map_eq_nil_iff.mp), hback]
      rfl
  · cases h
    rfl

theorem exists_of_scanExponentDigits {negative : Bool} {s rest : List Char} {e : Option Int}
    (h : scanExponentDigits negative s = some (e, rest)) :
    ∃ zeros n : ℕ, s = List.replicate zeros '0' ++ digitsOf 10 n ++ rest ∧
      e = some (if negative then -(n : Int) else n) := by
  unfold scanExponentDigits at h
  split at h
  · cases h
  · rename_i ds r hne hds
    cases h
    obtain ⟨rfl, hall⟩ := scanDigits_eq hds
    obtain ⟨zeros, hzeros⟩ := exists_zeros_decimal hne hall
    exact ⟨zeros, _, congrArg (· ++ rest) hzeros, rfl⟩

theorem SpellsExponent.of_scan {s rest : List Char} {e : Option Int}
    (h : scanExponent s = some (e, rest)) : ∃ cs, s = cs ++ rest ∧ SpellsExponent e cs := by
  unfold scanExponent at h
  split at h
  case h_7 =>
    cases h
    exact ⟨[], rfl, .none⟩
  all_goals
    obtain ⟨zeros, n, rfl, rfl⟩ := exists_of_scanExponentDigits h
  · exact ⟨_, rfl, .plus (.inl rfl) (.inr rfl) zeros n⟩
  · exact ⟨_, rfl, .plus (.inr rfl) (.inr rfl) zeros n⟩
  · exact ⟨_, rfl, .minus (.inl rfl) zeros n⟩
  · exact ⟨_, rfl, .minus (.inr rfl) zeros n⟩
  · exact ⟨_, rfl, .plus (.inl rfl) (.inl rfl) zeros n⟩
  · exact ⟨_, rfl, .plus (.inr rfl) (.inl rfl) zeros n⟩

theorem exists_of_scanUnsigned {negative : Bool} {s rest : List Char} {n : Numeral}
    (h : scanUnsigned negative s = some (n, rest)) : n.negative = negative ∧
      ∃ exponent, SpellsExponent n.exponent exponent ∧
        s = digitsOf 10 n.whole ++ (writeFraction n.fraction ++ exponent) ++ rest := by
  simp only [scanUnsigned, Option.bind_eq_bind, Option.bind_eq_some_iff] at h
  obtain ⟨⟨whole, r⟩, hwhole, ⟨fraction, q⟩, hfraction, ⟨e, p⟩, he, h⟩ := h
  cases h
  obtain ⟨exponent, rfl, hexponent⟩ := SpellsExponent.of_scan he
  obtain rfl := eq_of_scanFraction hfraction
  obtain rfl := eq_of_scanWhole hwhole
  exact ⟨rfl, exponent, hexponent, by simp only [List.append_assoc]⟩

theorem HasText.of_scan {s rest : List Char} {n : Numeral} (h : Numeral.scan s = some (n, rest)) :
    ∃ cs, s = cs ++ rest ∧ n.HasText cs := by
  unfold Numeral.scan at h
  split at h <;> obtain ⟨hnegative, exponent, hexponent, rfl⟩ := exists_of_scanUnsigned h
  · exact ⟨_, rfl, exponent, hexponent, by rw [hnegative]⟩
  · exact ⟨_, rfl, exponent, hexponent, by rw [hnegative]; rfl⟩

end Numeral

namespace Json

theorem Token.HasText.of_scan {s rest : List Char} {t : Token}
    (h : Token.scan s = some (t, rest)) : ∃ cs, s = cs ++ rest ∧ t.HasText cs := by
  unfold Token.scan at h
  split at h
  case h_7 r =>
    obtain ⟨⟨pieces, rest'⟩, hpieces, he⟩ := Option.map_eq_some_iff.mp h
    cases he
    obtain ⟨body, rfl, hbody⟩ := Literal.SpellsPieces.of_scan hpieces
    exact ⟨'"' :: (body ++ ['"']), by simp, .string hbody.hasText⟩
  case h_11 =>
    obtain ⟨⟨n, rest'⟩, hn, he⟩ := Option.map_eq_some_iff.mp h
    cases he
    obtain ⟨cs, rfl, hcs⟩ := Numeral.HasText.of_scan hn
    exact ⟨cs, rfl, .number hcs⟩
  all_goals cases h
  · exact ⟨['['], rfl, .fixed (by simp [Token.fixed])⟩
  · exact ⟨[']'], rfl, .fixed (by simp [Token.fixed])⟩
  · exact ⟨['{'], rfl, .fixed (by simp [Token.fixed])⟩
  · exact ⟨['}'], rfl, .fixed (by simp [Token.fixed])⟩
  · exact ⟨[','], rfl, .fixed (by simp [Token.fixed])⟩
  · exact ⟨[':'], rfl, .fixed (by simp [Token.fixed])⟩
  · exact ⟨['n', 'u', 'l', 'l'], rfl, .fixed (by simp [Token.fixed])⟩
  · exact ⟨['t', 'r', 'u', 'e'], rfl, .fixed (by simp [Token.fixed])⟩
  · exact ⟨['f', 'a', 'l', 's', 'e'], rfl, .fixed (by simp [Token.fixed])⟩

theorem itemTokens_concat (items : List Json) (v : Json) : itemTokens (items ++ [v]) =
    (items.flatMap fun v ↦ v.tokens ++ [.comma]) ++ (v.tokens ++ [.closeArray]) := by
  induction items with
  | nil => rfl
  | cons w items ih =>
    rw [List.cons_append, itemTokens_cons (by simp), ih, List.flatMap_cons]
    simp only [List.append_assoc, List.cons_append, List.nil_append]

theorem memberTokens_concat (members : List (Literal × Json)) (k : Literal) (v : Json) :
    memberTokens (members ++ [(k, v)]) =
      (members.flatMap fun (k, v) ↦ .string k :: .colon :: (v.tokens ++ [.comma])) ++
        .string k :: .colon :: (v.tokens ++ [.closeObject]) := by
  induction members with
  | nil => rfl
  | cons p members ih =>
    obtain ⟨k', w⟩ := p
    rw [List.cons_append, memberTokens_cons (by simp), ih, List.flatMap_cons]
    simp only [List.cons_append, List.append_assoc, List.nil_append]

/-- The tokens at the beginning of an object, up to a comma. -/
def objectTokens (done : List (Literal × Json)) : List Token :=
  .openObject ::
    done.reverse.flatMap fun (k, v) ↦ .string k :: .colon :: (v.tokens ++ [.comma])

def Frame.tokens : Frame → List Token
  | .array done => .openArray :: done.reverse.flatMap fun v ↦ v.tokens ++ [.comma]
  | .object done k => objectTokens done ++ [.string k, .colon]

def Phase.tokens : Phase → List Token
  | .value => []
  | .firstItem => [.openArray]
  | .key done => objectTokens done
  | .colon done k => objectTokens done ++ [.string k]
  | .ended v => v.tokens

theorem tokens_array_cons (v : Json) (done : List Json) : (Frame.array (v :: done)).tokens =
    (Frame.array done).tokens ++ (v.tokens ++ [.comma]) := by
  rw [Frame.tokens, List.reverse_cons, List.flatMap_append, List.flatMap_singleton]
  rfl

theorem tokens_array (v : Json) (done : List Json) : (array (v :: done).reverse).tokens =
    (Frame.array done).tokens ++ (v.tokens ++ [.closeArray]) := by
  rw [tokens, List.reverse_cons, itemTokens_concat]
  rfl

theorem objectTokens_cons (k : Literal) (v : Json) (done : List (Literal × Json)) :
    objectTokens ((k, v) :: done) = (Frame.object done k).tokens ++ (v.tokens ++ [.comma]) := by
  rw [objectTokens, List.reverse_cons, List.flatMap_append, List.flatMap_singleton, Frame.tokens,
    List.append_assoc]
  rfl

theorem tokens_object (k : Literal) (v : Json) (done : List (Literal × Json)) :
    (object ((k, v) :: done).reverse).tokens =
      (Frame.object done k).tokens ++ (v.tokens ++ [.closeObject]) := by
  rw [tokens, List.reverse_cons, memberTokens_concat, Frame.tokens, List.append_assoc]
  rfl

theorem Token.HasText.tokens_scalar {v : Json} {cs : List Char}
    (h : Token.HasText (.scalar v) cs) : v.tokens = [.scalar v] := by
  cases h with
  | fixed h =>
    have hfixed : ∀ p ∈ Token.fixed, ∀ v, p.1 = .scalar v → v.tokens = [.scalar v] := by
      simp [Token.fixed, tokens]
    exact hfixed _ h v rfl
  | number => rfl

namespace ReaderState

/-- The tokens that lead to a state. -/
def taken (st : ReaderState) : List Token :=
  st.stack.reverse.flatMap Frame.tokens ++ st.phase.tokens

theorem taken_push (phase : Phase) (frame : Frame) (stack : List Frame) :
    taken ⟨phase, frame :: stack⟩ =
      stack.reverse.flatMap Frame.tokens ++ (frame.tokens ++ phase.tokens) := by
  rw [taken, List.reverse_cons, List.flatMap_append, List.flatMap_singleton, List.append_assoc]

theorem taken_beginValue {stack : List Frame} {t : Token} {cs : List Char} (ht : t.HasText cs)
    {next : ReaderState} (h : beginValue stack t = some next) :
    next.taken = taken ⟨.value, stack⟩ ++ [t] := by
  have hvalue : taken ⟨.value, stack⟩ = stack.reverse.flatMap Frame.tokens := List.append_nil _
  rw [hvalue]
  unfold beginValue at h
  split at h <;> cases h
  · rw [taken, Phase.tokens, ht.tokens_scalar]
  all_goals rfl

theorem taken_endValue {v : Json} {stack : List Frame} {t : Token} {next : ReaderState}
    (h : endValue v stack t = some next) : next.taken = taken ⟨.ended v, stack⟩ ++ [t] := by
  unfold endValue at h
  split at h <;> cases h
  · rw [taken_push, taken_push, tokens_array_cons]
    simp [Phase.tokens]
  · rw [taken, taken_push, Phase.tokens, tokens_array]
    simp [Phase.tokens]
  · rw [taken, taken_push, Phase.tokens, objectTokens_cons]
    simp [Phase.tokens]
  · rw [taken, taken_push, Phase.tokens, tokens_object]
    simp [Phase.tokens]

theorem taken_step {st next : ReaderState} {t : Token} {cs : List Char} (ht : t.HasText cs)
    (h : st.step t = some next) : next.taken = st.taken ++ [t] := by
  obtain ⟨phase, stack⟩ := st
  cases phase with
  | value => exact taken_beginValue ht h
  | firstItem =>
    by_cases hclose : t = .closeArray
    · subst hclose
      cases h
      simp [taken, Phase.tokens, tokens, itemTokens]
    · rw [begins_firstItem stack t hclose] at h
      rw [taken_beginValue ht h, taken_push]
      rfl
  | key done =>
    cases t with
    | string k =>
      have hstep : step ⟨.key done, stack⟩ (.string k) = some ⟨.colon done k, stack⟩ := by
        cases done <;> rfl
      cases hstep.symm.trans h
      simp [taken, Phase.tokens]
    | closeObject =>
      cases done with
      | nil =>
        cases h
        simp [taken, Phase.tokens, tokens, memberTokens, objectTokens]
      | cons => cases h
    | _ => cases done <;> cases h
  | colon done k =>
    cases t with
    | colon =>
      cases h
      simp [taken, Phase.tokens, Frame.tokens]
    | _ => cases h
  | ended v => exact taken_endValue h

theorem haveText_of_run {st : ReaderState} {s : List Char} {v : Json} (h : st.run s = some v) :
    ∃ ts, HaveText ts s ∧ st.taken ++ ts = v.tokens := by
  have hblanks : ∀ s : List Char, ∀ c ∈ s.takeWhile isSpace, isSpace c = true :=
    fun s ↦ List.all_eq_true.mp List.all_takeWhile
  fun_induction run st s with
  | case1 st s hs =>
    have htext : s.takeWhile isSpace ++ [] = s := by
      rw [← hs, List.takeWhile_append_dropWhile]
    rw [List.append_nil] at htext
    unfold result? at h
    split at h <;> cases h
    exact ⟨[], .nil (htext ▸ hblanks s), List.append_nil _⟩
  | case2 st s c r hs hscan => cases h
  | case3 st s c r hs t rest hscan hstep => cases h
  | case4 st s c r hs t rest hscan next hstep ih =>
    obtain ⟨ts, hts, htaken⟩ := ih h
    obtain ⟨cs, hcs, ht⟩ := Token.HasText.of_scan hscan
    have htext : s.takeWhile isSpace ++ (cs ++ rest) = s := by
      rw [← hcs, ← hs, List.takeWhile_append_dropWhile]
    refine ⟨t :: ts, htext ▸ .cons (hblanks s) ht hts, ?_⟩
    rw [← htaken, taken_step ht hstep, List.append_assoc, List.singleton_append]

end ReaderState

/-- What is read is written in the text. -/
theorem hasText_of_read {s : List Char} {v : Json} (h : read s = some v) : v.HasText s := by
  obtain ⟨ts, hts, htaken⟩ := ReaderState.haveText_of_run h
  rw [HasText, ← htaken]
  exact hts

end Json

end InputRelay
