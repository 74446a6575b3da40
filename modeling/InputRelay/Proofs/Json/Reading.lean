import InputRelay.Proofs.Json.Layout

namespace InputRelay.Json

def Follows (ts : List Token) : Prop :=
  ∀ t ∈ ts.head?, t = .comma ∨ t = .closeArray ∨ t = .closeObject

theorem isSpace_iff {c : Char} :
    isSpace c = true ↔ c = ' ' ∨ c = '\n' ∨ c = '\r' ∨ c = '\t' := by
  simp [isSpace, or_assoc]

theorem Token.HasText.head {t : Token} {cs : List Char} (h : t.HasText cs) :
    ∃ c r, cs = c :: r ∧ isSpace c = false := by
  cases h with
  | fixed h =>
    have hfixed : ∀ p ∈ Token.fixed, ∃ c r, p.2 = c :: r ∧ isSpace c = false := by
      simp [Token.fixed, isSpace]
    exact hfixed _ h
  | string h =>
    obtain ⟨body, rfl, -⟩ := h.scan
    exact ⟨'"', body, rfl, rfl⟩
  | number h =>
    obtain ⟨c, s, hcs, hc⟩ := h.head
    refine ⟨c, s, hcs, Bool.eq_false_iff.mpr fun hspace ↦ ?_⟩
    rcases isSpace_iff.mp hspace with rfl | rfl | rfl | rfl <;> exact absurd hc (by decide)

theorem Token.HasText.scan {t : Token} {cs rest : List Char} (h : t.HasText cs)
    (hrest : (∃ n, t = .scalar (.number n)) → Numeral.Ends rest) :
    Token.scan (cs ++ rest) = some (t, rest) := by
  cases h with
  | fixed h =>
    have hfixed : ∀ p ∈ Token.fixed, ∀ rest, Token.scan (p.2 ++ rest) = some (p.1, rest) := by
      simp [Token.fixed, Token.scan]
    exact hfixed _ h rest
  | string h =>
    obtain ⟨body, rfl, hbody⟩ := h.scan
    obtain ⟨pieces, hscan, hpieces⟩ := hbody rest
    rw [← hpieces, List.cons_append, Token.scan, hscan]
    rfl
  | @number n _ h =>
    have hscan := h.scan (hrest ⟨n, rfl⟩)
    obtain ⟨c, s, rfl, hc⟩ := h.head
    rw [List.cons_append, Token.scan.eq_def]
    split
    case h_11 =>
      rw [← List.cons_append, hscan]
      rfl
    all_goals
      rename_i h
      obtain ⟨rfl, -⟩ := List.cons.inj h
      exact absurd hc (by decide)

theorem HaveText.ends {ts : List Token} {s : List Char} (h : HaveText ts s) (hts : Follows ts) :
    Numeral.Ends s := by
  have hblank : ∀ {blanks r : List Char}, (∀ c ∈ blanks, isSpace c = true) →
      Numeral.Ends r → Numeral.Ends (blanks ++ r) := by
    intro blanks r hb hr
    cases blanks with
    | nil => exact hr
    | cons c blanks =>
      rintro c' ⟨⟩
      rcases isSpace_iff.mp (hb c List.mem_cons_self) with rfl | rfl | rfl | rfl <;> decide
  cases h with
  | nil hb =>
    rw [← List.append_nil s]
    exact hblank hb (by simp [Numeral.Ends])
  | cons hb ht hs =>
    apply hblank hb
    have hfixed : ∀ p ∈ Token.fixed, p.1 = .comma ∨ p.1 = .closeArray ∨ p.1 = .closeObject →
        ∀ r, Numeral.Ends (p.2 ++ r) := by
      simp [Token.fixed, Numeral.Ends, Text.isDigit, Text.digitValue?]
    cases ht with
    | fixed h => exact hfixed _ h (hts _ rfl) _
    | string h => simpa using hts _ rfl
    | number h => simpa using hts _ rfl

namespace ReaderState

theorem run_of_scan {s rest : List Char} {t : Token}
    (h : Token.scan (s.dropWhile isSpace) = some (t, rest)) (st : ReaderState) :
    st.run s = (st.step t).bind (·.run rest) := by
  rw [run]
  split
  · rename_i hs
    rw [hs] at h
    cases h
  · rename_i c r hs
    rw [hs] at h
    split
    · rename_i hnone
      rw [hnone] at h
      cases h
    · rename_i t' rest' hscan
      rw [hscan] at h
      cases h
      cases st.step t <;> rfl

theorem run_blank {s : List Char} (hs : ∀ c ∈ s, isSpace c = true) (st : ReaderState) :
    st.run s = st.result? := by
  have hnil : s.dropWhile isSpace = [] := by
    rw [← List.append_nil s, List.dropWhile_append_of_pos hs]
    rfl
  rw [run]
  split
  · rfl
  · rename_i hcons
    rw [hnil] at hcons
    cases hcons

end ReaderState

theorem HaveText.run_cons {t : Token} {ts : List Token} {s : List Char} (h : HaveText (t :: ts) s)
    (hts : (∃ n, t = .scalar (.number n)) → Follows ts) :
    ∃ rest, HaveText ts rest ∧ ∀ st : ReaderState, st.run s = (st.step t).bind (·.run rest) := by
  cases h with
  | @cons blanks cs rest t ts hb ht hs =>
    obtain ⟨c, r, hcs, hc⟩ := ht.head
    refine ⟨rest, hs, ReaderState.run_of_scan ?_⟩
    rw [List.dropWhile_append_of_pos hb, hcs, List.cons_append,
      List.dropWhile_cons_of_neg (by simp [hc]), ← List.cons_append, ← hcs]
    exact ht.scan fun hn ↦ hs.ends (hts hn)

/-- A state in which a value begins inside of some containers. Of the tokens, only the end of an
array is treated differently there, and with that no value begins. -/
def Begins (st : ReaderState) (stack : List Frame) : Prop :=
  ∀ t, t ≠ .closeArray → st.step t = ReaderState.beginValue stack t

theorem begins_value (stack : List Frame) : Begins ⟨.value, stack⟩ stack :=
  fun _ _ ↦ rfl

theorem begins_firstItem (stack : List Frame) :
    Begins ⟨.firstItem, stack⟩ (.array [] :: stack) := by
  intro t ht
  cases t <;> first | rfl | exact absurd rfl ht

theorem follows_cons {t : Token} {ts : List Token}
    (h : t = .comma ∨ t = .closeArray ∨ t = .closeObject) : Follows (t :: ts) := by
  rintro _ ⟨⟩
  exact h

/-- Where a value may begin, all of it is read and nothing after it. -/
def Reads (v : Json) : Prop :=
  ∀ ⦃st stack⦄, Begins st stack → ∀ ⦃ts⦄, Follows ts → ∀ ⦃s⦄, HaveText (v.tokens ++ ts) s →
    ∃ rest, HaveText ts rest ∧ st.run s = ReaderState.run ⟨.ended v, stack⟩ rest

theorem reads_token {v : Json} {t : Token} (htokens : v.tokens = [t]) (ht : t ≠ .closeArray)
    (hvalue : ∀ stack, ReaderState.beginValue stack t = some ⟨.ended v, stack⟩) : Reads v := by
  intro st stack hst ts hts s h
  rw [htokens] at h
  obtain ⟨rest, hrest, hrun⟩ := HaveText.run_cons h fun _ ↦ hts
  exact ⟨rest, hrest, by rw [hrun, hst t ht, hvalue, Option.bind_some]⟩

theorem run_items {items : List Json} (hitems : ∀ v ∈ items, Reads v) (hne : items ≠ []) {st stack}
    {done : List Json} (hst : Begins st (.array done :: stack)) {ts s}
    (h : HaveText (itemTokens items ++ ts) s) : ∃ rest, HaveText ts rest ∧
      st.run s = ReaderState.run ⟨.ended (.array (done.reverse ++ items)), stack⟩ rest := by
  -- a value before the last one is followed by a comma, and then the next begins with it done
  induction items generalizing st done s with
  | nil => exact absurd rfl hne
  | cons v items ih =>
    have hv := hitems v List.mem_cons_self
    cases items with
    | nil =>
      rw [itemTokens, List.append_assoc] at h
      obtain ⟨r, hr, hvalue⟩ := hv hst (follows_cons (by simp)) h
      obtain ⟨rest, hrest, hclose⟩ := HaveText.run_cons hr (by simp)
      refine ⟨rest, hrest, ?_⟩
      rw [hvalue, hclose, ← List.reverse_cons]
      rfl
    | cons w items =>
      rw [itemTokens_cons (by simp), List.append_assoc] at h
      obtain ⟨r, hr, hvalue⟩ := hv hst (follows_cons (by simp)) h
      obtain ⟨r', hr', hcomma⟩ := HaveText.run_cons hr (by simp)
      obtain ⟨rest, hrest, hrun⟩ := ih (fun u hu ↦ hitems u (List.mem_cons_of_mem v hu))
        (by simp) (begins_value (.array (v :: done) :: stack)) hr'
      refine ⟨rest, hrest, ?_⟩
      rw [hvalue, hcomma, List.append_cons, ← List.reverse_cons]
      exact hrun

theorem reads_array {items : List Json} (hitems : ∀ v ∈ items, Reads v) :
    Reads (.array items) := by
  intro st stack hst ts hts s h
  obtain ⟨r, hr, hopen⟩ := HaveText.run_cons h (by simp)
  rw [hopen, hst _ (by simp)]
  by_cases hne : items = []
  · subst hne
    obtain ⟨rest, hrest, hclose⟩ := HaveText.run_cons hr (by simp)
    exact ⟨rest, hrest, hclose _⟩
  · exact run_items hitems hne (begins_firstItem stack) hr

theorem run_member {k : Literal} {v : Json} (hv : Reads v) {ts} (hts : Follows ts) {s}
    (h : HaveText (.string k :: .colon :: (v.tokens ++ ts)) s) (done stack) :
    ∃ rest, HaveText ts rest ∧
      ReaderState.run ⟨.key done, stack⟩ s =
        ReaderState.run ⟨.ended v, .object done k :: stack⟩ rest := by
  obtain ⟨r, hr, hkey⟩ := h.run_cons (by simp)
  obtain ⟨r', hr', hcolon⟩ := hr.run_cons (by simp)
  obtain ⟨rest, hrest, hvalue⟩ := hv (begins_value _) hts hr'
  have hstep : ReaderState.step ⟨.key done, stack⟩ (.string k) = some ⟨.colon done k, stack⟩ := by
    cases done <;> rfl
  exact ⟨rest, hrest, by rw [hkey, hstep, Option.bind_some, hcolon]; exact hvalue⟩

theorem run_members {members : List (Literal × Json)} (hmembers : ∀ p ∈ members, Reads p.2)
    (hne : members ≠ []) {done stack ts s}
    (h : HaveText (memberTokens members ++ ts) s) : ∃ rest, HaveText ts rest ∧
      ReaderState.run ⟨.key done, stack⟩ s =
        ReaderState.run ⟨.ended (.object (done.reverse ++ members)), stack⟩ rest := by
  induction members generalizing done s with
  | nil => exact absurd rfl hne
  | cons p members ih =>
    obtain ⟨k, v⟩ := p
    have hv := hmembers (k, v) List.mem_cons_self
    cases members with
    | nil =>
      rw [memberTokens, List.cons_append, List.cons_append, List.append_assoc] at h
      obtain ⟨r, hr, hmember⟩ := run_member hv (follows_cons (by simp)) h done stack
      obtain ⟨rest, hrest, hclose⟩ := HaveText.run_cons hr (by simp)
      refine ⟨rest, hrest, ?_⟩
      rw [hmember, hclose, ← List.reverse_cons]
      rfl
    | cons q members =>
      rw [memberTokens_cons (by simp), List.cons_append, List.cons_append,
        List.append_assoc] at h
      obtain ⟨r, hr, hmember⟩ := run_member hv (follows_cons (by simp)) h done stack
      obtain ⟨r', hr', hcomma⟩ := HaveText.run_cons hr (by simp)
      obtain ⟨rest, hrest, hrun⟩ := ih (fun p hp ↦ hmembers p (List.mem_cons_of_mem _ hp))
        (by simp) hr'
      refine ⟨rest, hrest, ?_⟩
      rw [hmember, hcomma, List.append_cons, ← List.reverse_cons]
      exact hrun

theorem reads_object {members : List (Literal × Json)} (hmembers : ∀ p ∈ members, Reads p.2) :
    Reads (.object members) := by
  intro st stack hst ts hts s h
  obtain ⟨r, hr, hopen⟩ := HaveText.run_cons h (by simp)
  rw [hopen, hst _ (by simp)]
  by_cases hne : members = []
  · subst hne
    obtain ⟨rest, hrest, hclose⟩ := HaveText.run_cons hr (by simp)
    exact ⟨rest, hrest, hclose _⟩
  · exact run_members hmembers hne hr

theorem reads (v : Json) : Reads v := by
  induction v using forallInduction with
  | null => exact reads_token rfl (by simp) fun _ ↦ rfl
  | bool b => exact reads_token rfl (by simp) fun _ ↦ rfl
  | number n => exact reads_token rfl (by simp) fun _ ↦ rfl
  | string l => exact reads_token rfl (by simp) fun _ ↦ rfl
  | array items ih => exact reads_array ih
  | object members ih => exact reads_object ih

/-- A value is read from each of its texts. -/
theorem read_of_hasText {v : Json} {s : List Char} (h : v.HasText s) : read s = some v := by
  rw [HasText, ← List.append_nil v.tokens] at h
  obtain ⟨rest, hrest, hrun⟩ := reads v (begins_value []) (by simp [Follows]) h
  rw [read, hrun]
  cases hrest with
  | nil hb => exact ReaderState.run_blank hb _

theorem read_of_writes {v : Json} {s : List Char} (h : v.Writes s) : read s = some v :=
  read_of_hasText h.hasText

theorem read_write (v : Json) : read v.write = some v :=
  read_of_writes v.writes_write

end InputRelay.Json
