import InputRelay.Proofs.Json.Literal
import InputRelay.Proofs.Json.Numeral

namespace InputRelay.Json

/-- Induction on values, with what holds of all that a container holds. -/
theorem forallInduction {motive : Json → Prop} (null : motive .null) (bool : ∀ b, motive (.bool b))
    (number : ∀ n, motive (.number n)) (string : ∀ l, motive (.string l))
    (array : ∀ items, (∀ v ∈ items, motive v) → motive (.array items))
    (object : ∀ members, (∀ p ∈ members, motive p.2) → motive (.object members)) :
    ∀ v, motive v
  | .null => null
  | .bool b => bool b
  | .number n => number n
  | .string l => string l
  | .array items =>
    array items fun v _ ↦ forallInduction null bool number string array object v
  | .object members =>
    object members fun p _ ↦ forallInduction null bool number string array object p.2
decreasing_by
  · have := List.sizeOf_lt_of_mem ‹_›
    simp only [Json.array.sizeOf_spec]
    omega
  · have := List.sizeOf_lt_of_mem ‹_›
    have : sizeOf p.2 < sizeOf p := by
      cases p
      simp only [Prod.mk.sizeOf_spec]
      omega
    simp only [Json.object.sizeOf_spec]
    omega

def Token.fixed : List (Token × List Char) :=
  [(.openArray, ['[']), (.closeArray, [']']), (.openObject, ['{']), (.closeObject, ['}']),
    (.comma, [',']), (.colon, [':']), (.scalar .null, ['n', 'u', 'l', 'l']),
    (.scalar (.bool true), ['t', 'r', 'u', 'e']),
    (.scalar (.bool false), ['f', 'a', 'l', 's', 'e'])]

/-- The ways to write a token. A numeral is written as the writer does it. -/
inductive Token.Spells : Token → List Char → Prop
  | fixed {t : Token} {cs : List Char} (h : (t, cs) ∈ Token.fixed) : Spells t cs
  | string {l : Literal} {cs : List Char} (h : l.Spells cs) : Spells (.string l) cs
  | number (n : Numeral) : Spells (.scalar (.number n)) n.write

/-- A text with some tokens, among any blanks. -/
inductive Lays : List Token → List Char → Prop
  | nil {blanks : List Char} (hb : ∀ c ∈ blanks, isSpace c = true) : Lays [] blanks
  | cons {blanks cs s : List Char} {t : Token} {ts : List Token}
      (hb : ∀ c ∈ blanks, isSpace c = true) (ht : t.Spells cs) (hs : Lays ts s) :
      Lays (t :: ts) (blanks ++ (cs ++ s))

inductive Token.HasText : Token → List Char → Prop
  | fixed {t : Token} {cs : List Char} (h : (t, cs) ∈ Token.fixed) : HasText t cs
  | string {l : Literal} {cs : List Char} (h : l.HasText cs) : HasText (.string l) cs
  | number {n : Numeral} {cs : List Char} (h : n.HasText cs) : HasText (.scalar (.number n)) cs

inductive HaveText : List Token → List Char → Prop
  | nil {blanks : List Char} (hb : ∀ c ∈ blanks, isSpace c = true) : HaveText [] blanks
  | cons {blanks cs s : List Char} {t : Token} {ts : List Token}
      (hb : ∀ c ∈ blanks, isSpace c = true) (ht : t.HasText cs) (hs : HaveText ts s) :
      HaveText (t :: ts) (blanks ++ (cs ++ s))

mutual

def tokens : Json → List Token
  | array items => .openArray :: itemTokens items
  | object members => .openObject :: memberTokens members
  | string l => [.string l]
  | v => [.scalar v]

def itemTokens : List Json → List Token
  | [] => [.closeArray]
  | [v] => tokens v ++ [.closeArray]
  | v :: items => tokens v ++ .comma :: itemTokens items

def memberTokens : List (Literal × Json) → List Token
  | [] => [.closeObject]
  | [(k, v)] => .string k :: .colon :: (tokens v ++ [.closeObject])
  | (k, v) :: members => .string k :: .colon :: (tokens v ++ .comma :: memberTokens members)

end

theorem itemTokens_cons {items : List Json} (h : items ≠ []) (v : Json) :
    itemTokens (v :: items) = v.tokens ++ .comma :: itemTokens items :=
  itemTokens.eq_3 v items h

theorem memberTokens_cons {members : List (Literal × Json)} (h : members ≠ []) (k : Literal)
    (v : Json) : memberTokens ((k, v) :: members) =
      .string k :: .colon :: (v.tokens ++ .comma :: memberTokens members) :=
  memberTokens.eq_3 k v members h

/-- The ways to write a value as a text. -/
def Writes (v : Json) (s : List Char) : Prop :=
  Lays v.tokens s

/-- All the texts of a value. -/
def HasText (v : Json) (s : List Char) : Prop :=
  HaveText v.tokens s

theorem Token.Spells.hasText {t : Token} {cs : List Char} (h : t.Spells cs) : t.HasText cs := by
  cases h with
  | fixed h => exact .fixed h
  | string h => exact .string h.hasText
  | number n => exact .number n.hasText_write

theorem Lays.haveText {ts : List Token} {s : List Char} (h : Lays ts s) : HaveText ts s := by
  induction h with
  | nil hb => exact .nil hb
  | cons hb ht _ ih => exact .cons hb ht.hasText ih

theorem Writes.hasText {v : Json} {s : List Char} (h : v.Writes s) : v.HasText s :=
  Lays.haveText h

theorem Lays.token {t : Token} {cs : List Char} (ht : t.Spells cs) {ts : List Token}
    {s : List Char} (hs : Lays ts s) : Lays (t :: ts) (cs ++ s) :=
  @Lays.cons [] cs s t ts (by simp) ht hs

theorem Lays.one {t : Token} {cs : List Char} (ht : t.Spells cs) : Lays [t] cs := by
  rw [← List.append_nil cs]
  exact .token ht (.nil (by simp))

theorem Lays.append {ts us : List Token} {s r : List Char} (h : Lays ts s) (h' : Lays us r) :
    Lays (ts ++ us) (s ++ r) := by
  induction h with
  | nil hb =>
    cases h' with
    | nil hb' =>
      refine .nil fun c hc ↦ ?_
      exact (List.mem_append.mp hc).elim (hb c) (hb' c)
    | cons hb' ht hs =>
      rw [List.nil_append, ← List.append_assoc]
      refine .cons (fun c hc ↦ ?_) ht hs
      exact (List.mem_append.mp hc).elim (hb c) (hb' c)
  | cons hb ht hs ih =>
    rw [List.append_assoc, List.append_assoc]
    exact .cons hb ht ih

theorem lays_writeItems {items : List Json} (h : ∀ v ∈ items, v.Writes v.write) :
    Lays (itemTokens items) (writeItems items) := by
  induction items with
  | nil => exact .one (.fixed (by simp [Token.fixed, writeItems]))
  | cons v items ih =>
    have hv := h v List.mem_cons_self
    have hclose : Lays [.closeArray] [']'] := .one (.fixed (by simp [Token.fixed]))
    have hcomma : Token.Spells .comma [','] := .fixed (by simp [Token.fixed])
    cases items with
    | nil => exact Lays.append hv hclose
    | cons w items =>
      exact Lays.append hv (.token hcomma (ih fun u hu ↦ h u (List.mem_cons_of_mem v hu)))

theorem lays_writeMembers {members : List (Literal × Json)}
    (h : ∀ p ∈ members, p.2.Writes p.2.write) :
    Lays (memberTokens members) (writeMembers members) := by
  induction members with
  | nil => exact .one (.fixed (by simp [Token.fixed, writeMembers]))
  | cons p members ih =>
    obtain ⟨k, v⟩ := p
    have hv := h (k, v) List.mem_cons_self
    have hkey : Lays [.string k, .colon] (writeLiteral k ++ [':']) :=
      .token (.string (Literal.spells_writeLiteral k)) (.one (.fixed (by simp [Token.fixed])))
    have hclose : Lays [.closeObject] ['}'] := .one (.fixed (by simp [Token.fixed]))
    have hcomma : Token.Spells .comma [','] := .fixed (by simp [Token.fixed])
    cases members with
    | nil =>
      have hall := hkey.append (Lays.append hv hclose)
      simpa [memberTokens, writeMembers] using hall
    | cons q members =>
      have hrest := ih fun p hp ↦ h p (List.mem_cons_of_mem _ hp)
      have hall := hkey.append (Lays.append hv (.token hcomma hrest))
      simpa [memberTokens, writeMembers] using hall

theorem writes_write (v : Json) : v.Writes v.write := by
  induction v using forallInduction with
  | null => exact .one (.fixed (by simp [Token.fixed, write]))
  | bool b => cases b <;> exact .one (.fixed (by simp [Token.fixed, write]))
  | number n => exact .one (.number n)
  | string l => exact .one (.string l.spells_writeLiteral)
  | array items ih =>
    have hopen : Token.Spells .openArray ['['] := .fixed (by simp [Token.fixed])
    exact .token hopen (lays_writeItems ih)
  | object members ih =>
    have hopen : Token.Spells .openObject ['{'] := .fixed (by simp [Token.fixed])
    exact .token hopen (lays_writeMembers ih)

end InputRelay.Json
