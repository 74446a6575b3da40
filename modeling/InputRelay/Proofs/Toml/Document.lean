import InputRelay.Proofs.Toml.Scalar
import InputRelay.Toml.Reader
import Mathlib.Data.List.DropRight

namespace InputRelay.Toml

/-- What may stand anywhere among the items of an array: spaces, line breaks and comments. -/
inductive Void : List Char → Prop
  | nil : Void []
  | space {c : Char} {cs : List Char} (hc : isSpace c = true) (h : Void cs) : Void (c :: cs)
  | lineBreak {b cs : List Char} (hb : b ∈ lineBreaks) (h : Void cs) : Void (b ++ cs)
  | comment {note b cs : List Char} (hnote : ∀ c ∈ note, isPrintable c = true)
      (hb : b ∈ lineBreaks) (h : Void cs) : Void ('#' :: (note ++ (b ++ cs)))

inductive HasPartText (k : String) : List Char → Prop
  | bare (hne : k.toList ≠ []) (h : ∀ c ∈ k.toList, isBareKeyChar c = true) :
      HasPartText k k.toList
  | basic {cs : List Char} (h : SpellsLine k.toList cs) : HasPartText k ('"' :: (cs ++ ['"']))
  | literal (h : ∀ c ∈ k.toList, isPrintable c = true ∧ c ≠ '\'') :
      HasPartText k ('\'' :: (k.toList ++ ['\'']))

inductive HasKeyText : List String → List Char → Prop
  | last {k : String} {cs after : List Char} (h : HasPartText k cs) (hafter : Spaces after) :
      HasKeyText [k] (cs ++ after)
  | cons {k : String} {ks : List String} {cs after before rest : List Char} (h : HasPartText k cs)
      (hafter : Spaces after) (hbefore : Spaces before) (hrest : HasKeyText ks rest) :
      HasKeyText (k :: ks) (cs ++ (after ++ '.' :: (before ++ rest)))

section Containers

variable (P : Value → List Char → Prop)

inductive HasItemsText : List Value → List Char → Prop
  | nil {void : List Char} (h : Void void) : HasItemsText [] void
  | last {v : Value} {before cs after : List Char} (hbefore : Void before) (h : P v cs)
      (hafter : Void after) : HasItemsText [v] (before ++ (cs ++ after))
  | cons {v : Value} {vs : List Value} {before cs after rest : List Char} (hbefore : Void before)
      (h : P v cs) (hafter : Void after) (hrest : HasItemsText vs rest) :
      HasItemsText (v :: vs) (before ++ (cs ++ (after ++ ',' :: rest)))

inductive HasAssignmentText : Statement → List Char → Prop
  | mk {path : List String} {key : String} {v : Value} {ks before cs : List Char}
      (hkey : HasKeyText (path ++ [key]) ks) (hlength : path.length < depthLimit)
      (hbefore : Spaces before) (h : P v cs) :
      HasAssignmentText (.assign path key v) (ks ++ '=' :: (before ++ cs))

inductive HasEntriesText : List Statement → List Char → Prop
  | last {s : Statement} {cs after : List Char} (h : HasAssignmentText P s cs)
      (hafter : Spaces after) : HasEntriesText [s] (cs ++ after)
  | cons {s : Statement} {ss : List Statement} {cs after before rest : List Char}
      (h : HasAssignmentText P s cs) (hafter : Spaces after) (hbefore : Spaces before)
      (hrest : HasEntriesText ss rest) :
      HasEntriesText (s :: ss) (cs ++ (after ++ ',' :: (before ++ rest)))

inductive HasContainerText : Value → List Char → Prop
  | array {vs : List Value} {cs : List Char} (h : HasItemsText P vs cs) :
      HasContainerText (.array vs) ('[' :: (cs ++ [']']))
  | empty {spaces : List Char} (h : Spaces spaces) :
      HasContainerText (.table []) ('{' :: (spaces ++ ['}']))
  | table {ss : List Statement} {v : Value} {before cs : List Char} (hbefore : Spaces before)
      (h : HasEntriesText P ss cs) (hv : assemble ss = some v) :
      HasContainerText v ('{' :: (before ++ (cs ++ ['}'])))

end Containers

/-- All the texts of a value whose containers nest at most so deep. -/
def HasValueText : ℕ → Value → List Char → Prop
  | 0, v, cs => HasScalarText v cs
  | depth + 1, v, cs => HasScalarText v cs ∨ HasContainerText (HasValueText depth) v cs

inductive HasStatementText : Statement → List Char → Prop
  | assign {s : Statement} {cs : List Char} (h : HasAssignmentText (HasValueText depthLimit) s cs) :
      HasStatementText s cs
  | table {path : List String} {key : String} {before cs : List Char} (hbefore : Spaces before)
      (h : HasKeyText (path ++ [key]) cs) (hlength : path.length < depthLimit) :
      HasStatementText (.table path key) ('[' :: (before ++ (cs ++ [']'])))
  | item {path : List String} {key : String} {before cs : List Char} (hbefore : Spaces before)
      (h : HasKeyText (path ++ [key]) cs) (hlength : path.length < depthLimit) :
      HasStatementText (.item path key) ('[' :: '[' :: (before ++ (cs ++ [']', ']'])))

inductive Trails : List Char → Prop
  | spaces {cs : List Char} (h : Spaces cs) : Trails cs
  | comment {before note : List Char} (hbefore : Spaces before)
      (hnote : ∀ c ∈ note, isPrintable c = true) : Trails (before ++ '#' :: note)

inductive HasLineText : List Statement → List Char → Prop
  | blank {cs : List Char} (h : Trails cs) : HasLineText [] cs
  | statement {s : Statement} {before cs after : List Char} (hbefore : Spaces before)
      (h : HasStatementText s cs) (hafter : Trails after) :
      HasLineText [s] (before ++ (cs ++ after))

inductive HasLinesText : List Statement → List Char → Prop
  | last {ss : List Statement} {cs : List Char} (h : HasLineText ss cs) : HasLinesText ss cs
  | cons {ss ss' : List Statement} {cs b rest : List Char} (h : HasLineText ss cs)
      (hb : b ∈ lineBreaks) (hrest : HasLinesText ss' rest) :
      HasLinesText (ss ++ ss') (cs ++ (b ++ rest))

/-- All the texts of a document, with a byte order mark in front or without. -/
inductive HasText : List Statement → List Char → Prop
  | plain {ss : List Statement} {cs : List Char} (h : HasLinesText ss cs) : HasText ss cs
  | marked {ss : List Statement} {cs : List Char} (h : HasLinesText ss cs) :
      HasText ss ('\ufeff' :: cs)

section Gaps

variable {cs r : List Char}

theorem Spaces.skip_cons (h : Spaces cs) {c : Char} (hc : isSpace c = false) (r : List Char) :
    skipSpaces (cs ++ c :: r) = c :: r :=
  skipSpaces_append h (by rintro _ ⟨⟩; exact hc)

theorem isSpace_iff {c : Char} : isSpace c = true ↔ c = ' ' ∨ c = '\t' := by
  simp [isSpace]

theorem skipVoid_comment {note b : List Char} (hnote : ∀ c ∈ note, isPrintable c = true)
    (hb : b ∈ lineBreaks) (r : List Char) :
    skipVoid true (note ++ (b ++ r)) = skipVoid false r := by
  induction note with
  | nil => obtain rfl | rfl := eq_of_mem_lineBreaks hb <;> rfl
  | cons c note ih =>
    obtain ⟨hc, hnote⟩ := List.forall_mem_cons.mp hnote
    obtain ⟨hbreak, hreturn⟩ := ne_break_of_isPrintable hc
    rw [List.cons_append, skipVoid]
    · simpa [hc] using ih hnote
    all_goals simp [hbreak, hreturn]

theorem Void.skip (h : Void cs) (r : List Char) :
    skipVoid false (cs ++ r) = skipVoid false r := by
  induction h with
  | nil => rfl
  | space hc _ ih =>
    obtain rfl | rfl := isSpace_iff.mp hc <;> exact ih
  | lineBreak hb _ ih =>
    obtain rfl | rfl := eq_of_mem_lineBreaks hb <;> exact ih
  | comment hnote hb _ ih =>
    rw [List.cons_append, List.append_assoc, List.append_assoc]
    exact (skipVoid_comment hnote hb _).trans ih

theorem ends_cons {c : Char} (hc : c ∈ ['\n', '\r', '#', ',', ']', '}']) (r : List Char) :
    Ends (c :: r) := by
  have hspace : ∀ c ∈ ['\n', '\r', '#', ',', ']', '}'], isSpace c = false :=
    List.forall_iff_forall_mem.mp (by decide)
  have hskip : skipSpaces (c :: r) = c :: r := List.dropWhile_cons_of_neg (by simp [hspace c hc])
  rw [Ends, hskip]
  rintro _ ⟨⟩
  exact hc

theorem Spaces.ends (h : Spaces cs) (hr : Ends r) : Ends (cs ++ r) := by
  have hskip : skipSpaces (cs ++ r) = skipSpaces r := List.dropWhile_append_of_pos h
  rwa [Ends, hskip]

theorem ends_lineBreak {b : List Char} (hb : b ∈ lineBreaks) (r : List Char) : Ends (b ++ r) := by
  obtain rfl | rfl := eq_of_mem_lineBreaks hb <;> exact ends_cons (by decide) _

theorem Void.ends (h : Void cs) (hr : Ends r) : Ends (cs ++ r) := by
  induction h with
  | nil => exact hr
  | @space c cs hc _ ih =>
    have hspaces : Spaces [c] := List.forall_mem_singleton.mpr hc
    exact hspaces.ends ih
  | lineBreak hb _ _ =>
    rw [List.append_assoc]
    exact ends_lineBreak hb _
  | comment _ _ _ _ => exact ends_cons (by decide) _

theorem Trails.ends (h : Trails cs) (hr : Ends r) : Ends (cs ++ r) := by
  cases h with
  | spaces h => exact h.ends hr
  | comment hbefore _ =>
    rw [List.append_assoc]
    exact hbefore.ends (ends_cons (by decide) _)

theorem Trails.endLine? (h : Trails cs) (hr : ∀ c ∈ r.head?, c = '\n' ∨ c = '\r') :
    endLine? (cs ++ r) = if r = [] then some [] else lineBreak? r := by
  have hhead : ∀ c ∈ r.head?, isSpace c = false ∧ isPrintable c = false ∧ c ≠ '#' := by
    intro c hc
    obtain rfl | rfl := hr c hc <;> decide
  cases h with
  | spaces h =>
    rw [Toml.endLine?, skipSpaces_append h fun c hc ↦ (hhead c hc).1]
    split
    · exact absurd rfl (hhead '#' rfl).2.2
    · rfl
  | @comment before note hbefore hnote =>
    have hskip : skipSpaces (before ++ '#' :: (note ++ r)) = '#' :: (note ++ r) :=
      hbefore.skip_cons rfl _
    have hdrop : (note ++ r).dropWhile isPrintable = r := by
      rw [List.dropWhile_append_of_pos hnote]
      cases r with
      | nil => rfl
      | cons c r => exact List.dropWhile_cons_of_neg (by simp [(hhead c rfl).2.1])
    rw [List.append_assoc, List.cons_append, Toml.endLine?, hskip]
    simp only [hdrop]

end Gaps

section Keys

variable {c : Char} {k : String} {ks : List String} {cs r : List Char}

def IsKeyHead (c : Char) : Prop :=
  isBareKeyChar c = true ∨ c = '"' ∨ c = '\''

theorem IsKeyHead.ne {d : Char} (hc : IsKeyHead c)
    (hd : isBareKeyChar d = false ∧ d ≠ '"' ∧ d ≠ '\'') : c ≠ d := by
  rintro rfl
  obtain ⟨hbare, hquote, hapostrophe⟩ := hd
  rcases hc with hc | hc | hc
  · exact Bool.false_ne_true (hbare.symm.trans hc)
  · exact hquote hc
  · exact hapostrophe hc

theorem IsKeyHead.isSpace (hc : IsKeyHead c) : isSpace c = false := by
  rw [Toml.isSpace, beq_false_of_ne (hc.ne (by decide)), beq_false_of_ne (hc.ne (by decide))]
  rfl

theorem HasPartText.head (h : HasPartText k cs) : ∃ c t, cs = c :: t ∧ IsKeyHead c := by
  cases h with
  | bare hne h =>
    obtain ⟨c, t, hk⟩ := List.exists_cons_of_ne_nil hne
    exact ⟨c, t, hk, .inl (h c (hk ▸ List.mem_cons_self))⟩
  | basic _ => exact ⟨'"', _, rfl, .inr (.inl rfl)⟩
  | literal _ => exact ⟨'\'', _, rfl, .inr (.inr rfl)⟩

theorem HasPartText.read (h : HasPartText k cs) (hr : ∀ c ∈ r.head?, isBareKeyChar c = false) :
    keyPart? (cs ++ r) = some (k, r) := by
  cases h with
  | bare hne h =>
    have hrest : r.takeWhile isBareKeyChar = [] ∧ r.dropWhile isBareKeyChar = r := by
      cases r with
      | nil => exact ⟨rfl, rfl⟩
      | cons c r => simp [hr c rfl]
    obtain ⟨c, t, hk⟩ := List.exists_cons_of_ne_nil hne
    have hc : isBareKeyChar c = true := h c (hk ▸ List.mem_cons_self)
    unfold keyPart?
    split
    · rename_i heq
      rw [hk] at heq
      cases heq
      cases hc
    · rename_i heq
      rw [hk] at heq
      cases heq
      cases hc
    · rw [List.takeWhile_append_of_pos h, List.dropWhile_append_of_pos h, hrest.1, hrest.2,
        List.append_nil]
      split
      · rename_i heq
        exact absurd heq hne
      · rw [String.ofList_toList]
  | basic h =>
    rw [List.cons_append, List.append_assoc, keyPart?, List.singleton_append, h.read]
    simp
  | literal h =>
    rw [List.cons_append, List.append_assoc, keyPart?, List.singleton_append, literal?_append h]
    simp

theorem HasKeyText.head (h : HasKeyText ks cs) : ∃ c t, cs = c :: t ∧ IsKeyHead c := by
  cases h with
  | last h _ | cons h _ _ _ =>
    obtain ⟨c, t, rfl, hc⟩ := h.head
    exact ⟨c, _, rfl, hc⟩

theorem HasKeyText.skip (h : HasKeyText ks cs) {before : List Char} (hbefore : Spaces before)
    (r : List Char) : skipSpaces (before ++ (cs ++ r)) = cs ++ r := by
  obtain ⟨c, t, rfl, hc⟩ := h.head
  exact hbefore.skip_cons hc.isSpace _

theorem isBareKeyChar_behind {after : List Char} (hafter : Spaces after)
    (hr : ∀ c ∈ r.head?, isBareKeyChar c = false) :
    ∀ c ∈ (after ++ r).head?, isBareKeyChar c = false := by
  cases after with
  | nil => exact hr
  | cons c after =>
    rintro _ ⟨⟩
    obtain rfl | rfl := isSpace_iff.mp (hafter c List.mem_cons_self) <;> rfl

theorem HasKeyText.read (h : HasKeyText ks cs) {n : ℕ} (hn : ks.length ≤ n) {before : List Char}
    (hbefore : Spaces before) (hc : c = '=' ∨ c = ']') (r : List Char) :
    keyParts? n (before ++ (cs ++ c :: r)) = some (ks, c :: r) := by
  have hend : isBareKeyChar c = false ∧ isSpace c = false ∧ c ≠ '.' := by
    obtain rfl | rfl := hc <;> decide
  induction h generalizing n before with
  | @last k cs after h hafter =>
    obtain ⟨n, rfl⟩ := Nat.exists_eq_add_one.mpr (Nat.lt_of_lt_of_le Nat.zero_lt_one hn)
    have hskip : skipSpaces (after ++ c :: r) = c :: r := hafter.skip_cons hend.2.1 r
    have hpart : keyPart? (cs ++ (after ++ c :: r)) = some (k, after ++ c :: r) :=
      h.read (isBareKeyChar_behind hafter (by rintro _ ⟨⟩; exact hend.1))
    rw [keyParts?, (HasKeyText.last h hafter).skip hbefore, List.append_assoc, hpart]
    simp only [Option.bind_eq_bind, Option.bind_some, hskip]
    split
    · rename_i heq
      exact absurd (List.cons.inj heq).1 hend.2.2
    · rfl
  | @cons k ks cs after before' rest h hafter hbefore' hrest ih =>
    obtain ⟨n, rfl⟩ := Nat.exists_eq_add_one.mpr (Nat.lt_of_lt_of_le (Nat.succ_pos _) hn)
    have hskip : skipSpaces (after ++ '.' :: (before' ++ (rest ++ c :: r))) =
        '.' :: (before' ++ (rest ++ c :: r)) := hafter.skip_cons rfl _
    have hpart : keyPart? (cs ++ (after ++ '.' :: (before' ++ (rest ++ c :: r)))) =
        some (k, after ++ '.' :: (before' ++ (rest ++ c :: r))) :=
      h.read (isBareKeyChar_behind hafter (by rintro _ ⟨⟩; rfl))
    rw [keyParts?, (HasKeyText.cons h hafter hbefore' hrest).skip hbefore]
    simp only [List.append_assoc, List.cons_append, hpart, Option.bind_eq_bind, Option.bind_some,
      hskip, ih (Nat.le_of_succ_le_succ hn) hbefore']

theorem HasKeyText.key? {path : List String} (h : HasKeyText (path ++ [k]) cs)
    (hlength : path.length < depthLimit) {before : List Char} (hbefore : Spaces before)
    (hc : c = '=' ∨ c = ']') (r : List Char) :
    key? (before ++ (cs ++ c :: r)) = some (path, k, c :: r) := by
  have hn : (path ++ [k]).length ≤ depthLimit := by
    rw [List.length_append]
    exact hlength
  rw [Toml.key?, h.read hn hbefore hc]
  simp

end Keys

section Readers

variable {P : Value → List Char → Prop} {value? : List Char → Option (Value × List Char)}
  {v : Value} {s : Statement} {ss : List Statement} {cs r : List Char}

/-- A reader reads the texts of values wherever these end, and knows them by how they start. -/
structure Reads (value? : List Char → Option (Value × List Char))
    (P : Value → List Char → Prop) : Prop where
  read : ∀ {v cs r}, P v cs → Ends r → value? (cs ++ r) = some (v, r)
  head : ∀ {v cs}, P v cs → ∃ c t, cs = c :: t ∧ c ∉ delimiters

theorem ne_of_not_mem_delimiters {c : Char} (hc : c ∉ delimiters) :
    isSpace c = false ∧ c ≠ '\n' ∧ c ≠ '\r' ∧ c ≠ '#' ∧ c ≠ ']' ∧ c ≠ '}' := by
  simp only [delimiters, List.mem_cons, List.not_mem_nil, or_false, not_or] at hc
  obtain ⟨hspace, htab, hbreak, hreturn, hcomment, -, hbracket, hbrace⟩ := hc
  simp [isSpace, hspace, htab, hbreak, hreturn, hcomment, hbracket, hbrace]

theorem skipVoid_of_head {c : Char} (hc : c ∉ delimiters) (t : List Char) :
    skipVoid false (c :: t) = c :: t := by
  obtain ⟨hspace, hbreak, hreturn, hcomment, -⟩ := ne_of_not_mem_delimiters hc
  rw [skipVoid]
  · simp [hspace, hcomment]
  all_goals simp [hbreak, hreturn]

/-- What follows an item decides whether there is another one. -/
theorem Reads.items?_value (hP : Reads value? P) (h : P v cs) {before : List Char}
    (hbefore : Void before) (hr : Ends r) (n : ℕ) :
    items? value? (n + 1) (before ++ (cs ++ r)) = match skipVoid false r with
      | ',' :: r => do
        let (vs, rest) ← Toml.items? value? n r
        some (v :: vs, rest)
      | ']' :: rest => some ([v], rest)
      | _ => none := by
  have hread := hP.read h hr
  obtain ⟨c, t, rfl, hc⟩ := hP.head h
  rw [List.cons_append] at hread ⊢
  rw [Toml.items?, hbefore.skip, skipVoid_of_head hc]
  split
  · rename_i heq
    exact absurd (List.cons.inj heq).1 (ne_of_not_mem_delimiters hc).2.2.2.2.1
  · rw [hread]
    rfl

theorem Reads.items? (hP : Reads value? P) {vs : List Value} (h : HasItemsText P vs cs) {n : ℕ}
    (hn : cs.length < n) (r : List Char) :
    items? value? n (cs ++ ']' :: r) = some (vs, r) := by
  induction h generalizing n with
  | nil h =>
    obtain ⟨n, rfl⟩ := Nat.exists_eq_add_one.mpr (Nat.zero_lt_of_lt hn)
    rw [Toml.items?, h.skip]
    rfl
  | @last v before cs after hbefore h hafter =>
    obtain ⟨n, rfl⟩ := Nat.exists_eq_add_one.mpr (Nat.zero_lt_of_lt hn)
    rw [List.append_assoc, List.append_assoc,
      hP.items?_value h hbefore (hafter.ends (ends_cons (by decide) r)), hafter.skip]
    rfl
  | @cons v vs before cs after rest hbefore h hafter hrest ih =>
    obtain ⟨n, rfl⟩ := Nat.exists_eq_add_one.mpr (Nat.zero_lt_of_lt hn)
    simp only [List.length_append, List.length_cons] at hn
    have hvs := ih (show rest.length < n by omega)
    rw [List.append_assoc, List.append_assoc, List.append_assoc, List.cons_append,
      hP.items?_value h hbefore (hafter.ends (ends_cons (by decide) _)), hafter.skip]
    change (Toml.items? value? n (rest ++ ']' :: r)).bind _ = _
    rw [hvs]
    rfl

theorem Reads.skip (hP : Reads value? P) (h : P v cs) {before : List Char} (hbefore : Spaces before)
    (r : List Char) : skipSpaces (before ++ (cs ++ r)) = cs ++ r := by
  obtain ⟨c, t, rfl, hc⟩ := hP.head h
  exact hbefore.skip_cons (ne_of_not_mem_delimiters hc).1 _

theorem Reads.assignment? (hP : Reads value? P) (h : HasAssignmentText P s cs) (hr : Ends r)
    {before : List Char} (hbefore : Spaces before) :
    assignment? value? (before ++ (cs ++ r)) = some (s, r) := by
  obtain ⟨hkey, hlength, hgap, h⟩ := h
  rw [List.append_assoc, List.cons_append, List.append_assoc, Toml.assignment?,
    hkey.key? hlength hbefore (.inl rfl)]
  simp only [Option.bind_eq_bind, Option.bind_some, expect?, if_true, hP.skip h hgap,
    hP.read h hr]

theorem HasAssignmentText.head (h : HasAssignmentText P s cs) :
    ∃ c t, cs = c :: t ∧ IsKeyHead c := by
  obtain ⟨hkey, -, -, -⟩ := h
  obtain ⟨c, t, rfl, hc⟩ := hkey.head
  exact ⟨c, _, rfl, hc⟩

theorem HasEntriesText.head (h : HasEntriesText P ss cs) : ∃ c t, cs = c :: t ∧ IsKeyHead c := by
  cases h with
  | last h _ | cons h _ _ _ =>
    obtain ⟨c, t, rfl, hc⟩ := h.head
    exact ⟨c, _, rfl, hc⟩

theorem Reads.entries? (hP : Reads value? P) (h : HasEntriesText P ss cs) {n : ℕ}
    (hn : cs.length < n) {before : List Char} (hbefore : Spaces before) (r : List Char) :
    entries? value? n (before ++ (cs ++ '}' :: r)) = some (ss, r) := by
  induction h generalizing n before with
  | @last s cs after h hafter =>
    obtain ⟨n, rfl⟩ := Nat.exists_eq_add_one.mpr (Nat.zero_lt_of_lt hn)
    rw [List.append_assoc, Toml.entries?,
      hP.assignment? h (hafter.ends (ends_cons (by decide) r)) hbefore]
    simp only [Option.bind_eq_bind, Option.bind_some, hafter.skip_cons (c := '}') rfl]
  | @cons s ss cs after before' rest h hafter hbefore' hrest ih =>
    obtain ⟨n, rfl⟩ := Nat.exists_eq_add_one.mpr (Nat.zero_lt_of_lt hn)
    simp only [List.length_append, List.length_cons] at hn
    rw [List.append_assoc, List.append_assoc, List.cons_append, List.append_assoc, Toml.entries?,
      hP.assignment? h (hafter.ends (ends_cons (by decide) _)) hbefore]
    simp only [Option.bind_eq_bind, Option.bind_some, hafter.skip_cons (c := ',') rfl,
      ih (show rest.length < n by omega) hbefore']

theorem Reads.inlineTable? (hP : Reads value? P) (h : HasEntriesText P ss cs)
    (hv : assemble ss = some v) {before : List Char} (hbefore : Spaces before) (r : List Char) :
    inlineTable? value? (before ++ (cs ++ '}' :: r)) = some (v, r) := by
  have hread := hP.entries? h (n := (cs ++ '}' :: r).length) (by simp) (List.forall_mem_nil _) r
  obtain ⟨c, t, rfl, hc⟩ := h.head
  have hskip : skipSpaces (before ++ (c :: t ++ '}' :: r)) = c :: t ++ '}' :: r :=
    hbefore.skip_cons hc.isSpace _
  rw [Toml.inlineTable?, hskip]
  split
  · rename_i heq
    exact absurd (List.cons.inj heq).1 (hc.ne (by decide))
  · rw [List.nil_append] at hread
    simp only [hread, Option.bind_eq_bind, Option.bind_some, hv]

end Readers

section Values

variable {v : Value} {cs r : List Char}

theorem value?_scalar (depth : ℕ) (h : HasScalarText v cs) (hr : Ends r) :
    value? depth (cs ++ r) = some (v, r) := by
  have hread := h.read hr
  obtain ⟨c, t, rfl, hbracket, hbrace, -⟩ := h.head
  rw [List.cons_append] at hread ⊢
  rw [Toml.value?]
  · exact hread
  · intro _ s _ heq
    exact hbracket (List.cons.inj heq).1
  · intro _ s _ heq
    exact hbrace (List.cons.inj heq).1

theorem reads_value? (depth : ℕ) : Reads (value? depth) (HasValueText depth) := by
  induction depth with
  | zero =>
    refine ⟨fun h hr ↦ value?_scalar 0 h hr, fun h ↦ ?_⟩
    obtain ⟨c, t, rfl, -, -, hc⟩ := HasScalarText.head h
    exact ⟨c, t, rfl, hc⟩
  | succ depth ih =>
    constructor
    · rintro v cs r (h | h) hr
      · exact value?_scalar _ h hr
      cases h with
      | array h =>
        rw [List.cons_append, List.append_assoc, List.singleton_append, value?, ih.items? h]
        · rfl
        · rw [List.length_append, List.length_cons]
          omega
      | empty h =>
        rw [List.cons_append, List.append_assoc, List.singleton_append, value?, inlineTable?,
          h.skip_cons rfl]
        rfl
      | table hbefore h hv =>
        rw [List.cons_append, List.append_assoc, List.append_assoc, List.singleton_append, value?,
          ih.inlineTable? h hv hbefore]
    · rintro v cs (h | h)
      · obtain ⟨c, t, rfl, -, -, hc⟩ := HasScalarText.head h
        exact ⟨c, t, rfl, hc⟩
      · cases h with
        | array _ => exact ⟨'[', _, rfl, by decide⟩
        | empty _ | table _ _ _ => exact ⟨'{', _, rfl, by decide⟩

end Values

section Statements

variable {s : Statement} {ss : List Statement} {cs r : List Char}

theorem HasStatementText.read (h : HasStatementText s cs) (hr : Ends r) :
    statement? (cs ++ r) = some (s, r) := by
  cases h with
  | assign h =>
    have hread := (reads_value? depthLimit).assignment? h hr (List.forall_mem_nil _)
    obtain ⟨c, t, rfl, hc⟩ := h.head
    rw [List.cons_append]
    rw [statement?]
    · exact hread
    all_goals
      intro _ heq
      exact hc.ne (by decide) (List.cons.inj heq).1
  | @table path key before cs hbefore h hlength =>
    have hkey := h.key? hlength hbefore (.inr rfl) r
    have hskip := h.skip hbefore (']' :: r)
    rw [List.cons_append, List.append_assoc, List.append_assoc, List.singleton_append, statement?,
      hkey]
    · rfl
    · intro t heq
      rw [heq] at hskip
      obtain ⟨c, u, rfl, hc⟩ := h.head
      exact hc.ne (by decide) (List.cons.inj hskip).1.symm
  | @item path key before cs hbefore h hlength =>
    have hkey := h.key? hlength hbefore (.inr rfl) (']' :: r)
    rw [List.cons_append, List.cons_append, List.append_assoc, List.append_assoc, List.cons_append,
      List.singleton_append, statement?, hkey]
    rfl

theorem HasStatementText.head (h : HasStatementText s cs) :
    ∃ c t, cs = c :: t ∧ isSpace c = false ∧ c ≠ '#' ∧ c ≠ '\n' ∧ c ≠ '\r' ∧ c ≠ '\ufeff' := by
  cases h with
  | assign h =>
    obtain ⟨c, t, rfl, hc⟩ := h.head
    exact ⟨c, t, rfl, hc.isSpace, hc.ne (by decide), hc.ne (by decide), hc.ne (by decide),
      hc.ne (by decide)⟩
  | table _ _ _ | item _ _ _ => exact ⟨'[', _, rfl, by decide⟩

def EndsLine (r : List Char) : Prop :=
  ∀ c ∈ r.head?, c = '\n' ∨ c = '\r'

theorem EndsLine.ends (h : EndsLine r) : Ends r := by
  cases r with
  | nil => nofun
  | cons c r =>
    obtain rfl | rfl := h c rfl <;> exact ends_cons (by decide) r

/-- What is read behind the end of a line. -/
def Continues (n : ℕ) (ss : List Statement) (r : List Char) : Prop :=
  ∃ rest, (if r = [] then some [] else lineBreak? r) = some rest ∧ statements? n rest = some ss

theorem endLine?_skipSpaces (s : List Char) : endLine? (skipSpaces s) = endLine? s := by
  have hskip : skipSpaces (skipSpaces s) = skipSpaces s := List.dropWhile_idempotent isSpace s
  rw [endLine?, endLine?, hskip]

theorem statements?_of_skipSpaces {c : Char} {t : List Char} (h : skipSpaces cs = c :: t)
    (hcomment : c ≠ '#') (hbreak : c ≠ '\n') (hreturn : c ≠ '\r') (n : ℕ) :
    statements? (n + 1) cs = do
      let (s, rest) ← statement? (c :: t)
      return s :: (← statements? n (← endLine? rest)) := by
  have hline : endLine? (c :: t) = none := by
    rw [← h, endLine?_skipSpaces, endLine?, h]
    simp [hcomment, lineBreak?, hbreak, hreturn]
  rw [statements?, h]
  simp only [hline]

theorem HasLineText.read (h : HasLineText ss cs) {ss' : List Statement} {n : ℕ} (hr : EndsLine r)
    (hcontinues : Continues n ss' r) : statements? (n + 1) (cs ++ r) = some (ss ++ ss') := by
  obtain ⟨rest, hrest, hread'⟩ := hcontinues
  cases h with
  | blank h =>
    have hend := h.endLine? hr
    rw [hrest] at hend
    rw [List.nil_append, statements?]
    cases hskip : skipSpaces (cs ++ r) with
    | nil =>
      rw [← endLine?_skipSpaces, hskip] at hend
      cases hend
      cases n with
      | zero => cases hread'
      | succ n => exact hread'
    | cons c t =>
      rw [← endLine?_skipSpaces, hskip] at hend
      simp only [hend, hread']
  | @statement s before cs after hbefore h hafter =>
    have hend := hafter.endLine? hr
    rw [hrest] at hend
    have hread := h.read (hafter.ends hr.ends)
    obtain ⟨c, t, rfl, hspace, hcomment, hbreak, hreturn, -⟩ := h.head
    have hskip : skipSpaces (before ++ (c :: t ++ (after ++ r))) = c :: (t ++ (after ++ r)) :=
      hbefore.skip_cons hspace _
    rw [List.cons_append] at hread
    rw [List.append_assoc, List.append_assoc,
      statements?_of_skipSpaces hskip hcomment hbreak hreturn]
    simp only [hread, Option.bind_eq_bind, Option.bind_some, hend, hread']
    rfl

theorem HasLineText.eq_nil (h : HasLineText ss []) : ss = [] := by
  generalize hcs : [] = cs at h
  cases h with
  | blank _ => rfl
  | statement _ h _ =>
    obtain ⟨c, t, rfl, -⟩ := h.head
    simp at hcs

theorem HasLinesText.read (h : HasLinesText ss cs) {n : ℕ} (hn : cs.length < n) :
    statements? n cs = some ss := by
  induction h generalizing n with
  | @last ss cs h =>
    match n, hn with
    | 1, hn =>
      obtain rfl : cs = [] := List.eq_nil_of_length_eq_zero (by omega)
      rw [h.eq_nil]
      rfl
    | n + 2, _ =>
      have hread := h.read (r := []) (n := n + 1) nofun ⟨[], if_pos rfl, rfl⟩
      rwa [List.append_nil, List.append_nil] at hread
  | @cons ss ss' cs b rest h hb hrest ih =>
    obtain ⟨n, rfl⟩ := Nat.exists_eq_add_one.mpr (Nat.zero_lt_of_lt hn)
    have hbreak : b ++ rest ≠ [] ∧ EndsLine (b ++ rest) ∧ lineBreak? (b ++ rest) = some rest := by
      obtain rfl | rfl := eq_of_mem_lineBreaks hb
      · exact ⟨nofun, by rintro _ ⟨⟩; exact .inl rfl, rfl⟩
      · exact ⟨nofun, by rintro _ ⟨⟩; exact .inr rfl, rfl⟩
    obtain ⟨hne, hends, hline⟩ := hbreak
    have hlength : rest.length < n := by
      have hpos : 0 < b.length := by
        obtain rfl | rfl := eq_of_mem_lineBreaks hb <;> decide
      simp only [List.length_append] at hn
      omega
    exact h.read hends ⟨rest, (if_neg hne).trans hline, ih hlength⟩

theorem Spaces.head (h : Spaces cs) (hr : ∀ c ∈ r.head?, c ≠ '\ufeff') :
    ∀ c ∈ (cs ++ r).head?, c ≠ '\ufeff' := by
  cases cs with
  | nil => exact hr
  | cons c cs =>
    rintro _ ⟨⟩
    obtain rfl | rfl := isSpace_iff.mp (h c List.mem_cons_self) <;> decide

theorem HasLineText.head (h : HasLineText ss cs) (hr : ∀ c ∈ r.head?, c ≠ '\ufeff') :
    ∀ c ∈ (cs ++ r).head?, c ≠ '\ufeff' := by
  cases h with
  | blank h =>
    cases h with
    | spaces h => exact h.head hr
    | comment hbefore _ =>
      rw [List.append_assoc]
      refine hbefore.head ?_
      rintro _ ⟨⟩
      decide
  | statement hbefore h _ =>
    obtain ⟨c, t, rfl, -, -, -, -, hc⟩ := h.head
    rw [List.append_assoc]
    refine hbefore.head ?_
    rintro _ ⟨⟩
    exact hc

theorem HasLinesText.head (h : HasLinesText ss cs) : ∀ c ∈ cs.head?, c ≠ '\ufeff' := by
  cases h with
  | last h =>
    have hhead := h.head (r := []) nofun
    rwa [List.append_nil] at hhead
  | cons h hb _ =>
    refine h.head ?_
    obtain rfl | rfl := eq_of_mem_lineBreaks hb
    all_goals
      rintro _ ⟨⟩
      decide

/-- A text of a list of statements is read as the document that they make up. -/
theorem HasText.read (h : HasText ss cs) : Toml.read cs = assemble ss := by
  have hread : ∀ {cs}, HasLinesText ss cs → statements? (cs.length + 1) cs = some ss :=
    fun h ↦ HasLinesText.read h (Nat.lt_add_one _)
  cases h with
  | plain h =>
    have hhead := h.head
    unfold Toml.read
    split
    · exact absurd rfl (hhead _ rfl)
    · simp only [hread h, Option.bind_eq_bind, Option.bind_some]
  | marked h =>
    simp only [Toml.read, hread h, Option.bind_eq_bind, Option.bind_some]

end Statements

end InputRelay.Toml
