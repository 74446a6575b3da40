import InputRelay.Proofs.Text.Digits
import InputRelay.Toml.Text
import InputRelay.Toml.Writer
import Mathlib.Data.List.Basic

namespace InputRelay.Toml

open Text

def letterEscapes : List (Char × Char) :=
  [('b', '\x08'), ('t', '\t'), ('n', '\n'), ('f', '\x0c'), ('r', '\r'), ('"', '"'), ('\\', '\\')]

inductive SpellsChar (c : Char) : List Char → Prop
  | plain (hc : isPrintable c = true ∧ c ≠ '"' ∧ c ≠ '\\') : SpellsChar c [c]
  | letter {e : Char} (h : (e, c) ∈ letterEscapes) : SpellsChar c ['\\', e]
  | short {ds : List Char} (h : SpellsHex 4 c.toNat ds) : SpellsChar c ('\\' :: 'u' :: ds)
  | long {ds : List Char} (h : SpellsHex 8 c.toNat ds) : SpellsChar c ('\\' :: 'U' :: ds)

inductive SpellsLine : List Char → List Char → Prop
  | nil : SpellsLine [] []
  | cons {c : Char} {s cs ss : List Char} (hc : SpellsChar c cs) (hs : SpellsLine s ss) :
      SpellsLine (c :: s) (cs ++ ss)

def Spaces (cs : List Char) : Prop :=
  ∀ c ∈ cs, isSpace c = true

def lineBreaks : List (List Char) := [['\n'], ['\r', '\n']]

inductive Blank : List Char → Prop
  | nil : Blank []
  | space {c : Char} {s : List Char} (hc : isSpace c = true) (hs : Blank s) : Blank (c :: s)
  | lineBreak {b s : List Char} (hb : b ∈ lineBreaks) (hs : Blank s) : Blank (b ++ s)

def Unblank (s : List Char) : Prop :=
  ∀ c ∈ s.head?, isSpace c = false ∧ c ≠ '\n' ∧ c ≠ '\r'

/-- The texts of a string of several lines, between its three quotes. Up to two quotes in a row
stand for themselves. A backslash folds the line that it ends and the blanks that follow. -/
inductive SpellsLines : List Char → List Char → Prop
  | last {k : ℕ} (hk : k ≤ 2) : SpellsLines (.replicate k '"') (.replicate k '"')
  | quotes {k : ℕ} {c : Char} {s ss : List Char} (hk : k ≤ 2) (hc : c ≠ '"')
      (hs : SpellsLines s (c :: ss)) :
      SpellsLines (.replicate k '"' ++ s) (.replicate k '"' ++ c :: ss)
  | char {c : Char} {s cs ss : List Char} (hc : SpellsChar c cs) (hs : SpellsLines s ss) :
      SpellsLines (c :: s) (cs ++ ss)
  | lineBreak {b s ss : List Char} (hb : b ∈ lineBreaks) (hs : SpellsLines s ss) :
      SpellsLines ('\n' :: s) (b ++ ss)
  | fold {spaces b blanks s ss : List Char} (hspaces : Spaces spaces)
      (hb : b ∈ lineBreaks) (hblanks : Blank blanks) (hss : Unblank ss) (hs : SpellsLines s ss) :
      SpellsLines s ('\\' :: (spaces ++ (b ++ (blanks ++ ss))))

inductive SpellsLiteralLines : List Char → List Char → Prop
  | last {k : ℕ} (hk : k ≤ 2) : SpellsLiteralLines (.replicate k '\'') (.replicate k '\'')
  | quotes {k : ℕ} {c : Char} {s ss : List Char} (hk : k ≤ 2) (hc : c ≠ '\'')
      (hs : SpellsLiteralLines s (c :: ss)) :
      SpellsLiteralLines (.replicate k '\'' ++ s) (.replicate k '\'' ++ c :: ss)
  | char {c : Char} {s ss : List Char} (hc : isPrintable c = true ∧ c ≠ '\'')
      (hs : SpellsLiteralLines s ss) : SpellsLiteralLines (c :: s) (c :: ss)
  | lineBreak {b s ss : List Char} (hb : b ∈ lineBreaks) (hs : SpellsLiteralLines s ss) :
      SpellsLiteralLines ('\n' :: s) (b ++ ss)

/-- The line break that may stand behind three opening quotes. Without it the text does not start
with one. -/
def Leads (lead s : List Char) : Prop :=
  lead ∈ lineBreaks ∨ lead = [] ∧ ∀ b ∈ lineBreaks, ¬b <+: s

inductive HasStringText (text : String) : List Char → Prop
  | basic {cs : List Char} (h : SpellsLine text.toList cs) :
      HasStringText text ('"' :: (cs ++ ['"']))
  | basicLines {lead cs : List Char} (hlead : Leads lead cs) (h : SpellsLines text.toList cs) :
      HasStringText text ('"' :: '"' :: '"' :: (lead ++ (cs ++ ['"', '"', '"'])))
  | literal (h : ∀ c ∈ text.toList, isPrintable c = true ∧ c ≠ '\'') :
      HasStringText text ('\'' :: (text.toList ++ ['\'']))
  | literalLines {lead cs : List Char} (hlead : Leads lead cs)
      (h : SpellsLiteralLines text.toList cs) :
      HasStringText text ('\'' :: '\'' :: '\'' :: (lead ++ (cs ++ ['\'', '\'', '\''])))

theorem isPrintable_iff {c : Char} : isPrintable c = true ↔ isControl c = false ∧ c ≠ '\n' := by
  have heq (d : Char) : c = d ↔ c.toNat = d.toNat := Char.toNat_inj.symm
  have hlt (d : Char) : c < d ↔ c.toNat < d.toNat := Iff.rfl
  have hle (d : Char) : c ≤ d ↔ c.toNat ≤ d.toNat := Iff.rfl
  have hge (d : Char) : d ≤ c ↔ d.toNat ≤ c.toNat := Iff.rfl
  simp only [isPrintable, isControl, Bool.or_eq_true, Bool.and_eq_true, decide_eq_true_eq,
    beq_iff_eq, Bool.or_eq_false_iff, Bool.and_eq_false_iff, decide_eq_false_iff_not,
    bne_eq_false_iff_eq, beq_eq_false_iff_ne, ne_eq, heq, hlt, hle, hge, Char.reduceToNat]
  omega

theorem ne_break_of_isPrintable {c : Char} (hc : isPrintable c = true) : c ≠ '\n' ∧ c ≠ '\r' := by
  constructor
  all_goals
    rintro rfl
    exact absurd hc (by decide)

theorem prepend_some (c : Char) (s r : List Char) : prepend c (some (s, r)) = some (c :: s, r) :=
  rfl

section Reading

variable {c : Char} {s cs r : List Char}

attribute [local simp] basic? basicLines? literalLines?

theorem escaped?_letter {e : Char} (h : (e, c) ∈ letterEscapes) :
    escaped? e = some c ∧ e ≠ 'u' ∧ e ≠ 'U' ∧ isSpace e = false ∧ e ≠ '\n' ∧ e ≠ '\r' := by
  have hall : ∀ p ∈ letterEscapes, escaped? p.1 = some p.2 ∧ p.1 ≠ 'u' ∧ p.1 ≠ 'U' ∧
      isSpace p.1 = false ∧ p.1 ≠ '\n' ∧ p.1 ≠ '\r' := by
    decide
  exact hall _ h

theorem scalar?_spelled {width : ℕ} {ds : List Char} (h : SpellsHex width c.toNat ds) :
    scalar? ds = some c := by
  obtain ⟨hdigits, hvalue⟩ := h.digits
  rw [scalar?, if_pos (List.all_eq_true.mpr hdigits), hvalue]
  exact (if_pos c.valid).trans (by rw [Char.ofNat_toNat])

theorem exists_eq_of_length_eight {ds : List Char} (h : ds.length = 8) :
    ∃ x₁ x₂ x₃ x₄ x₅ x₆ x₇ x₈, ds = [x₁, x₂, x₃, x₄, x₅, x₆, x₇, x₈] := by
  match ds, h with
  | [x₁, x₂, x₃, x₄, x₅, x₆, x₇, x₈], _ => exact ⟨x₁, x₂, x₃, x₄, x₅, x₆, x₇, x₈, rfl⟩

theorem basic?_spelled (h : SpellsChar c cs) (r : List Char) :
    basic? (cs ++ r) = prepend c (basic? r) := by
  cases h with
  | plain hc => simp [hc]
  | letter h =>
    obtain ⟨hc, hu, hU, -⟩ := escaped?_letter h
    simp [hc, hu, hU]
  | short h =>
    have hscalar := scalar?_spelled h
    obtain ⟨x₁, x₂, x₃, x₄, rfl⟩ := List.length_eq_four.mp (h.length (by omega))
    simp [hscalar]
  | long h =>
    have hscalar := scalar?_spelled h
    obtain ⟨x₁, x₂, x₃, x₄, x₅, x₆, x₇, x₈, rfl⟩ :=
      exists_eq_of_length_eight (h.length (by omega))
    simp [hscalar]

theorem SpellsLine.read (h : SpellsLine s cs) (r : List Char) :
    basic? (cs ++ '"' :: r) = some (s, r) := by
  induction h with
  | nil => rfl
  | cons hc _ ih => rw [List.append_assoc, basic?_spelled hc, ih, prepend_some]

theorem SpellsChar.head (h : SpellsChar c cs) : ∃ d t, cs = d :: t ∧ d ≠ '"' := by
  cases h with
  | plain hc => exact ⟨c, [], rfl, hc.2.1⟩
  | letter h | short h | long h => exact ⟨'\\', _, rfl, by decide⟩

theorem basicLines?_plain (hc : isPrintable c = true ∧ c ≠ '"' ∧ c ≠ '\\') (r : List Char) :
    basicLines? false (c :: r) = prepend c (basicLines? false r) := by
  obtain ⟨hc, hquote, hslash⟩ := hc
  have hbreak := ne_break_of_isPrintable hc
  rw [basicLines?, Bool.false_and, if_neg Bool.false_ne_true, hc, bne_iff_ne.mpr hslash,
    Bool.and_true, if_pos rfl]
  all_goals grind

theorem basicLines?_spelled (h : SpellsChar c cs) (r : List Char) :
    basicLines? false (cs ++ r) = prepend c (basicLines? false r) := by
  cases h with
  | plain hc => exact basicLines?_plain hc r
  | letter h =>
    obtain ⟨hc, hu, hU, hspace, hbreak, hreturn⟩ := escaped?_letter h
    simp [hc, hu, hU, skipSpaces, hspace, lineBreak?, hbreak, hreturn]
  | short h =>
    have hscalar := scalar?_spelled h
    obtain ⟨x₁, x₂, x₃, x₄, rfl⟩ := List.length_eq_four.mp (h.length (by omega))
    simp [hscalar]
  | long h =>
    have hscalar := scalar?_spelled h
    obtain ⟨x₁, x₂, x₃, x₄, x₅, x₆, x₇, x₈, rfl⟩ :=
      exists_eq_of_length_eight (h.length (by omega))
    simp [hscalar]

theorem basicLines?_lineBreak (skipping : Bool) {b : List Char} (hb : b ∈ lineBreaks)
    (r : List Char) : basicLines? skipping (b ++ r) =
      if skipping then basicLines? true r else prepend '\n' (basicLines? false r) := by
  simp only [lineBreaks, List.mem_cons, List.not_mem_nil, or_false] at hb
  obtain rfl | rfl := hb <;> rfl

theorem Blank.skip (h : Blank s) (r : List Char) :
    basicLines? true (s ++ r) = basicLines? true r := by
  induction h with
  | nil => rfl
  | @space c s hc _ ih =>
    have hcases : c = ' ' ∨ c = '\t' := by simpa [isSpace] using hc
    rw [List.cons_append, ← ih]
    obtain rfl | rfl := hcases <;> simp [isSpace]
  | lineBreak hb _ ih => rw [List.append_assoc, basicLines?_lineBreak true hb, if_pos rfl, ih]

theorem Unblank.resume (h : Unblank s) : basicLines? true s = basicLines? false s := by
  cases s with
  | nil => rfl
  | cons c s =>
    obtain ⟨hspace, hbreak, hreturn⟩ := h c rfl
    rw [basicLines?.eq_def, basicLines?.eq_def false]
    split <;> simp_all

theorem blank_spaces {spaces : List Char} (h : Spaces spaces) (hs : Blank s) :
    Blank (spaces ++ s) := by
  induction spaces with
  | nil => exact hs
  | cons c spaces ih =>
    obtain ⟨hc, hspaces⟩ := List.forall_mem_cons.mp h
    exact .space hc (ih hspaces)

theorem eq_of_mem_lineBreaks {b : List Char} (hb : b ∈ lineBreaks) :
    b = ['\n'] ∨ b = ['\r', '\n'] := by
  simpa [lineBreaks] using hb

theorem Blank.of_cons {c : Char} (h : Blank (c :: s)) :
    (isSpace c = true ∨ c = '\n' ∨ c = '\r') ∧ Blank s := by
  generalize hcs : c :: s = cs at h
  cases h with
  | nil => cases hcs
  | space hc hs =>
    cases hcs
    exact ⟨.inl hc, hs⟩
  | lineBreak hb hs =>
    obtain rfl | rfl := eq_of_mem_lineBreaks hb
    · cases hcs
      exact ⟨.inr (.inl rfl), hs⟩
    · cases hcs
      exact ⟨.inr (.inr rfl), .lineBreak (b := ['\n']) (by decide) hs⟩

theorem skipSpaces_append {spaces : List Char} (h : Spaces spaces)
    (hr : ∀ c ∈ r.head?, isSpace c = false) : skipSpaces (spaces ++ r) = r := by
  rw [skipSpaces, List.dropWhile_append_of_pos h]
  cases r with
  | nil => rfl
  | cons c r => exact List.dropWhile_cons_of_neg (by simp [hr c rfl])

theorem basicLines?_fold {spaces b blanks : List Char} (hspaces : Spaces spaces)
    (hb : b ∈ lineBreaks) (hblanks : Blank blanks) (hr : Unblank r) :
    basicLines? false ('\\' :: (spaces ++ (b ++ (blanks ++ r)))) = basicLines? false r := by
  have hbreak : (lineBreak? (skipSpaces (spaces ++ (b ++ (blanks ++ r))))).isSome = true := by
    rw [skipSpaces_append hspaces]
    all_goals obtain rfl | rfl := eq_of_mem_lineBreaks hb
    · rfl
    · rfl
    all_goals
      rintro _ ⟨⟩
      rfl
  have hblank : Blank (spaces ++ (b ++ blanks)) := blank_spaces hspaces (.lineBreak hb hblanks)
  have htext : spaces ++ (b ++ (blanks ++ r)) = spaces ++ (b ++ blanks) ++ r := by
    simp only [List.append_assoc]
  rw [htext] at hbreak ⊢
  cases hcs : spaces ++ (b ++ blanks) with
  | nil =>
    rw [hcs] at hblank
    have hnil := List.append_eq_nil_iff.mp (List.append_eq_nil_iff.mp hcs).2
    exact absurd hb (hnil.1 ▸ by decide)
  | cons c t =>
    rw [hcs] at hblank hbreak
    obtain ⟨hc, ht⟩ := hblank.of_cons
    have hu : c ≠ 'u' ∧ c ≠ 'U' := by
      constructor
      all_goals
        rintro rfl
        exact absurd hc (by decide)
    rw [List.cons_append] at hbreak ⊢
    rw [← hr.resume, ← ht.skip r]
    simp [hu, hbreak]

theorem basicLines?_quotes {w : List Char} {k : ℕ} (hk : k ≤ 2) (hw : w.head? ≠ some '"')
    (h : basicLines? false w = some (s, r)) :
    basicLines? false (List.replicate k '"' ++ w) = some (List.replicate k '"' ++ s, r) := by
  have hopen (t : List Char) : w ≠ '"' :: t := by
    rintro rfl
    exact hw rfl
  obtain rfl | rfl | rfl : k = 0 ∨ k = 1 ∨ k = 2 := by omega
  all_goals simp [hopen, h, isPrintable, prepend]

theorem basicLines?_close {k : ℕ} (hk : k ≤ 2) (hr : r.head? ≠ some '"') :
    basicLines? false (List.replicate k '"' ++ '"' :: '"' :: '"' :: r) =
      some (List.replicate k '"', r) := by
  have hopen (t : List Char) : r ≠ '"' :: t := by
    rintro rfl
    exact hr rfl
  obtain rfl | rfl | rfl : k = 0 ∨ k = 1 ∨ k = 2 := by omega
  all_goals simp [hopen]

/-- Whether a quote closes the text depends on what follows it, so the quotes are read in runs. -/
theorem SpellsLines.read (h : SpellsLines s cs) (hr : r.head? ≠ some '"') :
    basicLines? false (cs ++ '"' :: '"' :: '"' :: r) = some (s, r) := by
  induction h with
  | last hk => exact basicLines?_close hk hr
  | quotes hk hc _ ih =>
    rw [List.append_assoc]
    exact basicLines?_quotes hk (by simpa using hc) ih
  | char hc _ ih => rw [List.append_assoc, basicLines?_spelled hc, ih, prepend_some]
  | lineBreak hb _ ih => rw [List.append_assoc, basicLines?_lineBreak false hb, ih]; rfl
  | @fold spaces b blanks s ss hspaces hb hblanks hss _ ih =>
    have hunblank : Unblank (ss ++ '"' :: '"' :: '"' :: r) := by
      cases ss with
      | nil => rintro _ ⟨⟩; decide
      | cons c ss => exact hss
    have hfold := basicLines?_fold hspaces hb hblanks hunblank
    simp only [List.cons_append, List.append_assoc]
    rw [hfold, ih]

theorem literal?_append (hs : ∀ c ∈ s, isPrintable c = true ∧ c ≠ '\'') :
    literal? (s ++ '\'' :: r) = some (s, r) := by
  induction s with
  | nil => rfl
  | cons c s ih =>
    obtain ⟨⟨hc, hquote⟩, hs⟩ := List.forall_mem_cons.mp hs
    rw [List.cons_append, literal?, if_pos hc, ih hs, prepend_some]
    exact hquote

theorem literalLines?_plain (hc : isPrintable c = true ∧ c ≠ '\'') (r : List Char) :
    literalLines? (c :: r) = prepend c (literalLines? r) := by
  obtain ⟨hc, hquote⟩ := hc
  have hbreak := ne_break_of_isPrintable hc
  rw [literalLines?, if_pos hc]
  all_goals grind

theorem literalLines?_quotes {w : List Char} {k : ℕ} (hk : k ≤ 2) (hw : w.head? ≠ some '\'')
    (h : literalLines? w = some (s, r)) :
    literalLines? (List.replicate k '\'' ++ w) = some (List.replicate k '\'' ++ s, r) := by
  have hopen (t : List Char) : w ≠ '\'' :: t := by
    rintro rfl
    exact hw rfl
  obtain rfl | rfl | rfl : k = 0 ∨ k = 1 ∨ k = 2 := by omega
  all_goals simp [hopen, h, isPrintable, prepend]

theorem literalLines?_close {k : ℕ} (hk : k ≤ 2) (hr : r.head? ≠ some '\'') :
    literalLines? (List.replicate k '\'' ++ '\'' :: '\'' :: '\'' :: r) =
      some (List.replicate k '\'', r) := by
  have hopen (t : List Char) : r ≠ '\'' :: t := by
    rintro rfl
    exact hr rfl
  obtain rfl | rfl | rfl : k = 0 ∨ k = 1 ∨ k = 2 := by omega
  all_goals simp [hopen]

theorem SpellsLiteralLines.read (h : SpellsLiteralLines s cs) (hr : r.head? ≠ some '\'') :
    literalLines? (cs ++ '\'' :: '\'' :: '\'' :: r) = some (s, r) := by
  induction h with
  | last hk => exact literalLines?_close hk hr
  | quotes hk hc _ ih =>
    rw [List.append_assoc]
    exact literalLines?_quotes hk (by simpa using hc) ih
  | char hc _ ih => rw [List.cons_append, literalLines?_plain hc, ih, prepend_some]
  | lineBreak hb _ ih =>
    rw [List.append_assoc]
    obtain rfl | rfl := eq_of_mem_lineBreaks hb
    all_goals exact congrArg (prepend '\n') ih

theorem prefix_of_prefix_append {b : List Char} (h : b <+: cs ++ c :: r) (hc : c ∉ b) :
    b <+: cs := by
  rcases List.prefix_or_prefix_of_prefix h (List.prefix_append cs (c :: r)) with hb | ⟨t, rfl⟩
  · exact hb
  · cases t with
    | nil => exact (List.append_nil cs).symm ▸ List.prefix_refl cs
    | cons d t =>
      obtain ⟨u, hu⟩ := h
      rw [List.append_assoc, List.append_cancel_left_eq] at hu
      cases hu
      exact absurd (List.mem_append_right cs List.mem_cons_self) hc

theorem Leads.skipBreak {lead : List Char} (h : Leads lead cs) (hc : c ≠ '\n' ∧ c ≠ '\r')
    (r : List Char) : skipBreak (lead ++ (cs ++ c :: r)) = cs ++ c :: r := by
  rcases h with hb | ⟨rfl, hcs⟩
  · obtain rfl | rfl := eq_of_mem_lineBreaks hb <;> rfl
  · have hnot : ∀ b ∈ lineBreaks, ∀ t, cs ++ c :: r ≠ b ++ t := by
      intro b hb t ht
      refine hcs b hb (prefix_of_prefix_append (ht ▸ List.prefix_append b t) ?_)
      obtain rfl | rfl := eq_of_mem_lineBreaks hb <;> simp [hc]
    rw [List.nil_append, Toml.skipBreak]
    unfold lineBreak?
    split
    · rename_i heq
      exact absurd heq (hnot ['\n'] (by decide) _)
    · rename_i heq
      exact absurd heq (hnot ['\r', '\n'] (by decide) _)
    · rfl

/-- What may follow a string: anything but a quote of either kind. -/
def Unquoted (r : List Char) : Prop :=
  r.head? ≠ some '"' ∧ r.head? ≠ some '\''

theorem Unquoted.cons {c : Char} (h : c ≠ '"' ∧ c ≠ '\'') (r : List Char) : Unquoted (c :: r) :=
  ⟨by simpa using h.1, by simpa using h.2⟩

theorem HasStringText.read {text : String} (h : HasStringText text cs) (hr : Unquoted r) :
    string? (cs ++ r) = some (text, r) := by
  rw [← text.ofList_toList]
  cases h with
  | @basic cs h =>
    have hread := h.read r
    rw [List.cons_append, List.append_assoc, List.singleton_append, string?, hread]
    · rfl
    · generalize text.toList = s at h
      intro t ht
      cases h with
      | nil =>
        cases ht
        exact hr.1 rfl
      | cons hc =>
        obtain ⟨d, u, rfl, hd⟩ := hc.head
        exact hd (List.cons.inj ht).1
  | basicLines hlead h =>
    have hread := h.read hr.1
    have hskip := hlead.skipBreak (c := '"') (by decide) ('"' :: '"' :: r)
    simp only [List.cons_append, List.append_assoc, List.nil_append, string?, hskip, hread]
    rfl
  | literal h =>
    have hread : literal? (text.toList ++ '\'' :: r) = _ := literal?_append h
    rw [List.cons_append, List.append_assoc, List.singleton_append, string?, hread]
    · rfl
    · intro t ht
      cases hs : text.toList with
      | nil =>
        rw [hs] at ht
        cases ht
        exact hr.2 rfl
      | cons c s =>
        rw [hs] at ht h
        exact (h c List.mem_cons_self).2 (List.cons.inj ht).1
  | literalLines hlead h =>
    have hread := h.read hr.2
    have hskip := hlead.skipBreak (c := '\'') (by decide) ('\'' :: '\'' :: r)
    simp only [List.cons_append, List.append_assoc, List.nil_append, string?, hskip, hread]
    rfl

end Reading

section Writing

variable {c : Char} {s : List Char}

theorem spells_control (h : isControl c = true) :
    SpellsChar c ('\\' :: 'u' :: padLeft 4 '0' ((digitsOf 16 c.toNat).map Char.toUpper)) := by
  have hspelled : ∀ n < 128, (padLeft 4 '0' ((digitsOf 16 n).map Char.toUpper)).map Char.toLower =
      padLeft 4 '0' (digitsOf 16 n) := by
    decide
  have hascii : c.toNat < 128 := by
    simp only [isControl, Bool.or_eq_true, Bool.and_eq_true, decide_eq_true_eq, beq_iff_eq] at h
    obtain ⟨⟨h, -⟩, -⟩ | rfl := h
    · exact Nat.lt_trans h (by decide)
    · decide
  exact .short ⟨Nat.lt_trans hascii (by decide), hspelled c.toNat hascii⟩

/-- A line break stands for itself in a string of several lines; whatever else is no quote has a
text of its own. -/
theorem spells_escape? {lines : Bool} (hquote : c ≠ '"') (hbreak : c = '\n' → lines = false) :
    SpellsChar c ((escape? lines c).getD [c]) := by
  unfold escape?
  split
  case h_3 =>
    rw [hbreak rfl]
    exact .letter (by decide)
  case h_7 hnewline _ _ hslash =>
    split
    · exact spells_control ‹_›
    · rename_i hcontrol
      exact .plain ⟨isPrintable_iff.mpr ⟨Bool.not_eq_true _ ▸ hcontrol, hnewline⟩, hquote, hslash⟩
  all_goals exact .letter (by decide)

theorem escapeText_cons (hc : c ≠ '"') (lines : Bool) (free : ℕ) (s : List Char) :
    escapeText lines free (c :: s) =
      (escape? lines c).getD [c] ++ escapeText lines (if lines then 2 else 0) s := by
  simp [escapeText]

theorem spellsLine_escapeText (s : List Char) : SpellsLine s (escapeText false 0 s) := by
  induction s with
  | nil => exact .nil
  | cons c s ih =>
    by_cases hquote : c = '"'
    · subst hquote
      exact .cons (.letter (by decide)) ih
    · rw [escapeText_cons hquote]
      exact .cons (spells_escape? hquote fun _ ↦ rfl) ih

/-- The induction carries `k` quotes that were passed already: so many less may follow before one
is escaped. -/
theorem spellsLines_escapeText {k free : ℕ} (hk : k + free = 2) (s : List Char) :
    SpellsLines (.replicate k '"' ++ s) (.replicate k '"' ++ escapeText true free s) := by
  induction s generalizing k free with
  | nil =>
    rw [escapeText, List.append_nil]
    exact .last (by omega)
  | cons c s ih =>
    have hrest : SpellsLines s (escapeText true 2 s) := ih (Nat.zero_add 2)
    by_cases hquote : c = '"'
    · subst hquote
      cases free with
      | zero => exact .quotes (by omega) (by decide) (.char (.letter (by decide)) hrest)
      | succ free =>
        have hpending := ih (k := k + 1) (show k + 1 + free = 2 by omega)
        rw [List.replicate_succ', List.append_assoc, List.append_assoc] at hpending
        exact hpending
    · rw [escapeText_cons hquote, if_pos rfl]
      by_cases hbreak : c = '\n'
      · subst hbreak
        exact .quotes (by omega) (by decide) (.lineBreak (b := ['\n']) (by decide) hrest)
      · have hchar : SpellsChar c ((escape? true c).getD [c]) :=
          spells_escape? hquote fun h ↦ absurd h hbreak
        obtain ⟨d, t, hd, hne⟩ := hchar.head
        rw [hd] at hchar ⊢
        exact .quotes (by omega) hne (.char hchar hrest)

theorem hasRun_iff {n : ℕ} : hasRun c n s = true ↔ List.replicate n c <:+: s := by
  induction s with
  | nil => simp [hasRun, List.replicate_eq_nil_iff]
  | cons x s ih =>
    rw [hasRun, Bool.or_eq_true, List.isPrefixOf_iff_prefix, ih, List.infix_cons_iff]

theorem lt_of_no_run {k n : ℕ} (h : ¬ List.replicate n c <:+: List.replicate k c ++ s) :
    k < n := by
  by_contra hk
  obtain ⟨m, rfl⟩ := Nat.exists_eq_add_of_le (Nat.not_lt.mp hk)
  rw [List.replicate_add, List.append_assoc] at h
  exact h (List.prefix_append _ _).isInfix

theorem spellsLiteralLines_self {k : ℕ} (hs : ∀ c ∈ s, isControl c = false)
    (hrun : ¬ List.replicate 3 '\'' <:+: List.replicate k '\'' ++ s) :
    SpellsLiteralLines (.replicate k '\'' ++ s) (.replicate k '\'' ++ s) := by
  have hk := Nat.le_of_lt_succ (lt_of_no_run hrun)
  induction s generalizing k with
  | nil =>
    rw [List.append_nil]
    exact .last hk
  | cons c s ih =>
    obtain ⟨hc, hplain⟩ := List.forall_mem_cons.mp hs
    by_cases hquote : c = '\''
    · subst hquote
      have hnext : List.replicate k '\'' ++ '\'' :: s = List.replicate (k + 1) '\'' ++ s := by
        rw [List.replicate_succ', List.append_assoc, List.singleton_append]
      rw [hnext] at hrun ⊢
      exact ih hplain hrun (Nat.le_of_lt_succ (lt_of_no_run hrun))
    · have hsuffix : s <:+ List.replicate k '\'' ++ c :: s :=
        ⟨List.replicate k '\'' ++ [c], by simp⟩
      have hrest : SpellsLiteralLines s s :=
        ih (k := 0) hplain (fun h ↦ hrun (h.trans hsuffix.isInfix)) (Nat.zero_le 2)
      refine .quotes hk hquote ?_
      by_cases hbreak : c = '\n'
      · subst hbreak
        exact .lineBreak (b := ['\n']) (by decide) hrest
      · exact .char ⟨isPrintable_iff.mpr ⟨hc, hbreak⟩, hquote⟩ hrest

namespace Quoting

def Fits (s : List Char) : Quoting → Prop
  | basic | basicLines => True
  | literal => ∀ c ∈ s, isPrintable c = true ∧ c ≠ '\''
  | literalLines => (∀ c ∈ s, isControl c = false) ∧ ¬ List.replicate 3 '\'' <:+: s

theorem choose_fits (s : List Char) : (choose s).Fits s := by
  have hplain (h : (!s.any isControl) = true) : ∀ c ∈ s, isControl c = false := by
    simpa using h
  unfold choose
  dsimp only
  split_ifs with _ hliteral _ hlines
  · trivial
  · simp only [Bool.and_eq_true, Bool.not_eq_true', List.contains_eq_mem,
      decide_eq_false_iff_not] at hliteral
    obtain ⟨⟨hcontrol, hbreak⟩, hquote⟩ := hliteral
    intro c hc
    exact ⟨isPrintable_iff.mpr ⟨hplain (by simp [hcontrol]) c hc, ne_of_mem_of_not_mem hc hbreak⟩,
      ne_of_mem_of_not_mem hc hquote⟩
  · trivial
  · obtain ⟨hcontrol, hrun⟩ := Bool.and_eq_true_iff.mp hlines
    refine ⟨hplain hcontrol, ?_⟩
    rw [← hasRun_iff]
    simpa using hrun
  · trivial
  · trivial

end Quoting

theorem leads_of_head? {w : List Char}
    (h : ∀ c ∈ w.head?, (c = '\n' → '\n' ∈ s) ∧ c ≠ '\r') :
    Leads (if s.contains '\n' then ['\n'] else []) w := by
  split
  · exact .inl (by decide)
  · rename_i hbreak
    refine .inr ⟨rfl, ?_⟩
    rintro b hb ⟨t, rfl⟩
    obtain rfl | rfl := eq_of_mem_lineBreaks hb
    · exact hbreak (by simpa using (h '\n' rfl).1 rfl)
    · exact (h '\r' rfl).2 rfl

theorem head?_escapeText {c : Char} (hc : c ∈ (escapeText true 2 s).head?) :
    (c = '\n' → '\n' ∈ s) ∧ c ≠ '\r' := by
  cases s with
  | nil => cases hc
  | cons d s =>
    by_cases hquote : d = '"'
    · subst hquote
      cases hc
      exact ⟨fun h ↦ absurd h (by decide), by decide⟩
    · rw [escapeText_cons hquote] at hc
      by_cases hbreak : d = '\n'
      · subst hbreak
        cases hc
        exact ⟨fun _ ↦ List.mem_cons_self, by decide⟩
      · have hchar : SpellsChar d ((escape? true d).getD [d]) :=
          spells_escape? hquote fun h ↦ absurd h hbreak
        generalize (escape? true d).getD [d] = cs at hchar hc
        cases hchar with
        | plain hd =>
          cases hc
          exact ⟨fun h ↦ absurd h (ne_break_of_isPrintable hd.1).1,
            (ne_break_of_isPrintable hd.1).2⟩
        | letter h | short h | long h =>
          cases hc
          exact ⟨fun h ↦ absurd h (by decide), by decide⟩

/-- Whatever form the writer chooses, it writes a text of the string. -/
theorem hasStringText_writeString (text : String) : HasStringText text (writeString text) := by
  have hfits := Quoting.choose_fits text.toList
  unfold writeString
  dsimp only
  cases hchoose : Quoting.choose text.toList with
  | basic => simpa [Quoting.delimiter] using HasStringText.basic (spellsLine_escapeText text.toList)
  | basicLines =>
    have hlines : SpellsLines text.toList (escapeText true 2 text.toList) :=
      spellsLines_escapeText (k := 0) (Nat.zero_add 2) text.toList
    have htext := HasStringText.basicLines (leads_of_head? fun _ ↦ head?_escapeText) hlines
    simpa [Quoting.delimiter] using htext
  | literal =>
    rw [hchoose] at hfits
    simpa [Quoting.delimiter] using HasStringText.literal hfits
  | literalLines =>
    rw [hchoose] at hfits
    obtain ⟨hcontrol, hrun⟩ := hfits
    have hlines : SpellsLiteralLines text.toList text.toList :=
      spellsLiteralLines_self (k := 0) hcontrol hrun
    have hhead : ∀ c ∈ text.toList.head?, (c = '\n' → '\n' ∈ text.toList) ∧ c ≠ '\r' := by
      intro c hc
      have hmem := List.mem_of_mem_head? hc
      refine ⟨fun h ↦ h ▸ hmem, ?_⟩
      rintro rfl
      exact absurd (hcontrol _ hmem) (by decide)
    simpa [Quoting.delimiter] using HasStringText.literalLines (leads_of_head? hhead) hlines

end Writing

end InputRelay.Toml
