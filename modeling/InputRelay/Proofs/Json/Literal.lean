import InputRelay.Json.Reader
import InputRelay.Json.Writer
import InputRelay.Proofs.Text.Digits
import Mathlib.Data.List.Basic

namespace InputRelay

open Text

namespace Literal

def shortEscapes : List (Char × Char) :=
  [('"', '"'), ('\\', '\\'), ('/', '/'), ('b', '\x08'), ('f', '\x0c'), ('n', '\n'), ('r', '\r'),
    ('t', '\t')]

/-- A code unit has four hexadecimal digits, of either case. -/
def SpellsUnit (n : ℕ) (ds : List Char) : Prop :=
  n < 2 ^ 16 ∧ ds.map Char.toLower = padLeft 4 '0' (digitsOf 16 n)

inductive SpellsChar : Char → List Char → Prop
  | plain {c : Char} (hc : ' ' ≤ c ∧ c ≠ '"' ∧ c ≠ '\\') : SpellsChar c [c]
  | short {e c : Char} (h : (e, c) ∈ shortEscapes) : SpellsChar c ['\\', e]
  | unit {c : Char} {ds : List Char} (h : SpellsUnit c.toNat ds) :
      SpellsChar c ('\\' :: 'u' :: ds)
  | pair {c : Char} {high low : List Char} (hc : 2 ^ 16 ≤ c.toNat)
      (hhigh : SpellsUnit (0xd800 + (c.toNat - 2 ^ 16) / 2 ^ 10) high)
      (hlow : SpellsUnit (0xdc00 + (c.toNat - 2 ^ 16) % 2 ^ 10) low) :
      SpellsChar c ('\\' :: 'u' :: high ++ '\\' :: 'u' :: low)

inductive SpellsChars : List Char → List Char → Prop
  | nil : SpellsChars [] []
  | cons {c : Char} {s cs ss : List Char} (hc : SpellsChar c cs) (hs : SpellsChars s ss) :
      SpellsChars (c :: s) (cs ++ ss)

/-- The ways to write a literal. What stands for no text is written as the writer does it. -/
inductive Spells : Literal → List Char → Prop
  | text {s : String} {cs : List Char} (h : SpellsChars s.toList cs) :
      Spells (.text s) ('"' :: (cs ++ ['"']))
  | unpaired : Spells .unpaired (Json.writeLiteral .unpaired)

/-- The ways to write pieces between the quotes of a literal, whether or not they make a text. -/
inductive SpellsPieces : List Piece → List Char → Prop
  | nil : SpellsPieces [] []
  | plain {c : Char} {pieces : List Piece} {cs : List Char} (hc : ' ' ≤ c ∧ c ≠ '"' ∧ c ≠ '\\')
      (h : SpellsPieces pieces cs) : SpellsPieces (.char c :: pieces) (c :: cs)
  | short {e c : Char} {pieces : List Piece} {cs : List Char} (he : (e, c) ∈ shortEscapes)
      (h : SpellsPieces pieces cs) : SpellsPieces (.char c :: pieces) ('\\' :: e :: cs)
  | unit {n : ℕ} {ds : List Char} {pieces : List Piece} {cs : List Char} (hn : SpellsUnit n ds)
      (h : SpellsPieces pieces cs) : SpellsPieces (.unit n :: pieces) ('\\' :: 'u' :: (ds ++ cs))

/-- All the texts of a literal. It stands for no text when its pieces spell none. -/
inductive HasText : Literal → List Char → Prop
  | text {s : String} {cs : List Char} (h : SpellsChars s.toList cs) :
      HasText (.text s) ('"' :: (cs ++ ['"']))
  | unpaired {pieces : List Piece} {cs : List Char} (h : SpellsPieces pieces cs)
      (hno : ∀ s, ¬SpellsChars s cs) : HasText .unpaired ('"' :: (cs ++ ['"']))

theorem forall_mem_padded {P : Char → Prop} (h : ∀ d < 16, P (Nat.digitChar d)) (n : ℕ) :
    ∀ c ∈ padLeft 4 '0' (digitsOf 16 n), P c := by
  intro c hc
  rcases List.mem_append.mp hc with hc | hc
  · rw [(List.mem_replicate.mp hc).2]
    exact h 0 (by omega)
  · exact forall_mem_digitsOf (by omega) h n c hc

theorem scan_unit {n : ℕ} {ds : List Char} (h : SpellsUnit n ds) (r : List Char) :
    scan ('\\' :: 'u' :: (ds ++ r)) =
      (scan r).map fun (pieces, rest) ↦ (.unit n :: pieces, rest) := by
  have hex : SpellsHex 4 n ds := h
  have hlength : ds.length = 4 := hex.length (by omega)
  have hdigits : ds.all (isDigit 16) = true := List.all_eq_true.mpr hex.digits.1
  have hvalue : numberOf 16 ds = n := hex.digits.2
  obtain ⟨a, b, c, d, rfl⟩ := List.length_eq_four.mp hlength
  simp only [List.cons_append, List.nil_append, scan, hdigits, if_true, hvalue]

theorem scan_plain {c : Char} (hc : ' ' ≤ c ∧ c ≠ '"' ∧ c ≠ '\\') (r : List Char) :
    scan (c :: r) = (scan r).map fun (pieces, rest) ↦ (.char c :: pieces, rest) := by
  obtain ⟨hlow, hquote, hslash⟩ := hc
  rw [scan, if_neg]
  · rintro (h | h)
    · exact Char.not_lt.mpr hlow h
    · exact hslash h
  · exact hquote
  · exact fun _ _ _ _ _ h _ ↦ hslash h
  · exact fun _ _ h _ ↦ hslash h

theorem scan_short {e c : Char} (h : (e, c) ∈ shortEscapes) (r : List Char) :
    scan ('\\' :: e :: r) = (scan r).map fun (pieces, rest) ↦ (.char c :: pieces, rest) := by
  have hescapes : ∀ p ∈ shortEscapes, p.1 ≠ 'u' ∧ escaped? p.1 = some p.2 := by decide
  obtain ⟨hu, hc⟩ := hescapes _ h
  rw [scan, hc]
  · cases scan r <;> rfl
  · exact fun _ _ _ _ _ h _ ↦ hu h

theorem toNat_cases (c : Char) : c.toNat < 0xd800 ∨ 0xdfff < c.toNat ∧ c.toNat < 0x110000 :=
  c.valid

theorem assemble_unit (c : Char) (pieces : List Piece) :
    assemble (.unit c.toNat :: pieces) = (assemble pieces).map (c :: ·) := by
  have hc := toNat_cases c
  rw [assemble.eq_def]
  exact (if_pos (by omega)).trans (by rw [Char.ofNat_toNat])

theorem assemble_pair {c : Char} (hc : 2 ^ 16 ≤ c.toNat) (pieces : List Piece) :
    assemble (.unit (0xd800 + (c.toNat - 2 ^ 16) / 2 ^ 10) ::
      .unit (0xdc00 + (c.toNat - 2 ^ 16) % 2 ^ 10) :: pieces) =
        (assemble pieces).map (c :: ·) := by
  have hbound := toNat_cases c
  have hvalue : 0x10000 + (0xd800 + (c.toNat - 2 ^ 16) / 2 ^ 10 - 0xd800) * 0x400 +
      (0xdc00 + (c.toNat - 2 ^ 16) % 2 ^ 10 - 0xdc00) = c.toNat := by omega
  simp only [assemble]
  rw [if_neg (by omega), if_pos (by omega), if_pos (by omega), hvalue, Char.ofNat_toNat]

theorem SpellsPieces.scan {pieces : List Piece} {cs : List Char} (h : SpellsPieces pieces cs)
    (rest : List Char) : Literal.scan (cs ++ '"' :: rest) = some (pieces, rest) := by
  induction h with
  | nil => rfl
  | plain hc _ ih => rw [List.cons_append, scan_plain hc, ih, Option.map_some]
  | short he _ ih => rw [List.cons_append, List.cons_append, scan_short he, ih, Option.map_some]
  | unit hn _ ih =>
    rw [List.cons_append, List.cons_append, List.append_assoc, scan_unit hn, ih, Option.map_some]

theorem SpellsChars.exists_pieces {s cs : List Char} (h : SpellsChars s cs) :
    ∃ pieces, SpellsPieces pieces cs ∧ assemble pieces = some s := by
  induction h with
  | nil => exact ⟨[], .nil, rfl⟩
  | @cons c s cs ss hc hs ih =>
    obtain ⟨pieces, hpieces, hs⟩ := ih
    cases hc with
    | plain hc => exact ⟨_, .plain hc hpieces, by rw [assemble, hs, Option.map_some]⟩
    | short he => exact ⟨_, .short he hpieces, by rw [assemble, hs, Option.map_some]⟩
    | unit hn => exact ⟨_, .unit hn hpieces, by rw [assemble_unit, hs, Option.map_some]⟩
    | pair hc hhigh hlow =>
      refine ⟨_, ?_, by rw [assemble_pair hc, hs, Option.map_some]⟩
      simpa using SpellsPieces.unit hhigh (.unit hlow hpieces)

theorem toNat_ofNat {n : ℕ} (hn : n.isValidChar) : (Char.ofNat n).toNat = n :=
  congrArg Char.toNat (dif_pos hn)

theorem spellsChar_unit {n : ℕ} {ds : List Char} (hn : n < 0xd800 ∨ 0xdfff < n)
    (h : SpellsUnit n ds) : SpellsChar (Char.ofNat n) ('\\' :: 'u' :: ds) := by
  have hvalid : n.isValidChar := hn.imp id fun hn ↦ ⟨hn, Nat.lt_trans h.1 (by decide)⟩
  exact .unit ((toNat_ofNat hvalid).symm ▸ h)

theorem spellsChar_pair {n m : ℕ} {high low : List Char} (hn : 0xd800 ≤ n ∧ n < 0xdc00)
    (hm : 0xdc00 ≤ m ∧ m ≤ 0xdfff) (hhigh : SpellsUnit n high) (hlow : SpellsUnit m low) :
    SpellsChar (Char.ofNat (0x10000 + (n - 0xd800) * 0x400 + (m - 0xdc00)))
      ('\\' :: 'u' :: high ++ '\\' :: 'u' :: low) := by
  have hvalid : (0x10000 + (n - 0xd800) * 0x400 + (m - 0xdc00)).isValidChar :=
    Or.inr ⟨by omega, by omega⟩
  have hvalue : (Char.ofNat (0x10000 + (n - 0xd800) * 0x400 + (m - 0xdc00))).toNat =
      0x10000 + (n - 0xd800) * 0x400 + (m - 0xdc00) := toNat_ofNat hvalid
  refine .pair (by omega) ?_ ?_
  · rwa [hvalue, show 0xd800 + (0x10000 + (n - 0xd800) * 0x400 + (m - 0xdc00) - 2 ^ 16) / 2 ^ 10 = n
      by omega]
  · rwa [hvalue, show 0xdc00 + (0x10000 + (n - 0xd800) * 0x400 + (m - 0xdc00) - 2 ^ 16) % 2 ^ 10 = m
      by omega]

theorem SpellsPieces.spellsChars {pieces : List Piece} {cs s : List Char}
    (h : SpellsPieces pieces cs) (hs : assemble pieces = some s) : SpellsChars s cs := by
  fun_induction assemble pieces generalizing cs s with
  | case1 =>
    cases h
    cases hs
    exact .nil
  | case2 c r ih =>
    obtain ⟨s', hs', rfl⟩ := Option.map_eq_some_iff.mp hs
    cases h with
    | plain hc h => exact .cons (.plain hc) (ih h hs')
    | short he h => exact .cons (.short he) (ih h hs')
  | case3 n r hn ih =>
    obtain ⟨s', hs', rfl⟩ := Option.map_eq_some_iff.mp hs
    cases h with
    | unit hd h => exact .cons (spellsChar_unit hn hd) (ih h hs')
  | case4 n hn hhigh m r hm ih =>
    obtain ⟨s', hs', rfl⟩ := Option.map_eq_some_iff.mp hs
    cases h with
    | unit hd h =>
      cases h with
      | unit hd' h =>
        have hpair := spellsChar_pair ⟨by omega, hhigh⟩ hm hd hd'
        simpa using SpellsChars.cons hpair (ih h hs')
  | case5 | case6 | case7 => cases hs

theorem SpellsPieces.hasText {pieces : List Piece} {cs : List Char} (h : SpellsPieces pieces cs) :
    HasText (ofPieces pieces) ('"' :: (cs ++ ['"'])) := by
  unfold ofPieces
  split
  · rename_i s hs
    refine .text ?_
    rw [String.toList_ofList]
    exact h.spellsChars hs
  · rename_i hnone
    refine .unpaired h fun s hs ↦ ?_
    obtain ⟨pieces', h', hs'⟩ := hs.exists_pieces
    have hscan := (h.scan []).symm.trans (h'.scan [])
    cases hscan
    rw [hnone] at hs'
    cases hs'

theorem HasText.exists_pieces {l : Literal} {cs : List Char} (h : HasText l cs) :
    ∃ pieces body,
      SpellsPieces pieces body ∧ cs = '"' :: (body ++ ['"']) ∧ ofPieces pieces = l := by
  cases h with
  | text h =>
    obtain ⟨pieces, hpieces, hs⟩ := h.exists_pieces
    refine ⟨pieces, _, hpieces, rfl, ?_⟩
    rw [ofPieces, hs]
    exact congrArg Literal.text String.ofList_toList
  | @unpaired pieces cs h hno =>
    refine ⟨pieces, cs, h, rfl, ?_⟩
    unfold ofPieces
    split
    · rename_i s hs
      exact absurd (h.spellsChars hs) (hno s)
    · rfl

theorem HasText.scan {l : Literal} {cs : List Char} (h : HasText l cs) :
    ∃ body, cs = '"' :: body ∧ ∀ rest, ∃ pieces,
      Literal.scan (body ++ rest) = some (pieces, rest) ∧ ofPieces pieces = l := by
  obtain ⟨pieces, body, hpieces, rfl, hl⟩ := h.exists_pieces
  refine ⟨body ++ ['"'], rfl, fun rest ↦ ⟨pieces, ?_, hl⟩⟩
  rw [List.append_assoc]
  exact hpieces.scan rest

theorem Spells.hasText {l : Literal} {cs : List Char} (h : Spells l cs) : HasText l cs := by
  cases h with
  | text h => exact .text h
  | unpaired =>
    have hunit : SpellsUnit 0xd800 ['d', '8', '0', '0'] := by
      constructor <;> decide
    exact SpellsPieces.hasText (.unit hunit .nil)

theorem spellsUnit_padded {n : ℕ} (hn : n < 2 ^ 16) :
    SpellsUnit n (padLeft 4 '0' (digitsOf 16 n)) := by
  have hdigit : ∀ d < 16, (Nat.digitChar d).toLower = Nat.digitChar d := by decide
  exact ⟨hn, (List.map_congr_left (forall_mem_padded hdigit n)).trans (List.map_id _)⟩

theorem spellsChar_writeChar (c : Char) : SpellsChar c (Json.writeChar c) := by
  unfold Json.writeChar
  split
  case h_8 hquote hslash _ _ _ _ _ =>
    split
    case isTrue hc =>
      have hn : c.toNat < ' '.toNat := hc
      exact .unit (spellsUnit_padded (Nat.lt_trans hn (by decide)))
    case isFalse hc => exact .plain ⟨Char.not_lt.mp hc, hquote, hslash⟩
  all_goals exact .short (by decide)

theorem spells_writeLiteral (l : Literal) : Spells l (Json.writeLiteral l) := by
  cases l with
  | text s =>
    have h : ∀ cs : List Char, SpellsChars cs (cs.flatMap Json.writeChar) := by
      intro cs
      induction cs with
      | nil => exact .nil
      | cons c cs ih => exact .cons (spellsChar_writeChar c) ih
    exact .text (h s.toList)
  | unpaired => exact .unpaired

end Literal

end InputRelay
