import InputRelay.Json.Basic
import InputRelay.Text.Digits

namespace InputRelay

open Text

namespace Literal

/-- A character of a string literal, or the code unit of a four-digit escape. -/
inductive Piece
  | char (c : Char)
  | unit (n : Nat)
deriving DecidableEq, Repr

/-- A high surrogate and the low one after it make one character. -/
def assemble : List Piece → Option (List Char)
  | [] => some []
  | .char c :: r => (assemble r).map (c :: ·)
  | .unit n :: r =>
    if n < 0xd800 ∨ 0xdfff < n then (assemble r).map (Char.ofNat n :: ·)
    else if n < 0xdc00 then
      match r with
      | .unit m :: r =>
        if 0xdc00 ≤ m ∧ m ≤ 0xdfff then
          (assemble r).map (Char.ofNat (0x10000 + (n - 0xd800) * 0x400 + (m - 0xdc00)) :: ·)
        else none
      | _ => none
    else none

def ofPieces (pieces : List Piece) : Literal :=
  match assemble pieces with
  | some s => text (String.ofList s)
  | none => unpaired

def escaped? : Char → Option Char
  | '"' => some '"'
  | '\\' => some '\\'
  | '/' => some '/'
  | 'b' => some '\x08'
  | 'f' => some '\x0c'
  | 'n' => some '\n'
  | 'r' => some '\r'
  | 't' => some '\t'
  | _ => none

def scan : List Char → Option (List Piece × List Char)
  | [] => none
  | '"' :: r => some ([], r)
  | '\\' :: 'u' :: a :: b :: c :: d :: r =>
    if [a, b, c, d].all (isDigit 16) then
      (scan r).map fun (pieces, rest) ↦ (.unit (numberOf 16 [a, b, c, d]) :: pieces, rest)
    else none
  | '\\' :: e :: r => do
    let c ← escaped? e
    let (pieces, rest) ← scan r
    some (.char c :: pieces, rest)
  | c :: r =>
    if c < ' ' ∨ c = '\\' then none
    else (scan r).map fun (pieces, rest) ↦ (.char c :: pieces, rest)

theorem scan_shortens {s rest : List Char} {pieces : List Piece}
    (h : scan s = some (pieces, rest)) : rest.length < s.length := by
  fun_induction scan s generalizing pieces rest with
  | case1 => simp at h
  | case2 r => simp_all
  | case3 a b c d r hd ih =>
    obtain ⟨p, hp, he⟩ := Option.map_eq_some_iff.1 h
    have := ih hp
    simp only [Prod.mk.injEq] at he
    simp only [List.length_cons, ← he.2]
    omega
  | case4 => simp at h
  | case5 e r _ ih =>
    simp only [Option.bind_eq_bind, Option.bind_eq_some_iff] at h
    obtain ⟨c, _, p, hp, he⟩ := h
    have := ih hp
    simp only [Option.some.injEq, Prod.mk.injEq] at he
    simp only [List.length_cons, ← he.2]
    omega
  | case6 => simp at h
  | case7 c r _ _ _ _ ih =>
    obtain ⟨p, hp, he⟩ := Option.map_eq_some_iff.1 h
    have := ih hp
    simp only [Prod.mk.injEq] at he
    simp only [List.length_cons, ← he.2]
    omega

end Literal

namespace Numeral

def scanDigits (s : List Char) : List Char × List Char :=
  (s.takeWhile (isDigit 10), s.dropWhile (isDigit 10))

def scanWhole : List Char → Option (Nat × List Char)
  | '0' :: r => some (0, r)
  | s =>
    match scanDigits s with
    | ([], _) => none
    | (ds, r) => some (numberOf 10 ds, r)

def scanFraction : List Char → Option (List (Fin 10) × List Char)
  | '.' :: s =>
    match scanDigits s with
    | ([], _) => none
    | (ds, r) => some (ds.map decimalDigit, r)
  | s => some ([], s)

def scanExponentDigits (negative : Bool) (s : List Char) : Option (Option Int × List Char) :=
  match scanDigits s with
  | ([], _) => none
  | (ds, r) => some (some (if negative then -numberOf 10 ds else numberOf 10 ds), r)

def scanExponent : List Char → Option (Option Int × List Char)
  | 'e' :: '+' :: s | 'E' :: '+' :: s => scanExponentDigits false s
  | 'e' :: '-' :: s | 'E' :: '-' :: s => scanExponentDigits true s
  | 'e' :: s | 'E' :: s => scanExponentDigits false s
  | s => some (none, s)

def scanUnsigned (negative : Bool) (s : List Char) : Option (Numeral × List Char) := do
  let (whole, s) ← scanWhole s
  let (fraction, s) ← scanFraction s
  let (exponent, s) ← scanExponent s
  some (⟨negative, whole, fraction, exponent⟩, s)

def scan : List Char → Option (Numeral × List Char)
  | '-' :: s => scanUnsigned true s
  | s => scanUnsigned false s

theorem length_scanDigits {s ds r : List Char} (h : scanDigits s = (ds, r)) :
    ds.length + r.length = s.length := by
  simp only [scanDigits, Prod.mk.injEq] at h
  rw [← h.1, ← h.2, ← List.length_append, List.takeWhile_append_dropWhile]

theorem scanWhole_shortens {s rest : List Char} {n : Nat} (h : scanWhole s = some (n, rest)) :
    rest.length < s.length := by
  unfold scanWhole at h
  split at h
  · simp_all
  · split at h
    · simp at h
    · rename_i ds r hne hds
      obtain ⟨-, rfl⟩ := by simpa using h
      have := List.length_pos_iff.2 hne
      have := length_scanDigits hds
      omega

theorem scanFraction_le {s rest : List Char} {f : List (Fin 10)}
    (h : scanFraction s = some (f, rest)) : rest.length ≤ s.length := by
  unfold scanFraction at h
  split at h
  · split at h
    · simp at h
    · rename_i hds
      obtain ⟨-, rfl⟩ := by simpa using h
      have := length_scanDigits hds
      simp only [List.length_cons]
      omega
  · simp_all

theorem scanExponentDigits_le {negative : Bool} {s rest : List Char} {e : Option Int}
    (h : scanExponentDigits negative s = some (e, rest)) : rest.length ≤ s.length := by
  unfold scanExponentDigits at h
  split at h
  · simp at h
  · rename_i hds
    obtain ⟨-, rfl⟩ := by simpa using h
    have := length_scanDigits hds
    omega

theorem scanExponent_le {s rest : List Char} {e : Option Int}
    (h : scanExponent s = some (e, rest)) : rest.length ≤ s.length := by
  unfold scanExponent at h
  split at h
  case h_7 => simp_all
  all_goals
    have := scanExponentDigits_le h
    simp only [List.length_cons]
    omega

theorem scanUnsigned_shortens {negative : Bool} {s rest : List Char} {n : Numeral}
    (h : scanUnsigned negative s = some (n, rest)) : rest.length < s.length := by
  simp only [scanUnsigned, Option.bind_eq_bind, Option.bind_eq_some_iff] at h
  obtain ⟨⟨w, r⟩, hw, ⟨f, q⟩, hf, ⟨e, p⟩, he, hr⟩ := h
  obtain ⟨-, rfl⟩ := by simpa using hr
  exact Nat.lt_of_le_of_lt (scanExponent_le he)
    (Nat.lt_of_le_of_lt (scanFraction_le hf) (scanWhole_shortens hw))

theorem scan_shortens {s rest : List Char} {n : Numeral} (h : scan s = some (n, rest)) :
    rest.length < s.length := by
  unfold scan at h
  split at h
  · have := scanUnsigned_shortens h
    simp only [List.length_cons]
    omega
  · exact scanUnsigned_shortens h

end Numeral

namespace Json

inductive Token
  | openArray | closeArray | openObject | closeObject | comma | colon
  | string (s : Literal)
  | scalar (v : Json)
deriving Repr

def isSpace (c : Char) : Bool :=
  c == ' ' || c == '\n' || c == '\r' || c == '\t'

def Token.scan : List Char → Option (Token × List Char)
  | '[' :: r => some (openArray, r)
  | ']' :: r => some (closeArray, r)
  | '{' :: r => some (openObject, r)
  | '}' :: r => some (closeObject, r)
  | ',' :: r => some (comma, r)
  | ':' :: r => some (colon, r)
  | '"' :: r => (Literal.scan r).map fun (pieces, rest) ↦ (string (.ofPieces pieces), rest)
  | 'n' :: 'u' :: 'l' :: 'l' :: r => some (scalar .null, r)
  | 't' :: 'r' :: 'u' :: 'e' :: r => some (scalar (.bool true), r)
  | 'f' :: 'a' :: 'l' :: 's' :: 'e' :: r => some (scalar (.bool false), r)
  | s => (Numeral.scan s).map fun (n, rest) ↦ (scalar (.number n), rest)

theorem Token.scan_shortens {s rest : List Char} {t : Token} (h : scan s = some (t, rest)) :
    rest.length < s.length := by
  unfold scan at h
  split at h
  case h_7 =>
    obtain ⟨p, hp, he⟩ := Option.map_eq_some_iff.1 h
    have := Literal.scan_shortens hp
    simp only [Prod.mk.injEq] at he
    simp only [List.length_cons, ← he.2]
    omega
  case h_11 =>
    obtain ⟨p, hp, he⟩ := Option.map_eq_some_iff.1 h
    have := Numeral.scan_shortens hp
    simp only [Prod.mk.injEq] at he
    rw [← he.2]
    exact this
  all_goals
    simp only [Option.some.injEq, Prod.mk.injEq] at h
    simp only [List.length_cons, ← h.2]
    omega

/-- A container that is still open: what it holds so far, the last item first. -/
inductive Frame
  | array (done : List Json)
  | object (done : List (Literal × Json)) (key : Literal)
deriving Repr

inductive Phase
  | value
  | firstItem
  | key (done : List (Literal × Json))
  | colon (done : List (Literal × Json)) (key : Literal)
  | ended (v : Json)
deriving Repr

structure ReaderState where
  phase : Phase := .value
  stack : List Frame := []
deriving Repr

namespace ReaderState

def beginValue (stack : List Frame) : Token → Option ReaderState
  | .scalar v => some ⟨.ended v, stack⟩
  | .string s => some ⟨.ended (.string s), stack⟩
  | .openArray => some ⟨.firstItem, stack⟩
  | .openObject => some ⟨.key [], stack⟩
  | _ => none

/-- A value has just ended: its container goes on or ends as well. -/
def endValue (v : Json) : List Frame → Token → Option ReaderState
  | .array done :: stack, .comma => some ⟨.value, .array (v :: done) :: stack⟩
  | .array done :: stack, .closeArray => some ⟨.ended (.array (v :: done).reverse), stack⟩
  | .object done k :: stack, .comma => some ⟨.key ((k, v) :: done), stack⟩
  | .object done k :: stack, .closeObject =>
    some ⟨.ended (.object ((k, v) :: done).reverse), stack⟩
  | _, _ => none

def step (state : ReaderState) (t : Token) : Option ReaderState :=
  match state.phase, t with
  | .value, t => beginValue state.stack t
  | .firstItem, .closeArray => some ⟨.ended (.array []), state.stack⟩
  | .firstItem, t => beginValue (.array [] :: state.stack) t
  | .key [], .closeObject => some ⟨.ended (.object []), state.stack⟩
  | .key done, .string k => some ⟨.colon done k, state.stack⟩
  | .colon done k, .colon => some ⟨.value, .object done k :: state.stack⟩
  | .ended v, t => endValue v state.stack t
  | _, _ => none

def result? : ReaderState → Option Json
  | ⟨.ended v, []⟩ => some v
  | _ => none

def run (state : ReaderState) (s : List Char) : Option Json :=
  match _hs : s.dropWhile isSpace with
  | [] => state.result?
  | c :: r =>
    match _h : Token.scan (c :: r) with
    | none => none
    | some (t, rest) =>
      match state.step t with
      | none => none
      | some next => run next rest
termination_by s.length
decreasing_by
  have := Token.scan_shortens _h
  have := (List.dropWhile_sublist (l := s) isSpace).length_le
  rw [_hs] at this
  omega

end ReaderState

def read (s : List Char) : Option Json :=
  ReaderState.run {} s

end Json

end InputRelay
