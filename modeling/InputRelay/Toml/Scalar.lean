import InputRelay.Binary.Rounding
import InputRelay.Toml.Text
import InputRelay.Toml.Tree

namespace InputRelay.Toml

open Text

/-- A run of digits in which single underscores may separate digits, and what follows it. -/
def digits? (base : Nat) : List Char → Option (List Char × List Char)
  | c :: '_' :: r =>
    if isDigit base c then (digits? base r).map fun (ds, rest) ↦ (c :: ds, rest) else none
  | c :: r =>
    if isDigit base c then some ((digits? base r).elim ([c], r) fun (ds, rest) ↦ (c :: ds, rest))
    else none
  | [] => none

def sign? : List Char → Bool × List Char
  | '-' :: s => (true, s)
  | '+' :: s => (false, s)
  | s => (false, s)

def decimal? : List Char → Option (List Char × List Char)
  | '0' :: r => some (['0'], r)
  | s => digits? 10 s

def rangeCheck (i : Int) : Option Value :=
  if Int64.minValue.toInt ≤ i ∧ i ≤ Int64.maxValue.toInt then some (.integer i) else none

def based? (base : Nat) (s : List Char) : Option (Value × List Char) := do
  let (ds, rest) ← digits? base s
  some (← rangeCheck (numberOf base ds), rest)

/-- Integers have 64 bits. Other bases than ten take no sign. -/
def integer? : List Char → Option (Value × List Char)
  | '0' :: 'x' :: s => based? 16 s
  | '0' :: 'o' :: s => based? 8 s
  | '0' :: 'b' :: s => based? 2 s
  | s => do
    let (negative, s) := sign? s
    let (ds, rest) ← decimal? s
    let n : Int := numberOf 10 ds
    some (← rangeCheck (if negative then -n else n), rest)

def fraction? : List Char → Option (List Char × List Char)
  | '.' :: s => digits? 10 s
  | _ => none

def exponent? : List Char → Option (Int × List Char)
  | c :: s =>
    if c = 'e' ∨ c = 'E' then do
      let (negative, s) := sign? s
      let (ds, rest) ← digits? 10 s
      let n : Int := numberOf 10 ds
      some (if negative then -n else n, rest)
    else none
  | [] => none

/-- Whether `significand * 10 ^ exponent` rounds to infinity in double precision. -/
def overflows (significand : List Char) (exponent : Int) : Bool :=
  let n := numberOf 10 significand
  let top : Int := (digitsOf 10 n).length + exponent
  if n = 0 ∨ top ≤ 308 then false
  else if 310 ≤ top then true
  else
    Binary.double.nearest (n * Nat.pow 10 exponent.toNat) (Nat.pow 10 (-exponent).toNat) ==
      Binary.double.infinity

/-- A number with a fraction or an exponent. One that is too large is refused, but one that is
too small, on either side of zero, is not. -/
def decimalFloat? (s : List Char) : Option (Value × List Char) := do
  let (negative, s) := sign? s
  let (whole, s) ← decimal? s
  let (fraction, exponent, rest) ←
    match fraction? s with
    | some (fraction, s) =>
      match exponent? s with
      | some (e, rest) => some (fraction, e, rest)
      | none => some (fraction, 0, s)
    | none => (exponent? s).map fun (e, rest) ↦ ([], e, rest)
  if !negative && overflows (whole ++ fraction) (exponent - fraction.length) then none
  else some (.float, rest)

def specialFloat? (s : List Char) : Option (Value × List Char) :=
  match (sign? s).2 with
  | 'i' :: 'n' :: 'f' :: rest => some (.float, rest)
  | 'n' :: 'a' :: 'n' :: rest => some (.float, rest)
  | _ => none

def field? (width low high : Nat) (s : List Char) : Option (Nat × List Char) :=
  let ds := s.take width
  let n := numberOf 10 ds
  if ds.length = width ∧ ds.all (isDigit 10) ∧ low ≤ n ∧ n ≤ high then some (n, s.drop width)
  else none

def daysInMonth (year month : Nat) : Nat :=
  match month with
  | 2 => if year % 4 = 0 ∧ (year % 100 ≠ 0 ∨ year % 400 = 0) then 29 else 28
  | 4 | 6 | 9 | 11 => 30
  | _ => 31

def expect? (c : Char) : List Char → Option (List Char)
  | c' :: s => if c' = c then some s else none
  | [] => none

def date? (s : List Char) : Option (List Char) := do
  let (year, s) ← field? 4 0 9999 s
  let (month, s) ← field? 2 1 12 (← expect? '-' s)
  let (_, s) ← field? 2 1 (daysInMonth year month) (← expect? '-' s)
  some s

def time? (s : List Char) : Option (List Char) := do
  let (_, s) ← field? 2 0 23 s
  let (_, s) ← field? 2 0 59 (← expect? ':' s)
  let (_, s) ← field? 2 0 60 (← expect? ':' s)
  match s with
  | '.' :: c :: r => if isDigit 10 c then some (r.dropWhile (isDigit 10)) else some s
  | _ => some s

def offset? : List Char → Option (List Char)
  | c :: s =>
    if c = 'Z' ∨ c = 'z' then some s
    else if c = '+' ∨ c = '-' then do
      let (_, s) ← field? 2 0 23 s
      let (_, s) ← field? 2 0 59 (← expect? ':' s)
      some s
    else none
  | [] => none

def timeAfterDate? : List Char → Option (List Char)
  | c :: s => if c = 'T' ∨ c = 't' ∨ c = ' ' then time? s else none
  | [] => none

def dateTime? (s : List Char) : Option (Value × List Char) :=
  match date? s with
  | some rest =>
    match timeAfterDate? rest with
    | some rest => some (.dateTime, (offset? rest).getD rest)
    | none => some (.dateTime, rest)
  | none => (time? s).map (.dateTime, ·)

def keyword? : List Char → Option (Value × List Char)
  | 't' :: 'r' :: 'u' :: 'e' :: rest => some (.boolean true, rest)
  | 'f' :: 'a' :: 'l' :: 's' :: 'e' :: rest => some (.boolean false, rest)
  | _ => none

def scalarValue? (s : List Char) : Option (Value × List Char) :=
  ((string? s).map fun (text, rest) ↦ (.string text, rest)) <|> keyword? s <|> dateTime? s <|>
    decimalFloat? s <|> specialFloat? s <|> integer? s

end InputRelay.Toml
