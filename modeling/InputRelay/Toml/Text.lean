import InputRelay.Text.Digits

namespace InputRelay.Toml

open Text

def isSpace (c : Char) : Bool :=
  c == ' ' || c == '\t'

def skipSpaces (s : List Char) : List Char :=
  s.dropWhile isSpace

def isPrintable (c : Char) : Bool :=
  c == '\t' || (' ' ≤ c && c ≤ '~') || '\x80' ≤ c

def lineBreak? : List Char → Option (List Char)
  | '\n' :: s => some s
  | '\r' :: '\n' :: s => some s
  | _ => none

def endLine? (s : List Char) : Option (List Char) :=
  let rest := match skipSpaces s with
    | '#' :: s => s.dropWhile isPrintable
    | s => s
  if rest = [] then some [] else lineBreak? rest

def skipVoid (comment : Bool) : List Char → List Char
  | [] => []
  | '\n' :: s => skipVoid false s
  | '\r' :: '\n' :: s => skipVoid false s
  | c :: s =>
    if comment && isPrintable c then skipVoid true s
    else if comment then c :: s
    else if isSpace c then skipVoid false s
    else if c = '#' then skipVoid true s
    else c :: s

def scalar? (digits : List Char) : Option Char :=
  if digits.all (isDigit 16) then
    let n := numberOf 16 digits
    if n.isValidChar then some (Char.ofNat n) else none
  else none

def escaped? : Char → Option Char
  | 'b' => some '\x08'
  | 't' => some '\t'
  | 'n' => some '\n'
  | 'f' => some '\x0c'
  | 'r' => some '\r'
  | '"' => some '"'
  | '\\' => some '\\'
  | _ => none

def prepend (c : Char) : Option (List Char × List Char) → Option (List Char × List Char) :=
  Option.map fun (text, rest) ↦ (c :: text, rest)

def basic? : List Char → Option (List Char × List Char)
  | [] => none
  | '"' :: r => some ([], r)
  | '\\' :: 'u' :: a :: b :: c :: d :: r =>
    (scalar? [a, b, c, d]).bind fun u ↦ prepend u (basic? r)
  | '\\' :: 'U' :: a :: b :: c :: d :: e :: f :: g :: h :: r =>
    (scalar? [a, b, c, d, e, f, g, h]).bind fun u ↦ prepend u (basic? r)
  | '\\' :: c :: r => (escaped? c).bind fun u ↦ prepend u (basic? r)
  | c :: r => if isPrintable c && c != '\\' then prepend c (basic? r) else none

/-- A string of several lines up to its three closing quotes, of which up to two more may stand
in front. A backslash at the end of a line skips to what is not blank. -/
def basicLines? (skipping : Bool) : List Char → Option (List Char × List Char)
  | [] => none
  | '"' :: '"' :: '"' :: '"' :: '"' :: r => some (['"', '"'], r)
  | '"' :: '"' :: '"' :: '"' :: r => some (['"'], r)
  | '"' :: '"' :: '"' :: r => some ([], r)
  | '\r' :: '\n' :: r =>
    if skipping then basicLines? true r else prepend '\n' (basicLines? false r)
  | '\n' :: r => if skipping then basicLines? true r else prepend '\n' (basicLines? false r)
  | '\\' :: 'u' :: a :: b :: c :: d :: r =>
    (scalar? [a, b, c, d]).bind fun u ↦ prepend u (basicLines? false r)
  | '\\' :: 'U' :: a :: b :: c :: d :: e :: f :: g :: h :: r =>
    (scalar? [a, b, c, d, e, f, g, h]).bind fun u ↦ prepend u (basicLines? false r)
  | '\\' :: c :: r =>
    if (lineBreak? (skipSpaces (c :: r))).isSome then basicLines? true r
    else (escaped? c).bind fun u ↦ prepend u (basicLines? false r)
  | c :: r =>
    if skipping && isSpace c then basicLines? true r
    else if isPrintable c && c != '\\' then prepend c (basicLines? false r)
    else none

def literal? : List Char → Option (List Char × List Char)
  | [] => none
  | '\'' :: r => some ([], r)
  | c :: r => if isPrintable c then prepend c (literal? r) else none

def literalLines? : List Char → Option (List Char × List Char)
  | [] => none
  | '\'' :: '\'' :: '\'' :: '\'' :: '\'' :: r => some (['\'', '\''], r)
  | '\'' :: '\'' :: '\'' :: '\'' :: r => some (['\''], r)
  | '\'' :: '\'' :: '\'' :: r => some ([], r)
  | '\r' :: '\n' :: r => prepend '\n' (literalLines? r)
  | '\n' :: r => prepend '\n' (literalLines? r)
  | c :: r => if isPrintable c then prepend c (literalLines? r) else none

/-- A line break right after three opening quotes is not part of the string. -/
def skipBreak (s : List Char) : List Char :=
  (lineBreak? s).getD s

def string? : List Char → Option (String × List Char)
  | '"' :: '"' :: '"' :: s => (basicLines? false (skipBreak s)).map (.map String.ofList id)
  | '"' :: s => (basic? s).map (.map String.ofList id)
  | '\'' :: '\'' :: '\'' :: s => (literalLines? (skipBreak s)).map (.map String.ofList id)
  | '\'' :: s => (literal? s).map (.map String.ofList id)
  | _ => none

end InputRelay.Toml
