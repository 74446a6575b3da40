import InputRelay.Json.Basic
import InputRelay.Text.Digits

namespace InputRelay

open Text

namespace Numeral

def write (n : Numeral) : List Char :=
  (if n.negative then ['-'] else []) ++ digitsOf 10 n.whole ++
    (if n.fraction = [] then [] else '.' :: n.fraction.flatMap fun d ↦ digitsOf 10 d.val) ++
    match n.exponent with
    | none => []
    | some e => 'e' :: (if e < 0 then '-' else '+') :: digitsOf 10 e.natAbs

end Numeral

namespace Json

/-- Quotes, backslashes and control characters are escaped; everything else stands for itself. -/
def writeChar (c : Char) : List Char :=
  match c with
  | '"' => ['\\', '"']
  | '\\' => ['\\', '\\']
  | '\n' => ['\\', 'n']
  | '\r' => ['\\', 'r']
  | '\t' => ['\\', 't']
  | '\x08' => ['\\', 'b']
  | '\x0c' => ['\\', 'f']
  | c => if c < ' ' then '\\' :: 'u' :: padLeft 4 '0' (digitsOf 16 c.toNat) else [c]

def writeLiteral : Literal → List Char
  | .text s => '"' :: s.toList.flatMap writeChar ++ ['"']
  | .unpaired => ['"', '\\', 'u', 'd', '8', '0', '0', '"']

mutual

def write : Json → List Char
  | null => ['n', 'u', 'l', 'l']
  | bool true => ['t', 'r', 'u', 'e']
  | bool false => ['f', 'a', 'l', 's', 'e']
  | number n => n.write
  | string s => writeLiteral s
  | array items => '[' :: writeItems items
  | object members => '{' :: writeMembers members

def writeItems : List Json → List Char
  | [] => [']']
  | [v] => write v ++ [']']
  | v :: items => write v ++ ',' :: writeItems items

def writeMembers : List (Literal × Json) → List Char
  | [] => ['}']
  | [(k, v)] => writeLiteral k ++ ':' :: write v ++ ['}']
  | (k, v) :: members => writeLiteral k ++ ':' :: write v ++ ',' :: writeMembers members

end

end Json

end InputRelay
