import InputRelay.Text.Digits
import InputRelay.Toml.Tree

namespace InputRelay.Toml

open Text

inductive Quoting
  | basic | literal | basicLines | literalLines
deriving DecidableEq, Repr

/-- A control character other than tab and line feed. -/
def isControl (c : Char) : Bool :=
  (c < ' ' && c != '\t' && c != '\n') || c == '\x7f'

def hasRun (c : Char) (n : Nat) : List Char → Bool
  | [] => n == 0
  | x :: s => (List.replicate n c).isPrefixOf (x :: s) || hasRun c n s

namespace Quoting

/-- The first form that needs no escape, the plain one before the others; else an escaped form. -/
def choose (s : List Char) : Quoting :=
  let plain := !s.any isControl
  let oneLine := !s.contains '\n'
  if plain && oneLine && !s.contains '\\' && !s.contains '"' then basic
  else if plain && oneLine && !s.contains '\'' then literal
  else if plain && !s.contains '\\' && !hasRun '"' 3 s then basicLines
  else if plain && !hasRun '\'' 3 s then literalLines
  else if oneLine then basic
  else basicLines

def delimiter : Quoting → List Char
  | basic => ['"']
  | literal => ['\'']
  | basicLines => ['"', '"', '"']
  | literalLines => ['\'', '\'', '\'']

end Quoting

def escape? (lines : Bool) : Char → Option (List Char)
  | '\x08' => some ['\\', 'b']
  | '\t' => some ['\\', 't']
  | '\n' => if lines then none else some ['\\', 'n']
  | '\x0c' => some ['\\', 'f']
  | '\r' => some ['\\', 'r']
  | '\\' => some ['\\', '\\']
  | c =>
    if isControl c then
      some ('\\' :: 'u' :: padLeft 4 '0' ((digitsOf 16 c.toNat).map Char.toUpper))
    else none

/-- Write a text with escapes. Of quotes in a row, `free` counts how many may still stand for
themselves; the next one is escaped. -/
def escapeText (lines : Bool) (free : Nat) : List Char → List Char
  | [] => []
  | '"' :: s =>
    match free with
    | 0 => '\\' :: '"' :: escapeText lines (if lines then 2 else 0) s
    | n + 1 => '"' :: escapeText lines n s
  | c :: s => (escape? lines c).getD [c] ++ escapeText lines (if lines then 2 else 0) s

/-- A string of several lines starts on a line of its own. -/
def writeString (text : String) : List Char :=
  let s := text.toList
  let quoting := Quoting.choose s
  let body := match quoting with
    | .basic => escapeText false 0 s
    | .basicLines => escapeText true 2 s
    | .literal | .literalLines => s
  let lead := if s.contains '\n' && (quoting == .basicLines || quoting == .literalLines)
    then ['\n'] else []
  quoting.delimiter ++ lead ++ body ++ quoting.delimiter

inductive Setting
  | flag (b : Bool)
  | text (s : String)
  | texts (items : List String)
deriving DecidableEq, Repr

namespace Setting

def value : Setting → Value
  | flag b => .boolean b
  | text s => .string s
  | texts items => .array (items.map .string)

/-- A list of two or more items has a line for each. -/
def write : Setting → List Char
  | flag true => ['t', 'r', 'u', 'e']
  | flag false => ['f', 'a', 'l', 's', 'e']
  | text s => writeString s
  | texts [] => ['[', ']']
  | texts [s] => '[' :: writeString s ++ [']']
  | texts items =>
    '[' :: '\n' :: items.flatMap (fun s ↦ "    ".toList ++ writeString s ++ [',', '\n']) ++ [']']

end Setting

/-- A table of a settings file. Its header and its keys need no quotes. -/
structure Section where
  header : List String
  settings : List (String × Setting)
deriving DecidableEq, Repr

namespace Section

def write (s : Section) : List Char :=
  '[' :: (".".intercalate s.header).toList ++ [']', '\n'] ++
    s.settings.flatMap fun (k, setting) ↦ k.toList ++ " = ".toList ++ setting.write ++ ['\n']

end Section

def writeSections (sections : List Section) : List Char :=
  ['\n'].intercalate (sections.map Section.write)

end InputRelay.Toml
