import InputRelay.Toml.Scalar

namespace InputRelay.Toml

def isBareKeyChar (c : Char) : Bool :=
  c.isAlphanum || c == '-' || c == '_'

def keyPart? (s : List Char) : Option (String × List Char) :=
  match s with
  | '"' :: r => (basic? r).map (.map String.ofList id)
  | '\'' :: r => (literal? r).map (.map String.ofList id)
  | _ =>
    match s.takeWhile isBareKeyChar with
    | [] => none
    | k => some (String.ofList k, s.dropWhile isBareKeyChar)

def keyParts? : Nat → List Char → Option (List String × List Char)
  | 0, _ => none
  | n + 1, s => do
    let (k, s) ← keyPart? (skipSpaces s)
    match skipSpaces s with
    | '.' :: s =>
      let (ks, s) ← keyParts? n s
      some (k :: ks, s)
    | s => some ([k], s)

/-- How many parts a key may have, and how deep values may nest. -/
def depthLimit : Nat := 79

def key? (s : List Char) : Option (List String × String × List Char) := do
  let (ks, s) ← keyParts? depthLimit s
  some (ks.dropLast, ← ks.getLast?, s)

section Containers

variable (value? : List Char → Option (Value × List Char))

/-- The items of an array up to its closing bracket. Space, line breaks and comments may stand
anywhere between them, and a comma after the last. -/
def items? : Nat → List Char → Option (List Value × List Char)
  | 0, _ => none
  | n + 1, s =>
    match skipVoid false s with
    | ']' :: rest => some ([], rest)
    | s => do
      let (v, s) ← value? s
      match skipVoid false s with
      | ',' :: s =>
        let (vs, rest) ← items? n s
        some (v :: vs, rest)
      | ']' :: rest => some ([v], rest)
      | _ => none

def assignment? (s : List Char) : Option (Statement × List Char) := do
  let (path, k, s) ← key? s
  let (v, s) ← value? (skipSpaces (← expect? '=' s))
  some (.assign path k v, s)

/-- The entries of an inline table up to its closing brace. They stand on one line, and no comma
follows the last. -/
def entries? : Nat → List Char → Option (List Statement × List Char)
  | 0, _ => none
  | n + 1, s => do
    let (entry, s) ← assignment? value? s
    match skipSpaces s with
    | ',' :: s =>
      let (entries, rest) ← entries? n s
      some (entry :: entries, rest)
    | '}' :: rest => some ([entry], rest)
    | _ => none

def inlineTable? (s : List Char) : Option (Value × List Char) :=
  match skipSpaces s with
  | '}' :: rest => some (.table [], rest)
  | s => do
    let (entries, rest) ← entries? value? s.length s
    some (← assemble entries, rest)

end Containers

def value? : Nat → List Char → Option (Value × List Char)
  | depth + 1, '[' :: s =>
    (items? (value? depth) (s.length + 1) s).map fun (vs, rest) ↦ (.array vs, rest)
  | depth + 1, '{' :: s => inlineTable? (value? depth) s
  | _, s => scalarValue? s

def statement? : List Char → Option (Statement × List Char)
  | '[' :: '[' :: s => do
    let (path, k, s) ← key? s
    some (.item path k, ← expect? ']' (← expect? ']' s))
  | '[' :: s => do
    let (path, k, s) ← key? s
    some (.table path k, ← expect? ']' s)
  | s => assignment? (value? depthLimit) s

/-- The statements of a document, one a line. There are fewer lines than the given number. -/
def statements? : Nat → List Char → Option (List Statement)
  | 0, _ => none
  | n + 1, s =>
    match skipSpaces s with
    | [] => some []
    | s =>
      match endLine? s with
      | some rest => statements? n rest
      | none => do
        let (statement, rest) ← statement? s
        return statement :: (← statements? n (← endLine? rest))

/-- Read a document. A byte order mark in front of it is skipped. -/
def read (s : List Char) : Option Value := do
  let s := match s with
    | '\ufeff' :: s => s
    | s => s
  assemble (← statements? (s.length + 1) s)

end InputRelay.Toml
