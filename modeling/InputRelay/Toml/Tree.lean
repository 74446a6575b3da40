namespace InputRelay.Toml

/-- A value. Of floats and dates only their presence is kept: no setting takes one. -/
inductive Value
  | string (s : String)
  | integer (i : Int)
  | float
  | boolean (b : Bool)
  | dateTime
  | array (items : List Value)
  | table (entries : List (String × Value))
deriving Repr

/-- How a table came about: under a header of its own, as part of a longer header, or as part of a
dotted key. -/
inductive Origin
  | header | implied | dotted
deriving DecidableEq, Repr

/-- A table that is still being filled holds values, tables and lists of tables. -/
inductive Node
  | leaf (v : Value)
  | table (origin : Origin) (entries : List (String × Node))
  | list (tables : List (List (String × Node)))
deriving Repr

abbrev Entries := List (String × Node)

namespace Entries

def replace (k : String) (n : Node) (es : Entries) : Entries :=
  es.map fun (k', n') ↦ (k', if k' = k then n else n')

/-- Change the table at a path. Tables that are missing on the way are made; of a list the last
table is meant. A dotted key does not lead into a table with a header of its own. -/
def update (dotted : Bool) (change : Origin → Entries → Option Entries) :
    List String → Origin → Entries → Option Entries
  | [], origin, es => change origin es
  | k :: ks, _, es =>
    match es.lookup k with
    | none => do
      let origin := if dotted then .dotted else .implied
      let inner ← update dotted change ks origin []
      some (es ++ [(k, .table origin inner)])
    | some (.leaf _) => none
    | some (.table origin inner) => do
      if dotted ∧ origin = .header then none
      else some (replace k (.table origin (← update dotted change ks origin inner)) es)
    | some (.list tables) => do
      let inner ← update dotted change ks .header (tables.getLast?.getD [])
      some (replace k (.list (tables.dropLast ++ [inner])) es)

/-- Set a key that is not set yet. A dotted key ends in a table that dotted keys made. -/
def assign (path : List String) (k : String) (v : Value) (origin : Origin) (es : Entries) :
    Option Entries :=
  update true (fun origin es ↦
    if origin = .dotted ↔ path ≠ [] then
      if (es.lookup k).isNone then some (es ++ [(k, .leaf v)]) else none
    else none) path origin es

/-- Open a table. It may have been implied before, but not more than that. -/
def openTable (k : String) (es : Entries) : Option Entries :=
  match es.lookup k with
  | none => some (es ++ [(k, .table .header [])])
  | some (.table .implied inner) => some (replace k (.table .header inner) es)
  | some _ => none

def openItem (k : String) (es : Entries) : Option Entries :=
  match es.lookup k with
  | none => some (es ++ [(k, .list [[]])])
  | some (.list tables) => some (replace k (.list (tables ++ [[]])) es)
  | some _ => none

end Entries

mutual

def Node.value : Node → Value
  | .leaf v => v
  | .table _ es => .table (entryValues es)
  | .list tables => .array (tableValues tables)

def entryValues : List (String × Node) → List (String × Value)
  | [] => []
  | (k, n) :: es => (k, n.value) :: entryValues es

def tableValues : List (List (String × Node)) → List Value
  | [] => []
  | es :: tables => .table (entryValues es) :: tableValues tables

end

/-- What one line of a document says, or one entry of an inline table. -/
inductive Statement
  | assign (path : List String) (key : String) (v : Value)
  | table (path : List String) (key : String)
  | item (path : List String) (key : String)
deriving Repr

/-- A document up to some line: everything said so far, and the table that is open. -/
structure Outline where
  entries : Entries := []
  current : List String := []
deriving Repr

namespace Outline

def add (o : Outline) : Statement → Option Outline
  | .assign path key v => do
    let es ← o.entries.update false (Entries.assign path key v) o.current .header
    some { o with entries := es }
  | .table path key => do
    let es ← o.entries.update false (fun _ ↦ Entries.openTable key) path .header
    some ⟨es, path ++ [key]⟩
  | .item path key => do
    let es ← o.entries.update false (fun _ ↦ Entries.openItem key) path .header
    some ⟨es, path ++ [key]⟩

def value (o : Outline) : Value :=
  .table (entryValues o.entries)

end Outline

def assemble (statements : List Statement) : Option Value :=
  (statements.foldlM Outline.add {}).map Outline.value

end InputRelay.Toml
