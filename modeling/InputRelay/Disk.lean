import InputRelay.Text.Blank

namespace InputRelay

inductive ReadError
  | notFound | isDirectory | notDirectory | invalidText
  | other (text : String)
deriving DecidableEq, Repr

namespace ReadError

def message : ReadError → String
  | notFound => "No such file or directory (os error 2)"
  | isDirectory => "Is a directory (os error 21)"
  | notDirectory => "Not a directory (os error 20)"
  | invalidText => "stream did not contain valid UTF-8"
  | other text => text

def isAbsence : ReadError → Bool
  | notFound | notDirectory => true
  | _ => false

end ReadError

structure Disk where
  read : String → Except ReadError String

inductive FileNode
  | file (bytes : ByteArray)
  | directory

/-- A directory with everything below it, each entry under the parts of its path. -/
structure FileTree where
  entries : List (List String × FileNode)

namespace FileTree

def partsOf (path : String) : List String :=
  ((Text.cut '/' path.toList).filter fun part ↦ part ≠ [] && part ≠ ['.']).map String.ofList

def ofFiles (files : List (String × FileNode)) : FileTree :=
  ⟨files.map fun (path, node) ↦ (partsOf path, node)⟩

/-- The directories above an entry exist even if they are not listed. -/
def node? (t : FileTree) (path : List String) : Option FileNode :=
  if path = [] then some .directory
  else match t.entries.find? (·.1 == path) with
    | some (_, node) => some node
    | none => if t.entries.any (fun (p, _) ↦ path.isPrefixOf p) then some .directory else none

/-- Outside of a tree only the directories above it are known. -/
def outside (parts : List String) : Except ReadError FileNode :=
  if parts.all ["", ".", ".."].contains then .ok .directory else .error .notFound

def walk (t : FileTree) (place : List String) : List String → Except ReadError FileNode
  | [] => (t.node? place).elim (.error .notFound) .ok
  | part :: parts =>
    match t.node? place with
    | none => .error .notFound
    | some (.file _) => .error .notDirectory
    | some .directory =>
      if part = "" ∨ part = "." then walk t place parts
      else if part = ".." then
        if place = [] then outside parts else walk t place.dropLast parts
      else walk t (place ++ [part]) parts

/-- What is at a path, which is relative to the tree unless it starts with a slash. -/
def find (t : FileTree) (path : String) : Except ReadError FileNode :=
  let parts := (Text.cut '/' path.toList).map String.ofList
  if path.isEmpty then .error .notFound
  else if parts.head? = some "" then outside parts
  else t.walk [] parts

def readText (t : FileTree) (path : String) : Except ReadError String := do
  match ← t.find path with
  | .directory => .error .isDirectory
  | .file bytes =>
    match String.fromUTF8? bytes with
    | some text => .ok text
    | none => .error .invalidText

def disk (t : FileTree) : Disk := ⟨t.readText⟩

end FileTree

end InputRelay
