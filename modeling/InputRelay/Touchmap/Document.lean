import InputRelay.Disk
import InputRelay.Form.Geometry
import InputRelay.Touchmap.Builder

namespace InputRelay

/-- A touchmap as it is written. An entry that lacks one of its parts maps nothing. -/
structure WalkEntry where
  center : Option Point := none
  radius : Option Int32 := none
deriving DecidableEq, Repr, Inhabited

structure ButtonEntry where
  touch : Option Point := none
  button : Option String := none
deriving DecidableEq, Repr, Inhabited

structure SkillEntry where
  center : Option Point := none
  radius : Option Int32 := none
  button : Option String := none
deriving DecidableEq, Repr, Inhabited

structure Mappings where
  walk : Option WalkEntry := none
  buttons : List ButtonEntry := []
  skills : List SkillEntry := []
deriving DecidableEq, Repr, Inhabited

structure TouchmapDocument where
  mappings : Option Mappings := none
deriving DecidableEq, Repr, Inhabited

inductive TouchmapError
  | unreadable (path : String) (e : ReadError)
  | malformed
  | missingMappings
deriving DecidableEq, Repr

namespace TouchmapError

def message : TouchmapError → String
  | unreadable path e => "failed to read touchmap " ++ path ++ ": " ++ e.message
  | malformed => "malformed touchmap"
  | missingMappings => "touchmap has no \"mappings\" section"

end TouchmapError

namespace TouchmapBuilder

def addWalkEntry (b : TouchmapBuilder) : WalkEntry → TouchmapBuilder
  | ⟨some center, some radius⟩ => b.setWalk center radius
  | _ => b

def addButtonEntry (b : TouchmapBuilder) : ButtonEntry → TouchmapBuilder
  | ⟨some touch, some name⟩ => b.addControl (Touchmap.codeOfName name) touch .button
  | _ => b

def addSkillEntry (b : TouchmapBuilder) : SkillEntry → TouchmapBuilder
  | ⟨some center, some radius, some name⟩ =>
    b.addControl (Touchmap.codeOfName name) center (.skill radius)
  | _ => b

end TouchmapBuilder

/-- The touchmap of a document: the walk control, then buttons, then skills take their fingers. -/
def Mappings.touchmap (m : Mappings) : Touchmap :=
  let b := m.walk.toList.foldl TouchmapBuilder.addWalkEntry {}
  let b := m.buttons.foldl TouchmapBuilder.addButtonEntry b
  (m.skills.foldl TouchmapBuilder.addSkillEntry b).build.1

namespace TouchmapDocument

open Form Json

/-- A member that may be missing or `null`. -/
def optional? {α : Type} [Form α] : Option Json → Option (Option α)
  | none | some null => some none
  | some v => (ofJson? v).map some

/-- A list that may be missing, but not `null`. -/
def list? {α : Type} (item? : Json → Option α) : Option Json → Option (List α)
  | none => some []
  | some (array items) => items.mapM item?
  | some _ => none

def optional {α : Type} [Form α] (name : String) (v : Option α) : List (String × Json) :=
  v.toList.map fun a ↦ (name, toJson a)

instance : Form WalkEntry where
  toJson e := record (optional "center" e.center ++ optional "radius" e.radius)
  ofJson? j := do
    let [center, radius] ← j.members? ["center", "radius"] 2 | none
    some ⟨← optional? center, ← optional? radius⟩

instance : Form ButtonEntry where
  toJson e := record (optional "touch" e.touch ++ optional "button" e.button)
  ofJson? j := do
    let [touch, button] ← j.members? ["touch", "button"] 2 | none
    some ⟨← optional? touch, ← optional? button⟩

instance : Form SkillEntry where
  toJson e := record (optional "center" e.center ++ optional "radius" e.radius ++
    optional "button" e.button)
  ofJson? j := do
    let [center, radius, button] ← j.members? ["center", "radius", "button"] 3 | none
    some ⟨← optional? center, ← optional? radius, ← optional? button⟩

instance : Form Mappings where
  toJson m := record (optional "walk_control" m.walk ++
    [("button_mappings", array (m.buttons.map toJson)),
      ("skill_casting", array (m.skills.map toJson))])
  ofJson? j := do
    let [walk, buttons, skills] ←
      j.members? ["walk_control", "button_mappings", "skill_casting"] 1 | none
    some ⟨← optional? walk, ← list? ofJson? buttons, ← list? ofJson? skills⟩

instance : Form TouchmapDocument where
  toJson d := record (optional "mappings" d.mappings)
  ofJson? j := do
    let [mappings] ← j.members? ["mappings"] 1 | none
    some ⟨← optional? mappings⟩

end TouchmapDocument

namespace Touchmap

def ofText (s : String) : Except TouchmapError Touchmap :=
  match (Form.read? s : Option TouchmapDocument) with
  | none => .error .malformed
  | some ⟨none⟩ => .error .missingMappings
  | some ⟨some m⟩ => .ok m.touchmap

def ofFile (disk : Disk) (path : String) : Except TouchmapError Touchmap :=
  match disk.read path with
  | .error e => .error (.unreadable path e)
  | .ok s => ofText s

end Touchmap

end InputRelay
