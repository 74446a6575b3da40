import InputRelay.Json.Reader
import InputRelay.Json.Single
import InputRelay.Json.Writer
import InputRelay.Named

namespace InputRelay

class Form (α : Type) where
  toJson : α → Json
  ofJson? : Json → Option α

namespace Json

def text (s : String) : Json :=
  string (.text s)

/-- The members of an object under known names. An unknown member is ignored, but a name without
text is refused, and so is a known name that occurs twice. A list may stand for the object: it
holds the members in order, and only those past the first `needed` may be missing at its end. -/
def members? (names : List String) (needed : Nat) : Json → Option (List (Option Json))
  | object ms =>
    if ms.any (·.1 == .unpaired) then none
    else names.mapM fun name ↦
      match ms.filter (·.1 == .text name) with
      | [] => some none
      | [(_, v)] => some (some v)
      | _ => none
  | array items =>
    if needed ≤ items.length ∧ items.length ≤ names.length then
      some (items.map some ++ List.replicate (names.length - items.length) none)
    else none
  | _ => none

def record? (names : List String) (j : Json) : Option (List Json) := do
  (← j.members? names names.length).mapM id

def record (members : List (String × Json)) : Json :=
  object (members.map fun (name, v) ↦ (.text name, v))

/-- An alternative of a choice: its name alone, or an object whose only member has its name. -/
def alternative? : Json → Option (String × Option Json)
  | string (.text name) => some (name, none)
  | object [(.text name, v)] => some (name, some v)
  | _ => none

def alternative (name : String) (v : Json) : Json :=
  object [(.text name, v)]

/-- An alternative without a value may be written with `null`. -/
def name? (j : Json) : Option String :=
  match j.alternative? with
  | some (name, none) | some (name, some null) => some name
  | _ => none

def int? (low high : Int) : Json → Option Int
  | number n => n.toInt?.filter fun i ↦ low ≤ i && i ≤ high
  | _ => none

def nat? (limit : Nat) (j : Json) : Option Nat :=
  (j.int? 0 (limit - 1)).map Int.toNat

def ofInt (i : Int) : Json :=
  number (.ofInt i)

end Json

namespace Form

open Json

instance : Form Bool where
  toJson := .bool
  ofJson?
    | .bool b => some b
    | _ => none

instance : Form String where
  toJson := text
  ofJson?
    | string (.text s) => some s
    | _ => none

instance : Form Int32 where
  toJson i := ofInt i.toInt
  ofJson? j := (j.int? Int32.minValue.toInt Int32.maxValue.toInt).map Int32.ofInt

instance : Form Int16 where
  toJson i := ofInt i.toInt
  ofJson? j := (j.int? Int16.minValue.toInt Int16.maxValue.toInt).map Int16.ofInt

instance : Form UInt8 where
  toJson n := ofInt n.toNat
  ofJson? j := (j.nat? UInt8.size).map UInt8.ofNat

instance : Form UInt32 where
  toJson n := ofInt n.toNat
  ofJson? j := (j.nat? UInt32.size).map UInt32.ofNat

instance : Form UInt64 where
  toJson n := ofInt n.toNat
  ofJson? j := (j.nat? UInt64.size).map UInt64.ofNat

instance : Form Binary32 where
  toJson := ofSingle
  ofJson?
    | number n => n.toSingle?
    | _ => none

instance (priority := low) {α : Type} [Named α] : Form α where
  toJson a := text (Named.name a)
  ofJson? j := j.name?.bind Named.ofName?

variable {α : Type} [Form α]

def write (a : α) : String :=
  String.ofList (toJson a).write

def read? (s : String) : Option α :=
  (Json.read s.toList).bind ofJson?

end Form

end InputRelay
