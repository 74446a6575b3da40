import InputRelay.Controller

namespace InputRelay

inductive SlotError
  | capacityExceeded
  | notFound (id : ControllerId)
deriving DecidableEq, Repr

def SlotError.message : SlotError → String
  | capacityExceeded => "controller limit reached"
  | notFound id => "controller " ++ id.description ++ " is not open"

/-- The open controllers. A controller keeps its slot while it is open. -/
structure ControllerSlots where
  cells : List (Option ControllerId) := List.replicate 16 none
  length_cells : cells.length = 16 := by rfl
deriving DecidableEq, Repr

namespace ControllerSlots

def empty : ControllerSlots := {}

instance : Inhabited ControllerSlots := ⟨empty⟩

def size (s : ControllerSlots) : Nat :=
  s.cells.countP Option.isSome

def isFull (s : ControllerSlots) : Bool :=
  s.cells.all Option.isSome

def contains (s : ControllerSlots) (id : ControllerId) : Bool :=
  s.cells.contains (some id)

def set (s : ControllerSlots) (i : Nat) (cell : Option ControllerId) : ControllerSlots where
  cells := s.cells.set i cell
  length_cells := by simp [s.length_cells]

def insert (s : ControllerSlots) (id : ControllerId) : Except SlotError (Nat × ControllerSlots) :=
  match s.cells.findIdx? Option.isNone with
  | none => .error .capacityExceeded
  | some i => .ok (i, s.set i (some id))

def erase (s : ControllerSlots) (id : ControllerId) : Except SlotError (Nat × ControllerSlots) :=
  match s.cells.findIdx? (· == some id) with
  | none => .error (.notFound id)
  | some i => .ok (i, s.set i none)

end ControllerSlots

end InputRelay
