import InputRelay.Named

namespace InputRelay

/-- A display orientation: a number of clockwise quarter turns, preceded by a horizontal flip
when `flipped`. -/
structure Orientation where
  quarterTurns : Fin 4 := 0
  flipped : Bool := false
deriving DecidableEq, Repr, Inhabited

namespace Orientation

def upright : Orientation := {}

def rotate90 : Orientation := ⟨1, false⟩
def rotate270 : Orientation := ⟨3, false⟩
def flip0 : Orientation := ⟨0, true⟩
def flip180 : Orientation := ⟨2, true⟩

def swapsDimensions (o : Orientation) : Bool :=
  o.quarterTurns.val % 2 == 1

/-- Flipping a frame that stands on its side reverses the order of the composed operations,
which costs half a turn. -/
def compose (first next : Orientation) : Orientation where
  quarterTurns :=
    first.quarterTurns + next.quarterTurns + if first.swapsDimensions && next.flipped then 2 else 0
  flipped := first.flipped ^^ next.flipped

def degrees (o : Orientation) : Nat :=
  o.quarterTurns.val * 90

def description (o : Orientation) : String :=
  (if o.flipped then "flip" else "") ++ toString o.degrees

end Orientation

instance : Named Orientation where
  all := [false, true].flatMap fun f ↦ [0, 1, 2, 3].map fun r ↦ ⟨r, f⟩
  name o := (if o.flipped then "Flip" else "Rotate") ++ toString o.degrees

end InputRelay
