namespace InputRelay

structure Point where
  x : Int32 := 0
  y : Int32 := 0
deriving DecidableEq, Repr, Inhabited

structure Size where
  width : UInt32 := 0
  height : UInt32 := 0
deriving DecidableEq, Repr, Inhabited

structure Rect where
  x : Int32 := 0
  y : Int32 := 0
  width : UInt32 := 0
  height : UInt32 := 0
deriving DecidableEq, Repr, Inhabited

/-- A point of the device together with the size of the frame it refers to. The zero position
stands for "no absolute position", as in relative pointer mode. -/
structure Position where
  frame : Size := {}
  point : Point := {}
deriving DecidableEq, Repr, Inhabited

namespace Rect

/-- The left and top edges belong to the rectangle, the right and bottom edges do not. -/
def contains (r : Rect) (p : Point) : Bool :=
  decide (r.x.toInt ≤ p.x.toInt ∧ p.x.toInt < r.x.toInt + r.width.toNat ∧
    r.y.toInt ≤ p.y.toInt ∧ p.y.toInt < r.y.toInt + r.height.toNat)

theorem contains_iff (r : Rect) (p : Point) : r.contains p = true ↔
    (r.x.toInt ≤ p.x.toInt ∧ p.x.toInt < r.x.toInt + r.width.toNat) ∧
      r.y.toInt ≤ p.y.toInt ∧ p.y.toInt < r.y.toInt + r.height.toNat := by
  simp [contains, and_assoc]

end Rect

structure Inversion where
  x : Bool
  y : Bool
deriving DecidableEq, Repr, Inhabited

/-- The reflection of a coordinate in the middle of `[0, extent]`, clamped to 32 bits. -/
def mirrorCoordinate (extent : UInt32) (value : Int32) : Int32 :=
  Int32.ofIntClamp (extent.toNat - value.toInt)

namespace Point

def mirror (p : Point) (frame : Size) (axes : Inversion) : Point where
  x := if axes.x then mirrorCoordinate frame.width p.x else p.x
  y := if axes.y then mirrorCoordinate frame.height p.y else p.y

end Point

end InputRelay
