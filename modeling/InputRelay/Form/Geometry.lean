import InputRelay.Geometry
import InputRelay.Json.Form
import InputRelay.Orientation

namespace InputRelay

open Form Json

instance : Form Point where
  toJson p := record [("x", toJson p.x), ("y", toJson p.y)]
  ofJson? j := do
    let [x, y] ← j.record? ["x", "y"] | none
    some ⟨← ofJson? x, ← ofJson? y⟩

instance : Form Size where
  toJson s := record [("width", toJson s.width), ("height", toJson s.height)]
  ofJson? j := do
    let [width, height] ← j.record? ["width", "height"] | none
    some ⟨← ofJson? width, ← ofJson? height⟩

instance : Form Rect where
  toJson r := record [("x", toJson r.x), ("y", toJson r.y), ("width", toJson r.width),
    ("height", toJson r.height)]
  ofJson? j := do
    let [x, y, width, height] ← j.record? ["x", "y", "width", "height"] | none
    some ⟨← ofJson? x, ← ofJson? y, ← ofJson? width, ← ofJson? height⟩

instance : Form Position where
  toJson p := record [("screen_size", toJson p.frame), ("point", toJson p.point)]
  ofJson? j := do
    let [frame, point] ← j.record? ["screen_size", "point"] | none
    some ⟨← ofJson? frame, ← ofJson? point⟩

end InputRelay
