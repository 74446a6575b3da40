import InputRelay.Config.Basic
import InputRelay.Text.Digits
import InputRelay.Touchmap.Basic

namespace InputRelay

open Text

def Point.description (p : Point) : String :=
  "(" ++ toString p.x.toInt ++ ", " ++ toString p.y.toInt ++ ")"

namespace Touchmap

def walkLine : Option WalkControl → String
  | none => "walk     none"
  | some w =>
    "walk     center=" ++ w.center.description ++ " radius=" ++ toString w.radius.toInt ++
      " finger=" ++ w.finger.description

def kindText : ControlKind → String
  | .button => "button"
  | .skill radius => "skill radius=" ++ toString radius.toInt

def controlLine (c : Control) : String :=
  "code " ++ String.ofList (padLeft 3 ' ' c.code.description.toList) ++ "  " ++
    String.ofList (padRight 18 ' ' (kindText c.kind).toList) ++ " center=" ++
    c.center.description ++ " finger=" ++ c.finger.description

def listing (m : Touchmap) : List String :=
  walkLine m.walk :: m.controls.map controlLine ++ [toString m.controls.length ++ " control(s)"]

end Touchmap

/-- The short name of a key: letters and arrows drop the word for their kind. -/
def KeyCode.label (key : KeyCode) : String :=
  match key.name.toList with
  | 'K' :: 'e' :: 'y' :: label => String.ofList label
  | 'A' :: 'r' :: 'r' :: 'o' :: 'w' :: label => String.ofList label
  | label => String.ofList label

namespace Shortcut

def Entry.line (e : Entry) : String :=
  let combination := "MOD+" ++ (if e.shift then "Shift+" else "") ++ e.key.label
  String.ofList (padRight 20 ' ' combination.toList) ++ " " ++ e.shortcut.action.description

def listing (mods : List ShortcutMod) : List String :=
  ("MOD is any of: " ++ ", ".intercalate (mods.map Named.name)) :: "" :: table.map Entry.line

end Shortcut

end InputRelay
