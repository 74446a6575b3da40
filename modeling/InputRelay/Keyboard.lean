import InputRelay.Named

namespace InputRelay

/-- The modifier state of a keyboard. Bits without a name are kept as they are reported. -/
structure Modifiers where
  bits : BitVec 16
deriving DecidableEq, Repr, Inhabited

namespace Modifiers

def none : Modifiers := ⟨0#16⟩
def lshift : Modifiers := ⟨0x0001#16⟩
def rshift : Modifiers := ⟨0x0002#16⟩
def lctrl : Modifiers := ⟨0x0004#16⟩
def rctrl : Modifiers := ⟨0x0008#16⟩
def lalt : Modifiers := ⟨0x0010#16⟩
def ralt : Modifiers := ⟨0x0020#16⟩
def lsuper : Modifiers := ⟨0x0040#16⟩
def rsuper : Modifiers := ⟨0x0080#16⟩
def caps : Modifiers := ⟨0x0100#16⟩
def num : Modifiers := ⟨0x0200#16⟩

instance : OrOp Modifiers := ⟨fun m n ↦ ⟨m.bits ||| n.bits⟩⟩
instance : AndOp Modifiers := ⟨fun m n ↦ ⟨m.bits &&& n.bits⟩⟩

def shift : Modifiers := lshift ||| rshift
def ctrl : Modifiers := lctrl ||| rctrl
def alt : Modifiers := lalt ||| ralt
def super : Modifiers := lsuper ||| rsuper

def intersects (m n : Modifiers) : Bool :=
  (m &&& n) != none

def contains (m n : Modifiers) : Bool :=
  (m &&& n) == n

def hasShift (m : Modifiers) : Bool := m.intersects shift

def hasCtrl (m : Modifiers) : Bool := m.intersects ctrl

end Modifiers

/-- A key symbol. A key without a symbol of its own has the platform's number for it. -/
inductive KeyCode
  | keyA | keyB | keyC | keyD | keyE | keyF | keyG | keyH | keyI | keyJ | keyK | keyL
  | keyM | keyN | keyO | keyP | keyQ | keyR | keyS | keyT | keyU | keyV | keyW | keyX
  | keyY | keyZ
  | digit0 | digit1 | digit2 | digit3 | digit4 | digit5 | digit6 | digit7 | digit8 | digit9
  | f1 | f2 | f3 | f4 | f5 | f6 | f7 | f8 | f9 | f10 | f11 | f12
  | leftShift | rightShift | leftCtrl | rightCtrl | leftAlt | rightAlt | leftSuper
  | rightSuper
  | enter | escape | backspace | tab | space | insert | delete | home | «end» | pageUp
  | pageDown | arrowUp | arrowDown | arrowLeft | arrowRight
  | unknown (keysym : UInt32)
deriving DecidableEq, Repr, Inhabited

namespace KeyCode

def named : List KeyCode := [
    .keyA, .keyB, .keyC, .keyD, .keyE, .keyF, .keyG, .keyH, .keyI, .keyJ, .keyK, .keyL, .keyM,
    .keyN, .keyO, .keyP, .keyQ, .keyR, .keyS, .keyT, .keyU, .keyV, .keyW, .keyX, .keyY, .keyZ,
    .digit0, .digit1, .digit2, .digit3, .digit4, .digit5, .digit6, .digit7, .digit8, .digit9,
    .f1, .f2, .f3, .f4, .f5, .f6, .f7, .f8, .f9, .f10, .f11, .f12, .leftShift, .rightShift,
    .leftCtrl, .rightCtrl, .leftAlt, .rightAlt, .leftSuper, .rightSuper, .enter, .escape,
    .backspace, .tab, .space, .insert, .delete, .home, .«end», .pageUp, .pageDown, .arrowUp,
    .arrowDown, .arrowLeft, .arrowRight
  ]

def name : KeyCode → String
  | keyA => "KeyA"
  | keyB => "KeyB"
  | keyC => "KeyC"
  | keyD => "KeyD"
  | keyE => "KeyE"
  | keyF => "KeyF"
  | keyG => "KeyG"
  | keyH => "KeyH"
  | keyI => "KeyI"
  | keyJ => "KeyJ"
  | keyK => "KeyK"
  | keyL => "KeyL"
  | keyM => "KeyM"
  | keyN => "KeyN"
  | keyO => "KeyO"
  | keyP => "KeyP"
  | keyQ => "KeyQ"
  | keyR => "KeyR"
  | keyS => "KeyS"
  | keyT => "KeyT"
  | keyU => "KeyU"
  | keyV => "KeyV"
  | keyW => "KeyW"
  | keyX => "KeyX"
  | keyY => "KeyY"
  | keyZ => "KeyZ"
  | digit0 => "Digit0"
  | digit1 => "Digit1"
  | digit2 => "Digit2"
  | digit3 => "Digit3"
  | digit4 => "Digit4"
  | digit5 => "Digit5"
  | digit6 => "Digit6"
  | digit7 => "Digit7"
  | digit8 => "Digit8"
  | digit9 => "Digit9"
  | f1 => "F1"
  | f2 => "F2"
  | f3 => "F3"
  | f4 => "F4"
  | f5 => "F5"
  | f6 => "F6"
  | f7 => "F7"
  | f8 => "F8"
  | f9 => "F9"
  | f10 => "F10"
  | f11 => "F11"
  | f12 => "F12"
  | leftShift => "LeftShift"
  | rightShift => "RightShift"
  | leftCtrl => "LeftCtrl"
  | rightCtrl => "RightCtrl"
  | leftAlt => "LeftAlt"
  | rightAlt => "RightAlt"
  | leftSuper => "LeftSuper"
  | rightSuper => "RightSuper"
  | enter => "Enter"
  | escape => "Escape"
  | backspace => "Backspace"
  | tab => "Tab"
  | space => "Space"
  | insert => "Insert"
  | delete => "Delete"
  | home => "Home"
  | «end» => "End"
  | pageUp => "PageUp"
  | pageDown => "PageDown"
  | arrowUp => "ArrowUp"
  | arrowDown => "ArrowDown"
  | arrowLeft => "ArrowLeft"
  | arrowRight => "ArrowRight"
  | unknown _ => "Unknown"

def modifier? : KeyCode → Option Modifiers
  | leftShift => some .lshift
  | rightShift => some .rshift
  | leftCtrl => some .lctrl
  | rightCtrl => some .rctrl
  | leftAlt => some .lalt
  | rightAlt => some .ralt
  | leftSuper => some .lsuper
  | rightSuper => some .rsuper
  | _ => Option.none

end KeyCode

end InputRelay
