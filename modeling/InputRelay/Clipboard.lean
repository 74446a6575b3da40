import InputRelay.Command

namespace InputRelay

inductive ClipboardError
  | accessDenied | empty | unavailable
deriving DecidableEq, Repr

def ClipboardError.message : ClipboardError → String
  | accessDenied => "clipboard access denied"
  | empty => "clipboard holds no text"
  | unavailable => "backend not available on this platform"

/-- The clipboard of the host: its text, or why it cannot be read. -/
structure Clipboard where
  content : Except ClipboardError String

namespace Clipboard

def ofText? (text : Option String) : Clipboard :=
  ⟨text.elim (.error .accessDenied) .ok⟩

/-- The text to hand over. An empty text counts as none. -/
def read : Option Clipboard → Except ClipboardError String
  | none => .error .unavailable
  | some c =>
    match c.content with
    | .ok text => if text.isEmpty then .error .empty else .ok text
    | .error e => .error e

end Clipboard

/-- The number after a sequence number. Zero is left out when the numbers start again. -/
def AckSequence.next (s : AckSequence) : AckSequence :=
  if s.val = 18446744073709551615 then ⟨1⟩ else ⟨s.val + 1⟩

structure ClipboardSync where
  next : AckSequence := ⟨1⟩
  autosync : Bool := true
  /-- Type the clipboard as text instead of setting it. -/
  legacyPaste : Bool := false
deriving DecidableEq, Repr

end InputRelay
