import InputRelay.Command

namespace InputRelay

inductive PushError
  | queueFull | disconnected
deriving DecidableEq, Repr

def PushError.message : PushError → String
  | queueFull => "command queue is full"
  | disconnected => "command channel disconnected"

class CommandSink (κ : Type) where
  push : κ → Command → Except PushError Unit × κ

/-- A channel to the device. A recorder keeps what it takes; a queue holds commands until they
are received. -/
inductive Channel
  | recorder (taken : List Command) (failing : Bool)
  | queue (capacity : Option Nat) (pending : List Command) (closed : Bool)
deriving DecidableEq, Repr

namespace Channel

def isFull : Option Nat → List Command → Bool
  | some n, pending => decide (n ≤ pending.length)
  | none, _ => false

def push : Channel → Command → Except PushError Unit × Channel
  | recorder taken failing, c =>
    if failing then (.error .queueFull, recorder taken failing)
    else (.ok (), recorder (taken ++ [c]) failing)
  | queue capacity pending closed, c =>
    if closed then (.error .disconnected, queue capacity pending closed)
    else if isFull capacity pending then (.error .queueFull, queue capacity pending closed)
    else (.ok (), queue capacity (pending ++ [c]) closed)

instance : CommandSink Channel := ⟨push⟩

def receive : Channel → Option Command × Channel
  | queue capacity (c :: pending) closed => (some c, queue capacity pending closed)
  | channel => (none, channel)

def close : Channel → Channel
  | queue capacity _ _ => queue capacity [] true
  | channel => channel

def setFailing (failing : Bool) : Channel → Channel
  | recorder taken _ => recorder taken failing
  | channel => channel

def drain : Channel → List Command × Channel
  | recorder taken failing => (taken, recorder [] failing)
  | queue capacity pending closed => (pending, queue capacity [] closed)

end Channel

end InputRelay
