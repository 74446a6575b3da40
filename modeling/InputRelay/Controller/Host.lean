import InputRelay.Controller

namespace InputRelay

/-- The side that owns the controllers' handles. The device with index `n` opens as controller
`n + 1`. -/
structure ControllerHost where
  opened : List ControllerId := []
  closed : List ControllerId := []
  refuses : Bool := false
deriving DecidableEq, Repr, Inhabited

namespace ControllerHost

def open? (h : ControllerHost) (index : UInt32) : Option ControllerId × ControllerHost :=
  if h.refuses then (none, h)
  else
    let id : ControllerId := ⟨index + 1⟩
    (some id, { h with opened := h.opened ++ [id] })

def close (h : ControllerHost) (id : ControllerId) : ControllerHost :=
  { h with opened := h.opened.filter (· != id), closed := h.closed ++ [id] }

end ControllerHost

end InputRelay
