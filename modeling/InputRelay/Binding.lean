import InputRelay.Mouse

namespace InputRelay

inductive MouseBinding
  | auto | click | back | home | appSwitch | expandNotificationPanel | disabled
deriving DecidableEq, Repr, Inhabited

instance : Named MouseBinding where
  all := [.auto, .click, .back, .home, .appSwitch, .expandNotificationPanel, .disabled]
  name
    | .auto => "Auto"
    | .click => "Click"
    | .back => "Back"
    | .home => "Home"
    | .appSwitch => "AppSwitch"
    | .expandNotificationPanel => "ExpandNotificationPanel"
    | .disabled => "Disabled"

/-- The bindings of the four secondary buttons. The left button always clicks. -/
structure MouseBindings where
  right : MouseBinding := .back
  middle : MouseBinding := .home
  click4 : MouseBinding := .appSwitch
  click5 : MouseBinding := .expandNotificationPanel
deriving DecidableEq, Repr, Inhabited

def MouseBinding.orElse (binding default : MouseBinding) : MouseBinding :=
  if binding = .auto then default else binding

theorem MouseBinding.orElse_ne_auto (binding : MouseBinding) {default : MouseBinding}
    (h : default ≠ .auto) : binding.orElse default ≠ .auto := by
  unfold orElse
  split <;> assumption

namespace MouseBindings

/-- Replace `auto` by the default of its button, or all four by `click`. -/
def resolve (right middle click4 click5 : MouseBinding) (forwardAll : Bool) : MouseBindings :=
  if forwardAll then ⟨.click, .click, .click, .click⟩
  else
    let default : MouseBindings := {}
    ⟨right.orElse default.right, middle.orElse default.middle, click4.orElse default.click4,
      click5.orElse default.click5⟩

def get (b : MouseBindings) : MouseButton → MouseBinding
  | .left => .click
  | .right => b.right
  | .middle => b.middle
  | .x1 => b.click4
  | .x2 => b.click5
  | .other _ => .disabled

def hasSecondaryClick (b : MouseBindings) : Bool :=
  [b.right, b.middle, b.click4, b.click5].contains .click

def forwarded (b : MouseBindings) (held : MouseButtons) : MouseButtons :=
  [(MouseButtons.right, b.right), (.middle, b.middle), (.x1, b.click4), (.x2, b.click5)].foldl
    (fun out (flag, binding) ↦ if binding = .click ∧ held.contains flag then out ||| flag else out)
    (held &&& .left)

theorem resolve_ne_auto (right middle click4 click5 : MouseBinding) (forwardAll : Bool)
    (button : MouseButton) :
    (resolve right middle click4 click5 forwardAll).get button ≠ .auto := by
  cases forwardAll with
  | true => cases button <;> simp [resolve, get]
  | false =>
    cases button with
    | left | other _ => simp [get]
    | right | middle | x1 | x2 => exact MouseBinding.orElse_ne_auto _ (by decide)

end MouseBindings

end InputRelay
