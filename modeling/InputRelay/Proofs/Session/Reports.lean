import InputRelay.Proofs.Session.History

namespace InputRelay

open Deed

/-- Where an event finds the mouse in the window, and the buttons that it holds. -/
def Event.mouse? : Event → Option (Point × MouseButtons)
  | .motion e => some (e.point, e.held)
  | .click e => some (e.point, e.held)
  | .wheel e => some (e.point, e.held)
  | _ => none

def PointerCall.mouse? : PointerCall → Option (Position × MouseButtons)
  | .motion position _ _ _ held => some (position, held)
  | .click position _ _ _ held => some (position, held)
  | .scroll position _ _ held => some (position, held)
  | .touch .. => none

namespace Effect

def pointerCall? : Effect → Option PointerCall
  | .pointer call => some call
  | _ => none

def pointerCalls (effects : List Effect) : List PointerCall :=
  effects.filterMap pointerCall?

theorem mem_pointerCalls {effects : List Effect} {call : PointerCall} :
    call ∈ pointerCalls effects ↔ .pointer call ∈ effects := by
  constructor
  · intro h
    obtain ⟨e, he, hcall⟩ := List.mem_filterMap.mp h
    cases e with
    | pointer call' => exact Option.some.inj hcall ▸ he
    | _ => cases hcall
  · intro h
    exact List.mem_filterMap.mpr ⟨_, h, rfl⟩

theorem pointerCall?_of_family {f : Family} (hf : f ≠ .pointer) {e : Effect}
    (h : e.Due (Deed.Of f)) : e.pointerCall? = none := by
  cases e with
  | pointer call => cases f <;> first | exact absurd rfl hf | exact h.elim
  | _ => rfl

theorem pointerCall?_of_fingering {e : Effect} (h : e.Due Deed.Fingering) :
    e.pointerCall? = none := by
  cases e with
  | pointer call => exact h.elim
  | _ => rfl

end Effect

open Effect

variable {κ : Type}

namespace Session

def handsOn (s : Session κ) (e : MouseClick) : Bool :=
  !e.fromTouch &&
    !(s.channel.isSome && s.bindings.get e.button != .click && s.bindings.get e.button != .auto) &&
    !Turn.isBorderClick s e && s.pointer.isSome && !s.isPaused

def reported (s : Session κ) : Event → Option PointerCall
  | .motion e =>
    if e.fromTouch || s.isPaused || s.pointer.isNone then none
    else some (.motion (s.position e.point) s.pointerId e.xrel e.yrel
      (s.bindings.forwarded e.held))
  | .click e =>
    if s.handsOn e then some (.click (s.position e.point) e.state e.button s.pointerId
      (s.bindings.forwarded e.held))
    else none
  | .wheel e =>
    if !s.isPaused && s.pointer.any (·.supportsScroll) then
      some (.scroll (s.position e.point) (e.horizontal.clamp .negOne .one)
        (e.vertical.clamp .negOne .one) (s.bindings.forwarded e.held))
    else none
  | .touch e =>
    if !s.isPaused && s.pointer.any (·.supportsTouch) then
      some (.touch ⟨s.screen.frame, s.screen.drawableToFrame
        ⟨Turn.drawablePixel e.x s.screen.drawable.width,
          Turn.drawablePixel e.y s.screen.drawable.height⟩⟩ e.action ⟨e.finger⟩ e.pressure)
    else none
  | _ => none

/-- The mouse is where the event found it, and holds those of its buttons that are forwarded. -/
theorem mouse?_of_reported {s : Session κ} {e : Event} {call : PointerCall}
    (h : s.reported e = some call) :
    call.mouse? =
      e.mouse?.map fun (point, held) ↦ (s.position point, s.bindings.forwarded held) := by
  cases e with
  | motion e =>
    obtain ⟨-, h⟩ := Option.ite_none_left_eq_some.mp h
    cases h
    rfl
  | click e | wheel e | touch e =>
    obtain ⟨-, h⟩ := Option.ite_none_right_eq_some.mp h
    cases h
    rfl
  | _ => cases h

end Session

namespace Turn

variable [CommandSink κ] (t : Turn κ)

theorem pointerCalls_push (c : Command) :
    pointerCalls (t.push c).effects = pointerCalls t.effects := by
  rcases attempt_cases t c with ⟨-, h⟩ | ⟨channel, verdict, -, h⟩ <;> rw [push, h]
  simp [pointerCalls, pointerCall?, emit]

theorem runBinding_cases (e : MouseClick) (binding : MouseBinding) :
    t.runBinding e binding = t ∨ ∃ c, t.runBinding e binding = t.push c := by
  cases binding with
  | click | auto | disabled => exact Or.inl rfl
  | back | home | appSwitch | expandNotificationPanel =>
    simp only [runBinding]
    split
    · exact Or.inr ⟨_, rfl⟩
    · exact Or.inl rfl

theorem pointerCalls_of_fingering {t t' : Turn κ} (h : Within Fingering t t') :
    pointerCalls t'.effects = pointerCalls t.effects :=
  h.filterMap_eq fun _ ↦ pointerCall?_of_fingering

omit [CommandSink κ] in
theorem pointerCalls_emit (call : PointerCall) :
    pointerCalls (t.emit (.pointer call)).effects = pointerCalls t.effects ++ [call] :=
  List.filterMap_append

theorem handsOn_cases (e : MouseClick) :
    (t.session.handsOn e = true ∧ t.click e = t.forwardClick e) ∨
      (t.session.handsOn e = false ∧ (t.click e = t ∨ (∃ c, t.click e = t.push c) ∨
        t.click e = { t with
          session.screen.resizesToFit := t.session.screen.resizesToFit + 1 })) := by
  simp only [click]
  split
  · rename_i htouch
    exact Or.inr ⟨by simp [Session.handsOn, htouch], Or.inl rfl⟩
  rename_i htouch
  split
  · rename_i hbound
    refine Or.inr ⟨?_, (t.runBinding_cases e _).imp_right Or.inl⟩
    simp only [Bool.and_eq_true] at hbound
    obtain ⟨⟨⟨hchannel, -⟩, hclick⟩, hauto⟩ := hbound
    simp [Session.handsOn, hchannel, hclick, hauto]
  rename_i hbound
  split
  · rename_i hborder
    refine Or.inr ⟨by simp [Session.handsOn, hborder], ?_⟩
    split
    · exact Or.inr (Or.inr rfl)
    · exact Or.inl rfl
  rename_i hborder
  split
  · rename_i hidle
    refine Or.inr ⟨?_, Or.inl rfl⟩
    rcases Bool.or_eq_true_iff.mp hidle with h | h
    · simp [Session.handsOn, Option.isNone_iff_eq_none.mp h]
    · simp [Session.handsOn, h]
  · rename_i hidle
    refine Or.inl ⟨?_, rfl⟩
    simp only [Bool.or_eq_true, not_or, Bool.not_eq_true, Option.isNone_eq_false_iff] at hidle
    obtain ⟨hpointer, hpaused⟩ := hidle
    rw [hpaused, Bool.not_false, Bool.and_true, Bool.not_eq_true] at hbound
    simp [Session.handsOn, htouch, hborder, hpointer, hpaused, hbound]

theorem pointerCalls_motion (e : MouseMotion) : pointerCalls (t.motion e).effects =
    pointerCalls t.effects ++ (t.session.reported (.motion e)).toList := by
  simp only [motion, Session.reported]
  split
  · exact (List.append_nil _).symm
  · rw [pointerCalls_of_fingering (within_moveFinger _ e.point), pointerCalls_emit]
    rfl

theorem pointerCalls_click (e : MouseClick) : pointerCalls (t.click e).effects =
    pointerCalls t.effects ++ (t.session.reported (.click e)).toList := by
  simp only [Session.reported]
  rcases t.handsOn_cases e with ⟨hon, h⟩ | ⟨hon, h⟩ <;> rw [hon]
  · have hforward : Within Fingering
        (t.emit (.pointer (.click (t.session.position e.point) e.state e.button
          t.session.pointerId (t.session.bindings.forwarded e.held)))) (t.forwardClick e) := by
      simp only [forwardClick]
      split
      · exact within_updateFinger _ e
      · exact .refl _
    rw [h, pointerCalls_of_fingering hforward, pointerCalls_emit]
    rfl
  · rw [if_neg Bool.false_ne_true, Option.toList_none, List.append_nil]
    rcases h with h | ⟨c, h⟩ | h <;> rw [h]
    exact t.pointerCalls_push c

/-- An event of any kind has the pointer processor told just what is reported of it. -/
theorem pointerCalls_handle (e : Event) : pointerCalls (t.handle e).effects =
    pointerCalls t.effects ++ (t.session.reported e).toList := by
  cases hfamily : e.family with
  | pointer =>
    cases e with
    | motion e => exact t.pointerCalls_motion e
    | click e => exact t.pointerCalls_click e
    | wheel e | touch e =>
      simp only [handle, wheel, fingerTouch, Session.reported]
      split
      · exact t.pointerCalls_emit _
      · exact (List.append_nil _).symm
    | _ => cases hfamily
  | _ =>
    have hnone : t.session.reported e = none := by
      cases e <;> first | rfl | cases hfamily
    have hother : e.family ≠ .pointer := by simp [hfamily]
    have hwithin := t.within_handle e
    rw [hnone, Option.toList_none, List.append_nil]
    exact hwithin.filterMap_eq fun _ ↦ pointerCall?_of_family hother

end Turn

namespace Session

variable [CommandSink κ] {config : Config} {c : Collaborators κ} {log : List (Record κ)}
  {s : Session κ}

theorem mem_handle_iff_reported {e : Event} {told : PointerCall} :
    .pointer told ∈ (s.handle e).effects ↔ s.reported e = some told := by
  rw [← mem_pointerCalls, show s.handle e = Turn.handle ⟨s, []⟩ e from rfl,
    Turn.pointerCalls_handle]
  simp [pointerCalls]

theorem exists_reported_of_mem_call {call : Call} {told : PointerCall}
    (h : .pointer told ∈ (s.call call).effects) :
    ∃ e, call = .event e ∧ s.reported e = some told := by
  have hkeyboard : ∀ {t : Turn κ}, Turn.Within Replacing ⟨s, []⟩ t → .pointer told ∉ t.effects := by
    intro t ht htold
    exact ((ht.mono Replacing.of_keyboard).due_of_mem htold).elim
  cases call with
  | event e => exact ⟨e, rfl, mem_handle_iff_reported.mp h⟩
  | load path => exact (hkeyboard (Turn.within_loadTouchmap ⟨s, []⟩ path) h).elim
  | unload => exact (hkeyboard (Turn.within_unloadTouchmap ⟨s, []⟩) h).elim

theorem Run.exists_reported (hrun : Run config c log s) {told : PointerCall}
    (h : .pointer told ∈ effectsOf log) : ∃ r ∈ log, ∃ (before : List (Record κ))
      (s' : Session κ) (e : Event), Run config c before s' ∧ r.call = .event e ∧
        (s'.amid r.around).reported e = some told := by
  obtain ⟨r, hr, htold⟩ := List.mem_flatMap.mp h
  obtain ⟨before, s', -, hbefore, -, heffects⟩ := hrun.exists_of_mem hr
  obtain ⟨e, he, hreported⟩ := exists_reported_of_mem_call (heffects ▸ htold)
  exact ⟨r, hr, before, s', e, hbefore, he, hreported⟩

end Session

end InputRelay
