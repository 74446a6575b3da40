import InputRelay.Proofs.Session.Pinch
import InputRelay.Proofs.Session.Reports

namespace InputRelay

open Effect

namespace MouseButton

theorem flag_bits {j : ℕ} {button : MouseButton} (h : named[j]? = some button) :
    button.flag.bits = BitVec.twoPow 8 j ∧ j < 8 := by
  rcases j with _ | _ | _ | _ | _ | j <;> cases h <;> decide

theorem any_named_flag (p : MouseButton → Bool) (i : ℕ) :
    (named.any fun button ↦ p button && button.flag.bits.getLsbD i) = named[i]?.any p := by
  rw [Bool.eq_iff_iff, List.any_eq_true, Option.any_eq_true]
  simp only [Bool.and_eq_true]
  constructor
  · rintro ⟨button, hmem, hp, hbit⟩
    obtain ⟨j, hj⟩ := List.mem_iff_getElem?.mp hmem
    rw [(flag_bits hj).1, BitVec.getLsbD_twoPow] at hbit
    simp only [Bool.and_eq_true, decide_eq_true_eq] at hbit
    obtain ⟨-, rfl⟩ := hbit
    exact ⟨button, hj, hp⟩
  · rintro ⟨button, hbutton, hp⟩
    obtain ⟨hbits, hi⟩ := flag_bits hbutton
    refine ⟨button, List.mem_of_getElem? hbutton, hp, ?_⟩
    rw [hbits, BitVec.getLsbD_twoPow]
    simpa using hi

end MouseButton

namespace MouseBindings

theorem contains_flag {j : ℕ} {button : MouseButton} (h : MouseButton.named[j]? = some button)
    (held : MouseButtons) : held.contains button.flag = held.bits.getLsbD j := by
  obtain ⟨hbits, hj⟩ := MouseButton.flag_bits h
  have hne : BitVec.twoPow 8 j ≠ 0#8 := by
    intro hzero
    have hbit := congrArg (BitVec.getLsbD · j) hzero
    simp [hj] at hbit
  have heq : held.contains button.flag = (held.bits &&& button.flag.bits == button.flag.bits) := by
    rw [MouseButtons.contains, Bool.eq_iff_iff, beq_iff_eq, beq_iff_eq]
    exact Iff.of_eq (MouseButtons.mk.injEq ..)
  rw [heq, hbits, BitVec.and_twoPow]
  cases held.bits.getLsbD j <;> simp [hne.symm]

theorem getLsbD_addFlag {j : ℕ} {button : MouseButton} (h : MouseButton.named[j]? = some button)
    (p : Prop) [Decidable p] (held out : MouseButtons) (i : ℕ) :
    (if p ∧ held.contains button.flag then out ||| button.flag else out).bits.getLsbD i =
      (out.bits.getLsbD i ||
        (decide p && (held.bits.getLsbD i && button.flag.bits.getLsbD i))) := by
  have hflag : button.flag.bits.getLsbD i = decide (j = i) := by
    obtain ⟨hbits, hj⟩ := MouseButton.flag_bits h
    rw [hbits, BitVec.getLsbD_twoPow]
    simp [hj]
  rw [contains_flag h, hflag]
  split
  · rename_i hadd
    rw [decide_eq_true hadd.1, Bool.true_and, ← hflag]
    refine (BitVec.getLsbD_or : (out.bits ||| button.flag.bits).getLsbD i = _).trans ?_
    rw [hflag]
    by_cases hi : j = i
    · rw [← hi, hadd.2, Bool.true_and]
    · simp [hi]
  · rename_i hadd
    by_cases hi : j = i
    · subst hi
      cases hbit : held.bits.getLsbD j with
      | false => simp
      | true => simp [show ¬p from fun hp ↦ hadd ⟨hp, hbit⟩]
    · simp [hi]

theorem getLsbD_foldl_addFlag (b : MouseBindings) (held out : MouseButtons)
    (buttons : List MouseButton) (h : ∀ button ∈ buttons, button ∈ MouseButton.named) (i : ℕ) :
    (buttons.foldl (fun out button ↦
        if b.get button = .click ∧ held.contains button.flag then out ||| button.flag else out)
        out).bits.getLsbD i =
      (out.bits.getLsbD i || buttons.any fun button ↦
        b.get button == .click && (held.bits.getLsbD i && button.flag.bits.getLsbD i)) := by
  induction buttons generalizing out with
  | nil => exact (Bool.or_false _).symm
  | cons button buttons ih =>
    obtain ⟨hbutton, hbuttons⟩ := List.forall_mem_cons.mp h
    obtain ⟨j, hj⟩ := List.mem_iff_getElem?.mp hbutton
    rw [List.foldl_cons, ih _ hbuttons, getLsbD_addFlag hj, List.any_cons, Bool.or_assoc]
    rfl

/-- A held button stays held if its clicks reach the device. No other bit is kept. -/
theorem getLsbD_forwarded (b : MouseBindings) (held : MouseButtons) (i : ℕ) :
    (b.forwarded held).bits.getLsbD i =
      (held.bits.getLsbD i && MouseButton.named[i]?.any (b.get · == .click)) := by
  have hleft : (held &&& .left).bits.getLsbD i =
      (b.get .left == .click && (held.bits.getLsbD i && MouseButton.left.flag.bits.getLsbD i)) :=
    BitVec.getLsbD_and
  have hrows := b.getLsbD_foldl_addFlag held (held &&& .left) [.right, .middle, .x1, .x2]
    (by decide) i
  rw [hleft] at hrows
  have hall : (b.forwarded held).bits.getLsbD i = MouseButton.named.any fun button ↦
      b.get button == .click && (held.bits.getLsbD i && button.flag.bits.getLsbD i) := hrows
  simp only [Bool.and_left_comm _ (held.bits.getLsbD i)] at hall
  rw [hall, ← List.and_any_distrib_left, MouseButton.any_named_flag]

end MouseBindings

variable {κ : Type} [CommandSink κ]

namespace Turn

theorem push_eq (s : Session κ) (c : Command) : ∃ channel pushed,
    Turn.push ⟨s, []⟩ c = ⟨{ s with channel }, pushed⟩ ∧ pushed.length ≤ 1 ∧
      ∀ e ∈ pushed, e.isPush = true := by
  rcases attempt_cases ⟨s, []⟩ c with ⟨-, h⟩ | ⟨channel, verdict, -, h⟩ <;> rw [push, h]
  · exact ⟨s.channel, [], rfl, Nat.zero_le 1, List.forall_mem_nil _⟩
  · exact ⟨some channel, [.push c verdict], rfl, Nat.le_refl 1, List.forall_mem_singleton.mpr rfl⟩

theorem click_of_bound {s : Session κ} {e : MouseClick} (htouch : e.fromTouch = false)
    (hchannel : s.channel.isSome = true) (hpaused : s.isPaused = false)
    (hclick : s.bindings.get e.button ≠ .click) (hauto : s.bindings.get e.button ≠ .auto) :
    Turn.click ⟨s, []⟩ e = Turn.runBinding ⟨s, []⟩ e (s.bindings.get e.button) := by
  simp [click, htouch, hchannel, hpaused, hclick, hauto]

theorem click_of_fromTouch {s : Session κ} {e : MouseClick} (h : e.fromTouch = true) :
    Turn.click ⟨s, []⟩ e = ⟨s, []⟩ := by
  simp [click, h]

theorem motion_of_fromTouch {s : Session κ} {e : MouseMotion} (h : e.fromTouch = true) :
    Turn.motion ⟨s, []⟩ e = ⟨s, []⟩ := by
  simp [motion, h]

end Turn

namespace Session

variable {config : Config} {c : Collaborators κ} {log : List (Record κ)} {s : Session κ}

omit [CommandSink κ] in
theorem handsOn_iff (hchannel : s.channel.isSome = true) (hpointer : s.pointer.isSome = true)
    (hpaused : s.isPaused = false) {e : MouseClick} (hauto : s.bindings.get e.button ≠ .auto) :
    s.handsOn e = true ↔ e.fromTouch = false ∧ s.bindings.get e.button = .click ∧
      Turn.isBorderClick s e = false := by
  simp [handsOn, hchannel, hpointer, hpaused, hauto, and_assoc]

omit [CommandSink κ] in
theorem handsOn_of_reported {e : Event} {position : Position} {action : ButtonState}
    {button : MouseButton} {id : PointerId} {held : MouseButtons}
    (h : s.reported e = some (.click position action button id held)) :
    ∃ click, e = .click click ∧ s.handsOn click = true ∧ click.button = button := by
  cases e with
  | click click =>
    obtain ⟨hon, h⟩ := Option.ite_none_right_eq_some.mp h
    cases h
    exact ⟨click, rfl, hon, rfl⟩
  | motion e =>
    obtain ⟨-, h⟩ := Option.ite_none_left_eq_some.mp h
    cases h
  | wheel e | touch e =>
    obtain ⟨-, h⟩ := Option.ite_none_right_eq_some.mp h
    cases h
  | _ => cases h

/-- A button is handed on if it is bound to clicks, and only then is it told to be held. Any other
button sends one command at most. -/
theorem clicks_follow_bindings (hrun : Run config c log s) {around : Collaborators κ}
    (hchannel : around.channel.isSome = true) (hpointer : around.pointer.isSome = true)
    (hpaused : around.screen.paused = false) :
    let now := s.amid around
    (∀ e : MouseClick, e.fromTouch = false → config.bindings.get e.button ≠ .click →
      ∃ channel pushed, now.handle (.click e) = ⟨{ now with channel }, pushed⟩ ∧
        pushed.length ≤ 1 ∧ ∀ effect ∈ pushed, effect.isPush = true) ∧
    (∀ e : MouseClick, (∃ told, .pointer told ∈ (now.handle (.click e)).effects) ↔
      e.fromTouch = false ∧ config.bindings.get e.button = .click ∧
        Turn.isBorderClick now e = false) ∧
    (∀ call position action button id held,
      .pointer (.click position action button id held) ∈ (now.call call).effects →
        config.bindings.get button = .click) ∧
    (∀ call told position held, .pointer told ∈ (now.call call).effects →
      told.mouse? = some (position, held) → ∃ e point buttons, call = .event e ∧
        e.mouse? = some (point, buttons) ∧ ∀ i, held.bits.getLsbD i =
          (buttons.bits.getLsbD i &&
            MouseButton.named[i]?.any (config.bindings.get · == .click))) ∧
    (∀ e : MouseClick, e.fromTouch = true → now.handle (.click e) = ⟨now, []⟩) ∧
    ∀ e : MouseMotion, e.fromTouch = true → now.handle (.motion e) = ⟨now, []⟩ := by
  intro now
  have hbindings : now.bindings = config.bindings := hrun.settings_eq.1
  have hauto : ∀ button, config.bindings.get button ≠ .auto :=
    MouseBindings.resolve_ne_auto _ _ _ _ _
  have hpaused : now.isPaused = false := hpaused
  have hon : ∀ e, now.handsOn e = true ↔ e.fromTouch = false ∧
      config.bindings.get e.button = .click ∧ Turn.isBorderClick now e = false := by
    rw [← hbindings] at hauto ⊢
    exact fun e ↦ handsOn_iff hchannel hpointer hpaused (hauto e.button)
  refine ⟨fun e htouch hclick ↦ ?_, fun e ↦ ?_, fun call position action button id held h ↦ ?_,
    fun call told position held h hmouse ↦ ?_, fun e ↦ Turn.click_of_fromTouch,
    fun e ↦ Turn.motion_of_fromTouch⟩
  · rw [show now.handle (.click e) = Turn.click ⟨now, []⟩ e from rfl,
      Turn.click_of_bound htouch hchannel hpaused (hbindings ▸ hclick) (hbindings ▸ hauto e.button)]
    rcases Turn.runBinding_cases ⟨now, []⟩ e (now.bindings.get e.button) with h | ⟨c, h⟩ <;> rw [h]
    · exact ⟨now.channel, [], rfl, Nat.zero_le 1, List.forall_mem_nil _⟩
    · exact Turn.push_eq now c
  · simp only [mem_handle_iff_reported, reported, ← hon]
    simp
  · obtain ⟨e, rfl, hreported⟩ := exists_reported_of_mem_call h
    obtain ⟨click, rfl, hon', hbutton⟩ := handsOn_of_reported hreported
    exact hbutton ▸ ((hon click).mp hon').2.1
  · obtain ⟨e, rfl, hreported⟩ := exists_reported_of_mem_call h
    rw [mouse?_of_reported hreported] at hmouse
    obtain ⟨⟨point, buttons⟩, hevent, hheld⟩ := Option.map_eq_some_iff.mp hmouse
    obtain ⟨-, rfl⟩ := Prod.mk.inj hheld
    refine ⟨e, point, buttons, rfl, hevent, fun i ↦ ?_⟩
    rw [hbindings, MouseBindings.getLsbD_forwarded]

theorem clicks_follow_bindings_right : ∃ (log : List (Record Channel)) (s : Session Channel),
    Run { input := { bindings := { right := .click } } } (.pointing false) log s ∧
      let now := s.amid (.pointing false)
      let press button : Event :=
        .click ⟨button, .pressed, ⟨10, 20⟩, 1, ⟨0xff#8⟩, .none, false⟩
      (∃ told, .pointer told ∈ (now.handle (press .right)).effects) ∧
        pointerCalls (now.handle (press .right)).effects =
          [.click ⟨⟨100, 100⟩, ⟨10, 20⟩⟩ .pressed .right .mouse (.left ||| .right)] ∧
        (now.handle (press .x2)).effects.map Effect.isPush = [true] ∧
        ∃ channel pushed, now.handle (press .x2) = ⟨{ now with channel }, pushed⟩ ∧
          pushed.length ≤ 1 ∧ ∀ effect ∈ pushed, effect.isPush = true := by
  have hstart : Run { input := { bindings := { right := .click } } } (.pointing false) [] _ :=
    .start rfl
  have hchannel : (Collaborators.pointing false).channel.isSome = true := rfl
  have hpaused : (Collaborators.pointing false).screen.paused = false := by decide
  obtain ⟨hbound, hclick, -⟩ := clicks_follow_bindings hstart hchannel rfl hpaused
  refine ⟨_, _, hstart, (hclick _).mpr ⟨rfl, rfl, by decide⟩, by decide,
    by decide, hbound _ rfl (by decide)⟩

end Session

end InputRelay
