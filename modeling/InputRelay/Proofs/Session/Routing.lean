import InputRelay.Proofs.Session.Requests

namespace InputRelay

open Deed

/-- The command that hands a controller event on as it is. -/
def Event.raw? : Event → Option Command
  | .axis e => some (.injectControllerAxis e)
  | .padButton e => some (.injectControllerButton e)
  | _ => none

def Command.isRaw : Command → Bool
  | .injectControllerAxis _ | .injectControllerButton _ => true
  | _ => false

namespace Effect

def isRaw : Effect → Bool
  | .push c _ => c.isRaw
  | _ => false

def IsTouchBy (fingers : List PointerId) : Effect → Prop
  | .push (.injectTouch _ finger ..) _ => finger ∈ fingers
  | _ => False

theorem isRaw_eq_false {e : Effect} (h : e.Due fun d ↦ d.Unrouted ∨ d.Replacing) :
    e.isRaw = false := by
  rcases e with ⟨c, verdict⟩ | _
  · cases c <;> first | rfl | exact (h.elim id id).elim
  all_goals rfl

theorem isTouchBy_of_due {fingers : List PointerId} {e : Effect} (hmapped : e.Due (Mapped fingers))
    (htouching : e.Due Touching) : e.IsTouchBy fingers := by
  rcases e with ⟨c, verdict⟩ | _
  · cases c <;> first | exact hmapped | exact htouching.elim
  all_goals exact htouching.elim

end Effect

variable {κ : Type}

namespace Turn

variable [CommandSink κ] (t : Turn κ)

def control (raw : Command) (event : EngineEvent) : Turn κ :=
  if t.session.forwards then t.push raw
  else match t.session.engine with
    | none => t
    | some engine =>
      { t with session.engine := some (engine.react event).2 }.sendTouches []
        (engine.react event).1

theorem axis_eq_control (e : AxisMotion) :
    t.axis e = t.control (.injectControllerAxis e) (.axis e.axis e.value) :=
  rfl

theorem padButton_eq_control (e : PadButton) : t.padButton e =
    t.control (.injectControllerButton e) (.button e.button.code e.state.isPressed) := by
  unfold padButton control
  split
  · rfl
  · cases hengine : t.session.engine with
    | none => rfl
    | some engine =>
      have hsame : { t with session.engine := some engine } = t := by rw [← hengine]
      exact congrArg (fun u : Turn κ ↦ u.sendTouches [] _) hsame.symm

theorem handle_of_raw? {e : Event} {raw : Command} (h : e.raw? = some raw)
    (hchannel : t.session.channel.isSome = true) :
    ∃ event, t.handle e = t.control raw event := by
  cases e with
  | axis e =>
    cases h
    exact ⟨.axis e.axis e.value, if_pos hchannel⟩
  | padButton e =>
    cases h
    exact ⟨_, (if_pos hchannel).trans (t.padButton_eq_control e)⟩
  | _ => cases h

theorem within_control_of_mapped (h : t.session.forwards = false) (raw : Command)
    (event : EngineEvent) :
    Within (fun d ↦ d.Touching ∧ d.Mapped t.session.mapped) t (t.control raw event) := by
  unfold control
  rw [if_neg (by simp [h])]
  split
  · exact .refl t
  · rename_i engine hengine
    rw [Session.mapped_of_engine hengine]
    refine .trans (.one (.engine t _) ⟨trivial, trivial⟩)
      (within_sendTouches_of _ ⟨trivial, trivial⟩ ?_ [])
    intro u hu _ _
    exact ⟨trivial, TouchmapEngine.finger_mem_of_mem_react event hu⟩

theorem touchmap_control (raw : Command) (event : EngineEvent) :
    (t.control raw event).session.touchmap = t.session.touchmap := by
  unfold control
  split
  · obtain ⟨channel, -, hsession⟩ := t.push_session raw
    rw [hsession]
    rfl
  split
  · rfl
  · rename_i engine hengine
    rw [touchmap_sendTouches]
    simp [Session.touchmap, hengine]

end Turn

namespace Session

/-- The ways in which a call can leave the engine of the touchmap and the forwarding flag. -/
inductive Rerouted (s : Session κ) (call : Call) (s' : Session κ) : Prop
  | kept : s'.engine = s.engine → s'.forwards = s.forwards → Rerouted s call s'
  | driven {e : TouchmapEngine} {event : EngineEvent} {taken : List SyntheticTouch} :
      s.channel.isSome = true → s.engine = some e → event ≠ .releaseAll →
      s'.engine = some (taken.foldl .commit (e.react event).2) → s'.forwards = s.forwards →
      Rerouted s call s'
  | loaded {map : Touchmap} : s.AsksLoad call (.ok map) → s'.engine = some (.ofTouchmap map) →
      s'.forwards = false → Rerouted s call s'
  | unloaded : s.AsksUnload call → s'.engine = none → s'.forwards = true → Rerouted s call s'

variable {s s' : Session κ} {call : Call}

/-- A loaded touchmap keeps controller events from being handed on as they are. -/
def Exclusive (s : Session κ) : Prop :=
  s.touchmap.isSome = true → s.forwards = false

theorem touchmap_isSome (s : Session κ) : s.touchmap.isSome = s.engine.isSome :=
  Option.isSome_map

theorem Rerouted.exclusive (h : Rerouted s call s') (hs : s.Exclusive) : s'.Exclusive := by
  intro hsome
  rw [touchmap_isSome] at hsome
  cases h with
  | kept hengine hforwards =>
    rw [hforwards]
    exact hs (by rwa [touchmap_isSome, ← hengine])
  | driven _ he _ _ hforwards =>
    rw [hforwards]
    exact hs (by rw [touchmap_isSome, he, Option.isSome_some])
  | loaded _ _ hforwards => exact hforwards
  | unloaded _ hengine _ =>
    rw [hengine] at hsome
    cases hsome

variable [CommandSink κ]

theorem Rerouted.of_within {allowed : Deed → Prop} {t : Turn κ}
    (h : Turn.Within allowed ⟨s, []⟩ t) (hengine : ¬allowed (.change .engine))
    (hforwards : ¬allowed (.change .forwards)) : Rerouted s call t.session :=
  .kept (h.same (p := .engine) hengine) (h.same (p := .forwards) hforwards)

theorem rerouted_control (hchannel : s.channel.isSome = true) (raw : Command)
    {event : EngineEvent} (hevent : event ≠ .releaseAll) :
    Rerouted s call (Turn.control ⟨s, []⟩ raw event).session := by
  unfold Turn.control
  split
  · have hpush : Turn.Within (fun deed ↦ deed = .offer raw) ⟨s, []⟩ (Turn.push ⟨s, []⟩ raw) :=
      Turn.within_push _ rfl
    exact .of_within hpush nofun nofun
  split
  · exact .kept rfl rfl
  · rename_i engine hengine
    let driven : Turn κ := ⟨{ s with engine := some (engine.react event).2 }, []⟩
    obtain ⟨taken, -, htaken⟩ := driven.exists_taken_sendTouches [] (engine.react event).1
    exact .driven hchannel hengine hevent htaken
      ((driven.within_sendTouches _ _).same (p := .forwards) id)

theorem AsksLoad.rerouted {result : Except LoadFailure Touchmap} (h : s.AsksLoad call result) :
    Rerouted s call (s.call call).session := by
  cases result with
  | error failure =>
    have hpreamble := h.call_error
    generalize s.call call = t at hpreamble ⊢
    cases hpreamble <;> exact .kept rfl rfl
  | ok map =>
    obtain ⟨t, -, hcall⟩ := h.call_ok
    rw [hcall]
    exact .loaded h rfl rfl

theorem AsksUnload.rerouted (h : s.AsksUnload call) : Rerouted s call (s.call call).session := by
  obtain ⟨t, -, hcall⟩ := h.call_eq
  rw [hcall]
  exact .unloaded h rfl rfl

theorem rerouted_call (s : Session κ) (call : Call) : Rerouted s call (s.call call).session := by
  have hcall := Turn.handled_call ⟨s, []⟩ call
  rw [Session.call]
  generalize hu : Turn.call ⟨s, []⟩ call = u at hcall ⊢
  cases hcall with
  | incidental hu => exact .of_within hu (fun h ↦ h.untouching) fun h ↦ h.unrouted
  | motion e =>
    exact .of_within (Turn.within_motion _ e) id id
  | click e => exact .of_within (Turn.within_click _ e) id id
  | axis e hchannel =>
    rw [Turn.axis_eq_control]
    exact rerouted_control hchannel _ EngineEvent.noConfusion
  | padButton e hchannel =>
    rw [Turn.padButton_eq_control]
    exact rerouted_control hchannel _ EngineEvent.noConfusion
  | load path => exact (AsksLoad.path path).rerouted
  | unload => exact AsksUnload.direct.rerouted
  | key e =>
    rcases Turn.key_request_cases ⟨s, []⟩ e with h | ⟨hruns, -⟩ | ⟨hruns, -⟩
    · exact .of_within h (fun h ↦ h.1) fun h ↦ h.2
    · exact (AsksLoad.shortcut hruns).rerouted
    · exact (AsksUnload.shortcut hruns).rerouted

theorem Run.exclusive {config : Config} {c : Collaborators κ} {log : List (Record κ)}
    (h : Run config c log s) : s.Exclusive := by
  induction h with
  | start h =>
    obtain ⟨s, hs, rfl | ⟨path, rfl⟩⟩ := start_cases h
    · intro hsome
      rw [touchmap_isSome, hs.engine] at hsome
      cases hsome
    · refine (AsksLoad.path path).rerouted.exclusive ?_
      intro hsome
      rw [touchmap_isSome, hs.engine] at hsome
      cases hsome
  | @call log s around call h hchannel ih =>
    exact (rerouted_call (s.amid around) call).exclusive ih

theorem within_call_of_mapped (hforwards : s.forwards = false) (call : Call) :
    Turn.Within (fun d ↦ d.Unrouted ∨ d.Replacing) ⟨s, []⟩ (s.call call) := by
  have hcall := Turn.handled_call ⟨s, []⟩ call
  rw [Session.call]
  generalize hu : Turn.call ⟨s, []⟩ call = u at hcall ⊢
  cases hcall with
  | incidental hu => exact hu.mono fun d hd ↦ Or.inl hd.unrouted
  | motion e => exact (Turn.within_motion _ e).mono fun d hd ↦ Or.inl (hd.pointing d).unrouted
  | click e => exact (Turn.within_click _ e).mono fun d hd ↦ Or.inl (hd.pointing d).unrouted
  | load path => exact (Turn.within_loadTouchmap _ path).mono fun d hd ↦ Or.inr hd
  | unload => exact (Turn.within_unloadTouchmap _).mono fun d hd ↦ Or.inr hd
  | axis e =>
    rw [Turn.axis_eq_control]
    exact (Turn.within_control_of_mapped _ hforwards _ _).mono fun d hd ↦ Or.inr (hd.1.replacing d)
  | padButton e =>
    rw [Turn.padButton_eq_control]
    exact (Turn.within_control_of_mapped _ hforwards _ _).mono fun d hd ↦ Or.inr (hd.1.replacing d)
  | key e =>
    have hcount : Turn.Within (fun d ↦ d.Unrouted ∨ d.Replacing) ⟨s, []⟩
        (Turn.countPress ⟨s, []⟩ e) := Turn.within_countPress _ (Or.inl trivial) e
    rcases Turn.key_request_cases ⟨s, []⟩ e with h | ⟨-, h⟩ | ⟨-, h⟩
    · exact h.mono fun d hd ↦ Or.inl hd.2
    · rw [h]
      exact hcount.trans ((Turn.within_pickTouchmap _).mono fun d hd ↦ Or.inr hd)
    · rw [h]
      exact hcount.trans ((Turn.within_unloadTouchmap _).mono fun d hd ↦ Or.inr hd)

def NeverUnloads (s : Session κ) : List (Collaborators κ × Call) → Prop
  | [] => True
  | (around, call) :: later => ¬(s.amid around).AsksUnload call ∧
      ((s.amid around).call call).session.NeverUnloads later

theorem isRaw_outputs (hforwards : s.forwards = false) {later : List (Collaborators κ × Call)}
    (hlater : s.NeverUnloads later) :
    ∀ effects ∈ s.outputs later, ∀ e ∈ effects, e.isRaw = false := by
  induction later generalizing s with
  | nil => exact List.forall_mem_nil _
  | cons next later ih =>
    obtain ⟨around, call⟩ := next
    obtain ⟨hkept, hlater⟩ := hlater
    have hamid : (s.amid around).forwards = false := hforwards
    refine List.forall_mem_cons.mpr ⟨?_, ih ?_ hlater⟩
    · intro e he
      exact Effect.isRaw_eq_false ((within_call_of_mapped hamid call).due_of_mem he)
    · cases rerouted_call (s.amid around) call with
      | kept _ h => exact h.trans hamid
      | driven _ _ _ _ h => exact h.trans hamid
      | loaded _ _ h => exact h
      | unloaded h _ _ => exact absurd h hkept

/-- What becomes of a controller event: its raw command is offered, it moves fingers of the
touchmap, or it is dropped. -/
structure Fate (s : Session κ) (raw : Command) (t : Turn κ) : Prop where
  forwarded : s.forwards = true → ∀ channel, s.channel = some channel →
    t = ⟨{ s with channel := some (CommandSink.push channel raw).2 },
      [.push raw (CommandSink.push channel raw).1]⟩
  mapped : ∀ map, s.touchmap = some map →
    t.session = { s with channel := t.session.channel, engine := t.session.engine } ∧
      t.session.touchmap = some map ∧ ∀ e ∈ t.effects, e.IsTouchBy map.fingers
  dropped : s.forwards = false → s.touchmap = none → t = ⟨s, []⟩

theorem fate_control (hs : s.Exclusive) (raw : Command) (event : EngineEvent) :
    Fate s raw (Turn.control ⟨s, []⟩ raw event) where
  forwarded hforwards channel hchannel := by
    simp [Turn.control, hforwards, Turn.push, Turn.attempt, hchannel, Turn.emit]
  mapped map hmap := by
    have hwithin := Turn.within_control_of_mapped ⟨s, []⟩ (hs (by rw [hmap, Option.isSome_some]))
      raw event
    rw [mapped, hmap, Option.elim_some] at hwithin
    refine ⟨(hwithin.mono fun _ hd ↦ hd.1).session_of_touching, ?_, ?_⟩
    · rw [Turn.touchmap_control, hmap]
    · intro e he
      exact Effect.isTouchBy_of_due ((hwithin.mono fun _ hd ↦ hd.2).due_of_mem he)
        ((hwithin.mono fun _ hd ↦ hd.1).due_of_mem he)
  dropped hforwards hmap := by
    have hnone : s.engine = none := Option.map_eq_none_iff.mp hmap
    simp [Turn.control, hforwards, hnone]

/-- Controller events are handed on as they are or drive the loaded touchmap, never both, and from a
load to the next unload no raw command is offered. -/
theorem controllers_routed_once {config : Config} {c : Collaborators κ} {log : List (Record κ)}
    (hrun : Run config c log s) :
    (s.touchmap.isSome = true → s.forwards = false) ∧
      (∀ (around : Collaborators κ) (e : Event) (raw : Command), around.channel.isSome = true →
        e.raw? = some raw → Fate (s.amid around) raw ((s.amid around).handle e)) ∧
      (∀ later, s.touchmap.isSome = true → s.NeverUnloads later →
        ∀ effects ∈ s.outputs later, ∀ e ∈ effects, e.isRaw = false) ∧
      ∀ (around : Collaborators κ) (call : Call) (map : Touchmap) later,
        (s.amid around).AsksLoad call (.ok map) →
        ((s.amid around).call call).session.NeverUnloads later →
        ∀ effects ∈ ((s.amid around).call call).session.outputs later, ∀ e ∈ effects,
          e.isRaw = false := by
  refine ⟨hrun.exclusive, ?_, ?_, ?_⟩
  · intro around e raw hchannel hraw
    obtain ⟨event, hhandle⟩ := Turn.handle_of_raw? ⟨s.amid around, []⟩ hraw hchannel
    rw [Session.handle, hhandle]
    exact fate_control (s := s.amid around) hrun.exclusive raw event
  · intro later hmap
    exact isRaw_outputs (hrun.exclusive hmap)
  · intro around call map later hload
    obtain ⟨t, -, hcall⟩ := hload.call_ok
    exact isRaw_outputs (by rw [hcall, Turn.switchEngine])

theorem controllers_routed_once_load : ∃ (log : List (Record Channel)) (s : Session Channel),
    Run { gamepad := { forward := true } } (.recording .oneButton false) log s ∧
      (effectsOf log).map (·.isRaw) = [true] ∧
      s.forwards = false ∧
      ∀ e ∈ ((s.amid (.recording .oneButton false)).handle
        (.padButton ⟨⟨0⟩, .a, .pressed⟩)).effects, e.IsTouchBy [.firstMapped] := by
  have hstart : Run { gamepad := { forward := true } } (.recording .oneButton false) [] _ :=
    .start rfl
  have hraw := hstart.call (.recording .oneButton false)
    (.event (.padButton ⟨⟨0⟩, .a, .pressed⟩)) (by decide)
  have hload := hraw.call (.recording .oneButton false) (.load "map") (by decide)
  have hfates := controllers_routed_once hload
  refine ⟨_, _, hload, by decide +kernel, hfates.1 (by decide +kernel), ?_⟩
  have hfate := hfates.2.1 (.recording .oneButton false) (.padButton ⟨⟨0⟩, .a, .pressed⟩) _ rfl rfl
  exact (hfate.mapped ⟨none, [⟨ControllerButton.a.code, ⟨1, 2⟩, .button, .firstMapped⟩]⟩
    (by decide +kernel)).2.2

end Session

end InputRelay
