import InputRelay.Proofs.Session.Recounting
import InputRelay.Proofs.Session.Pinch
import InputRelay.Proofs.Touchmap.Foremost

namespace InputRelay

def Effect.command? : Effect → Option Command
  | .push c _ => some c
  | _ => none

namespace TouchmapEngine

/-- The fingers that are down with the centers of their controls, that of the walk control first
and the others in the order of the table. -/
def heldCenters (e : TouchmapEngine) : List (PointerId × Point) :=
  (e.walk.toList.filter (·.held)).map (fun c ↦ (c.control.finger, c.control.center)) ++
    (e.controls.filter (·.held)).map fun c ↦ (c.control.finger, c.control.center)

theorem releaseAll_eq (e : TouchmapEngine) :
    e.releaseAll.1 = e.heldCenters.map fun held ↦ ⟨held.1, .up, held.2⟩ := by
  simp [releaseAll, heldCenters, Function.comp_def]

theorem heldCenters_eq_nil {e : TouchmapEngine} (h : e.hasContacts = false) :
    e.heldCenters = [] := by
  obtain ⟨walk, controls⟩ := e
  cases walk <;> simp_all [hasContacts, heldCenters, List.filter_eq_nil_iff]

theorem hasContacts_ofTouchmap (m : Touchmap) : (ofTouchmap m).hasContacts = false := by
  rw [hasContacts_eq, contacts_ofTouchmap]
  simp

end TouchmapEngine

variable {κ : Type}

namespace Session

def heldCenters (s : Session κ) : List (PointerId × Point) :=
  s.engine.elim [] (·.heldCenters)

/-- What the contacts of the loaded touchmap keep to in every session. -/
structure Steady (s : Session κ) : Prop where
  foremost : ∀ e, s.engine = some e → e.Foremost
  /-- Without a channel no touch was ever taken. -/
  idle : s.channel.isSome = false → ∀ e, s.engine = some e → e.hasContacts = false

theorem Preamble.recounted {s : Session κ} {around : Collaborators κ} {t : Turn κ}
    (h : Preamble (s.amid around) t) : s.Recounted t.session := by
  cases h with
  | counted repeats => exact fun _ ↦ ⟨repeats, rfl⟩
  | asked repeats => exact fun _ ↦ ⟨repeats, rfl⟩

theorem Steady.of_engine_none {s : Session κ} (h : s.engine = none) : s.Steady := by
  constructor <;> simp [h]

theorem Rerouted.steady {s s' : Session κ} {call : Call} (h : Rerouted s call s')
    (hchannel : s'.channel.isSome = s.channel.isSome) (hs : s.Steady) : s'.Steady := by
  cases h with
  | kept hengine _ =>
    refine ⟨fun e he ↦ hs.foremost e (hengine ▸ he), fun hnone e he ↦ ?_⟩
    exact hs.idle (hchannel ▸ hnone) e (hengine ▸ he)
  | @driven e event taken hsome he hevent hengine _ =>
    constructor
    · intro e' he'
      obtain rfl := Option.some.inj (hengine.symm.trans he')
      exact ((hs.foremost e he).react hevent).foldl_commit taken
    · intro hnone
      rw [hchannel, hsome] at hnone
      cases hnone
  | @loaded map _ hengine _ =>
    constructor
    · intro e he
      obtain rfl := Option.some.inj (hengine.symm.trans he)
      exact TouchmapEngine.foremost_ofTouchmap map
    · intro _ e he
      obtain rfl := Option.some.inj (hengine.symm.trans he)
      exact TouchmapEngine.hasContacts_ofTouchmap map
  | unloaded _ hengine _ => exact .of_engine_none hengine

end Session

variable [CommandSink κ]

theorem Session.Run.steady {config : Config} {c : Collaborators κ} {log : List (Record κ)}
    {s : Session κ} (h : Run config c log s) : s.Steady := by
  induction h with
  | start h =>
    obtain ⟨s, hs, rfl | ⟨path, rfl⟩⟩ := start_cases h
    · exact .of_engine_none hs.engine
    · refine (AsksLoad.path path).rerouted.steady ?_ (.of_engine_none hs.engine)
      exact (Turn.within_loadTouchmap ⟨s, []⟩ path).channel_isSome
  | @call log s around call h hchannel ih =>
    refine (rerouted_call (s.amid around) call).steady
      (Turn.within_call ⟨s.amid around, []⟩ call).channel_isSome ⟨ih.foremost, fun hnone ↦ ?_⟩
    exact ih.idle (hchannel ▸ hnone)

namespace Turn

variable {t : Turn κ}

theorem command?_sendTouches {touches : List SyntheticTouch} {lost : List PointerId}
    (hchannel : t.session.channel.isSome = true) (hnodup : (touches.map (·.finger)).Nodup)
    (hlost : ∀ u ∈ touches, u.finger ∉ lost) :
    ∃ offers, (t.sendTouches lost touches).effects = t.effects ++ offers ∧
      offers.map Effect.command? =
        touches.map fun u ↦ some (t.touchCommand u.finger u.action u.point) := by
  induction touches generalizing t lost with
  | nil => exact ⟨[], by simp [sendTouches], rfl⟩
  | cons u touches ih =>
    obtain ⟨hfirst, hnodup⟩ := List.nodup_cons.mp hnodup
    obtain ⟨hu, hlost⟩ := List.forall_mem_cons.mp hlost
    obtain ⟨channel, verdict, htouch⟩ := exists_touch hchannel u.finger u.action u.point
    have hlost' : ∀ v ∈ touches, v.finger ∉ u.finger :: lost := by
      intro v hv hmem
      rcases List.mem_cons.mp hmem with heq | hmem
      · exact hfirst (List.mem_map.mpr ⟨v, hv, heq⟩)
      · exact hlost v hv hmem
    unfold sendTouches
    rw [if_neg (by simpa using hu), htouch]
    have hrest : ∀ {t' : Turn κ} {lost' : List PointerId}, t'.session.channel.isSome = true →
        t'.session.screen = t.session.screen →
        t'.effects = t.effects ++ [.push (t.touchCommand u.finger u.action u.point) verdict] →
        (∀ v ∈ touches, v.finger ∉ lost') →
        ∃ offers, (t'.sendTouches lost' touches).effects = t.effects ++ offers ∧
          offers.map Effect.command? = (u :: touches).map fun u ↦
            some (t.touchCommand u.finger u.action u.point) := by
      intro t' lost' hchannel' hscreen heffects hlost'
      obtain ⟨offers, hoffers, hcommands⟩ := ih hchannel' hnodup hlost'
      refine ⟨.push (t.touchCommand u.finger u.action u.point) verdict :: offers, ?_, ?_⟩
      · rw [hoffers, heffects, List.append_assoc, List.singleton_append]
      · rw [List.map_cons, List.map_cons, hcommands]
        simp [Effect.command?, touchCommand, hscreen]
    cases verdict with
    | ok => exact @hrest (commit _ u) _ rfl rfl rfl hlost
    | error e => exact hrest rfl rfl rfl hlost'

theorem command?_releaseContacts {t : Turn κ} (h : t.session.Steady) :
    ∃ offers, t.releaseContacts.effects = t.effects ++ offers ∧
      offers.map Effect.command? = t.session.heldCenters.map fun held ↦
        some (t.touchCommand held.1 .up held.2) := by
  unfold releaseContacts
  cases hengine : t.session.engine with
  | none => exact ⟨[], by simp, by simp [Session.heldCenters, hengine]⟩
  | some engine =>
    have hheld : t.session.heldCenters = engine.heldCenters := by
      rw [Session.heldCenters, hengine, Option.elim_some]
    cases hchannel : t.session.channel.isSome with
    | true =>
      obtain ⟨offers, hoffers, hcommands⟩ := command?_sendTouches
        (t := { t with session.engine := some engine.releaseAll.2 }) hchannel
        (h.foremost engine hengine).nodup_map_finger
        (fun u _ ↦ (List.not_mem_nil : u.finger ∉ []))
      refine ⟨offers, hoffers, ?_⟩
      rw [hcommands, engine.releaseAll_eq, List.map_map, hheld]
      rfl
    | false =>
      have hnone := TouchmapEngine.heldCenters_eq_nil (h.idle hchannel engine hengine)
      dsimp only
      rw [engine.releaseAll_eq, hheld, hnone]
      exact ⟨[], (List.append_nil _).symm, rfl⟩

theorem touchmap_releaseContacts (t : Turn κ) :
    t.releaseContacts.session.touchmap = t.session.touchmap := by
  unfold releaseContacts
  split
  · rfl
  · rename_i engine hengine
    rw [touchmap_sendTouches]
    simp [Session.touchmap, hengine, TouchmapEngine.touchmap_releaseAll]

end Turn

namespace Session

/-- Another touchmap, or none, takes the place of the loaded one. -/
structure Replacement (s : Session κ) (asked t : Turn κ) (engine : Option TouchmapEngine)
    (forwards : Bool) : Prop where
  preamble : Preamble s asked
  lifts : ∃ offers, asked.releaseContacts.effects = asked.effects ++ offers ∧
    offers.map Effect.command? = s.heldCenters.map fun held ↦
      some (.injectTouch .up held.1 ⟨s.screen.frame, held.2⟩ .zero .none .none)
  before : asked.releaseContacts.session.touchmap = s.touchmap ∧
    asked.releaseContacts.session.forwards = s.forwards
  switch : t = { asked.releaseContacts with
    session.engine := engine
    session.forwards := forwards }
  idle : t.session.heldCenters = []

theorem replacement_of_steady {s : Session κ} {asked : Turn κ} (hs : s.Steady)
    (hasked : Preamble s asked) {engine : Option TouchmapEngine}
    (hengine : ∀ e, engine = some e → e.hasContacts = false) (forwards : Bool) :
    Replacement s asked (asked.switchEngine engine forwards) engine forwards where
  preamble := hasked
  lifts := by
    cases hasked <;> exact Turn.command?_releaseContacts ⟨hs.foremost, hs.idle⟩
  before := by
    refine ⟨?_, ?_⟩
    · rw [Turn.touchmap_releaseContacts]
      cases hasked <;> rfl
    · rw [asked.within_releaseContacts.same (p := .forwards) id]
      cases hasked <;> rfl
  switch := rfl
  idle := by
    cases engine with
    | none => rfl
    | some e => exact TouchmapEngine.heldCenters_eq_nil (hengine e rfl)

/-- A touchmap that cannot be loaded changes nothing. One that can be loaded takes the place of the
old one after all that it held is lifted, and so does the absence of one. -/
theorem replacing_all_or_nothing {config : Config} {c : Collaborators κ} {log : List (Record κ)}
    {s : Session κ} (hrun : Run config c log s) {around : Collaborators κ}
    (hchannel : around.channel.isSome = s.channel.isSome) (call : Call) :
    (∀ failure, (s.amid around).AsksLoad call (.error failure) →
        Preamble (s.amid around) ((s.amid around).call call) ∧
        ∀ later, List.Forall₂ (List.Forall₂ Effect.Alike) (s.outputs later)
          (((s.amid around).call call).session.outputs later)) ∧
      (∀ map, (s.amid around).AsksLoad call (.ok map) → ∃ asked,
        Replacement (s.amid around) asked ((s.amid around).call call)
          (some (.ofTouchmap map)) false) ∧
      ((s.amid around).AsksUnload call → ∃ asked,
        Replacement (s.amid around) asked ((s.amid around).call call) none true) := by
  have hsteady : (s.amid around).Steady :=
    ⟨hrun.steady.foremost, fun hnone ↦ hrun.steady.idle (hchannel ▸ hnone)⟩
  refine ⟨?_, ?_, ?_⟩
  · intro failure hload
    exact ⟨hload.call_error, hload.call_error.recounted.outputs⟩
  · intro map hload
    obtain ⟨asked, hasked, hcall⟩ := hload.call_ok
    refine ⟨asked, hcall ▸ replacement_of_steady hsteady hasked ?_ false⟩
    rintro e ⟨⟩
    exact TouchmapEngine.hasContacts_ofTouchmap map
  · intro hunload
    obtain ⟨asked, hasked, hcall⟩ := hunload.call_eq
    have hengine : ∀ e, (none : Option TouchmapEngine) = some e → e.hasContacts = false := nofun
    have hnone := replacement_of_steady hsteady hasked hengine true
    exact ⟨asked, hcall ▸ hnone⟩

def Collaborators.cancelling : Collaborators Channel :=
  { Collaborators.recording .oneButton false with
    keys := some {}
    picker := some [none] }

theorem replacing_all_or_nothing_held : ∃ (log : List (Record Channel)) (s : Session Channel),
    Run { gamepad := { forward := false, touchmap := some "map" } } (.recording .oneButton false)
        log s ∧
      s.heldCenters = [(.firstMapped, ⟨1, 2⟩)] ∧
      Preamble (s.amid .cancelling) ((s.amid .cancelling).call
        (.event (.key { key := .keyT, state := .pressed, mods := .lalt }))) ∧
      ∃ asked, Replacement (s.amid .cancelling) asked ((s.amid .cancelling).call .unload) none
        true := by
  have hstart : Run { gamepad := { forward := false, touchmap := some "map" } }
    (.recording .oneButton false) [] _ := .start rfl
  have hdown := hstart.call (.recording .oneButton false)
    (.event (.padButton ⟨⟨0⟩, .a, .pressed⟩)) (by decide +kernel)
  have hreplacing :=
    @replacing_all_or_nothing _ _ _ _ _ _ hdown .cancelling (by decide +kernel)
  refine ⟨_, _, hdown, by decide +kernel, ?_, (hreplacing .unload).2.2 .direct⟩
  exact ((hreplacing _).1 .cancelled (.shortcut (by decide +kernel))).1

end Session

end InputRelay
