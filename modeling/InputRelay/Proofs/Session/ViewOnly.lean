import InputRelay.Proofs.Session.TouchStream
import InputRelay.Proofs.Session.Window

namespace InputRelay

variable {κ : Type}

structure Record.IsViewing (r : Record κ) : Prop where
  event : ∃ e, r.call = .event e
  keys : r.around.keys = none
  pointer : r.around.pointer = none

variable [CommandSink κ]

namespace Session

variable {config : Config} {c : Collaborators κ} {log : List (Record κ)} {s : Session κ}

omit [CommandSink κ] in
theorem StaysInWindow.recounted {around : Collaborators κ} {t : Turn κ}
    (h : StaysInWindow (s.amid around) t) : s.Recounted t.session := by
  obtain ⟨screen, repeats, rfl⟩ := h
  exact fun _ ↦ ⟨repeats, rfl⟩

omit [CommandSink κ] in
theorem Recounted.trans {s' s'' : Session κ} (h : s.Recounted s') (h' : s'.Recounted s'') :
    s.Recounted s'' := by
  intro around
  obtain ⟨repeats, hs'⟩ := h around
  obtain ⟨repeats', hs''⟩ := h' around
  exact ⟨repeats', by rw [hs'', hs']⟩

theorem start_of_processor (hchannel : c.channel = none)
    (hprocessor : c.keys.isSome ∨ c.pointer.isSome) :
    start config c = .error .processorsNeedChannel :=
  if_pos ⟨by rw [hchannel]; rfl, hprocessor⟩

theorem exists_start (hkeys : c.keys = none) (hpointer : c.pointer = none) :
    ∃ t, start config c = .ok t := by
  unfold start
  rw [if_neg (by simp [hkeys, hpointer])]
  exact ⟨_, rfl⟩

theorem handle_of_viewing (hchannel : s.channel = none) (hkeys : s.keys = none)
    (hpointer : s.pointer = none) (e : Event) : StaysInWindow s (s.handle e) := by
  by_cases he : e.isInput = true
  · exact IsConfined.handle (Or.inr ⟨hchannel, hkeys, hpointer⟩) he
  · have hsame : s.handle e = ⟨s, []⟩ := by
      cases e with
      | fileDrop | axis | padButton | hotPlug => exact if_neg (by simp [hchannel])
      | _ => exact absurd rfl he
    rw [hsame]
    exact .refl s

theorem Run.of_viewing (h : Run config c log s) (hchannel : c.channel = none)
    (hlog : ∀ r ∈ log, r.IsViewing) :
    effectsOf log = [] ∧ ∃ t, Session.start config c = .ok t ∧ t.session.Recounted s := by
  induction h with
  | start h => exact ⟨rfl, _, h, fun _ ↦ ⟨_, rfl⟩⟩
  | @call log s around call h hsome ih =>
    obtain ⟨hbefore, hlast⟩ := List.forall_mem_append.mp hlog
    obtain ⟨⟨e, rfl⟩, hkeys, hpointer⟩ := List.forall_mem_singleton.mp hlast
    obtain ⟨hsilent, t, ht, hkept⟩ := ih hbefore
    have hnone : around.channel = none := by
      rw [← Option.not_isSome_iff_eq_none, hsome, h.channel_isSome, hchannel]
      exact Bool.false_ne_true
    have hwindow : StaysInWindow (s.amid around) ((s.amid around).handle e) :=
      handle_of_viewing hnone hkeys hpointer e
    refine ⟨?_, t, ht, hkept.trans hwindow.recounted⟩
    rw [effectsOf_concat, hsilent]
    exact hwindow.effects_eq

/-- Without a channel there are no processors, and then a session only ever touches its window: all
else is as it was when the session had been set up. -/
theorem view_only_stays_in_window (hchannel : c.channel = none) :
    (c.keys.isSome ∨ c.pointer.isSome → start config c = .error .processorsNeedChannel) ∧
      (c.keys = none → c.pointer = none → ∃ t, start config c = .ok t ∧ t.effects = []) ∧
      ∀ log s, Run config c log s → (∀ r ∈ log, r.IsViewing) →
        effectsOf log = [] ∧ (∃ t, start config c = .ok t ∧ t.session.Recounted s) ∧
        ∀ around : Collaborators κ, around.channel = none → around.keys = none →
          around.pointer = none →
          (∀ e, StaysInWindow (s.amid around) ((s.amid around).handle e)) ∧
            ∀ action e, (s.amid around).runs action e = true → action.isLocal = true := by
  refine ⟨start_of_processor hchannel, ?_, ?_⟩
  · intro hkeys hpointer
    obtain ⟨t, ht⟩ : ∃ t, start config c = .ok t := exists_start hkeys hpointer
    exact ⟨t, ht, effects_start ht⟩
  · intro log s hrun hlog
    obtain ⟨hsilent, hkept⟩ := hrun.of_viewing hchannel hlog
    refine ⟨hsilent, hkept, fun around hnone hkeys hpointer ↦ ⟨?_, fun action e ↦ ?_⟩⟩
    · exact handle_of_viewing hnone hkeys hpointer
    · exact IsConfined.isLocal_of_runs (Or.inr ⟨hnone, hkeys, hpointer⟩)

def Collaborators.viewing : Collaborators Channel where
  screen := .ofFrame ⟨100, 100⟩
  files := some true
  picker := some [some "map"]
  clipboard := some ⟨.ok "text"⟩
  host := some {}
  disk := .oneButton

theorem view_only_stays_in_window_loaded : ∃ (log : List (Record Channel)) (s : Session Channel),
    Run { gamepad := { forward := false, touchmap := some "map" } } .viewing log s ∧
      log.map (·.call) = [.event (.fileDrop "a.apk"), .event (.hotPlug (.added 0)),
        .event (.padButton ⟨⟨1⟩, .a, .pressed⟩),
        .event (.key { key := .keyT, state := .pressed, mods := .lalt })] ∧
      effectsOf log = [] ∧ s.engine.map (·.controls.length) = some 1 := by
  have hstart : Run { gamepad := { forward := false, touchmap := some "map" } } .viewing [] _ :=
    .start rfl
  have hfile := hstart.call .viewing (.event (.fileDrop "a.apk")) hstart.channel_isSome.symm
  have hadded := hfile.call .viewing (.event (.hotPlug (.added 0))) hfile.channel_isSome.symm
  have hbutton := hadded.call .viewing (.event (.padButton ⟨⟨1⟩, .a, .pressed⟩))
    hadded.channel_isSome.symm
  have hpick := hbutton.call .viewing
    (.event (.key { key := .keyT, state := .pressed, mods := .lalt })) hbutton.channel_isSome.symm
  have hviewing : ∀ e effects, Record.IsViewing ⟨.viewing, .event e, effects⟩ :=
    fun e _ ↦ ⟨⟨e, rfl⟩, rfl, rfl⟩
  refine ⟨_, _, hpick, rfl, ((view_only_stays_in_window rfl).2.2 _ _ hpick ?_).1, by decide +kernel⟩
  intro r hr
  simp only [List.nil_append, List.cons_append, List.mem_cons, List.not_mem_nil, or_false] at hr
  rcases hr with rfl | rfl | rfl | rfl <;> exact hviewing _ _

end Session

end InputRelay
