import InputRelay.Session.Run
import Mathlib.Logic.Relation

namespace InputRelay

inductive Part
  | screen | picker | host | slots | repeats | sync | finger | engine | forwards
deriving DecidableEq

def Part.Same {κ : Type} (p : Part) (s s' : Session κ) : Prop :=
  match p with
  | .screen => s'.screen = s.screen
  | .picker => s'.picker = s.picker
  | .host => s'.host = s.host
  | .slots => s'.slots = s.slots
  | .repeats => s'.repeats = s.repeats
  | .sync => s'.sync = s.sync
  | .finger => s'.finger = s.finger
  | .engine => s'.engine = s.engine
  | .forwards => s'.forwards = s.forwards

def Screen.geometry (s : Screen) : Size × Rect × Size × Int32 :=
  (s.frame, s.content, s.drawable, s.hidpi)

def Session.fixtures {κ : Type} (s : Session κ) :=
  (s.screen.geometry, s.keys, s.pointer, s.files, s.clipboard, s.disk, s.shortcutMods, s.bindings)

/-- An elementary thing that is done in the course of an event. -/
inductive Deed
  /-- Anything outside is done or asked but to offer a command. -/
  | effect (e : Effect)
  | offer (c : Command)
  | change (p : Part)

def Effect.isPush : Effect → Bool
  | .push _ _ => true
  | _ => false

def Effect.Due (allowed : Deed → Prop) : Effect → Prop
  | .push c _ => allowed (.offer c)
  | e => allowed (.effect e)

namespace Turn

variable {κ : Type} [CommandSink κ]

inductive Does : Deed → Turn κ → Turn κ → Prop
  | effect (t : Turn κ) {e : Effect} (he : e.isPush = false) : Does (.effect e) t (t.emit e)
  | offer (t : Turn κ) (c : Command) : Does (.offer c) t (t.push c)
  /-- The screen may be asked for much, but its geometry is its own. -/
  | screen (t : Turn κ) {v : Screen} (hv : v.geometry = t.session.screen.geometry) :
      Does (.change .screen) t { t with session.screen := v }
  | picker (t : Turn κ) (v : Option (List (Option String))) :
      Does (.change .picker) t { t with session.picker := v }
  | host (t : Turn κ) (v : Option ControllerHost) :
      Does (.change .host) t { t with session.host := v }
  | slots (t : Turn κ) (v : ControllerSlots) :
      Does (.change .slots) t { t with session.slots := v }
  | repeats (t : Turn κ) (v : KeyRepeat) :
      Does (.change .repeats) t { t with session.repeats := v }
  | sync (t : Turn κ) (v : ClipboardSync) : Does (.change .sync) t { t with session.sync := v }
  | finger (t : Turn κ) (v : VirtualFinger) :
      Does (.change .finger) t { t with session.finger := v }
  | engine (t : Turn κ) (v : Option TouchmapEngine) :
      Does (.change .engine) t { t with session.engine := v }
  | forwards (t : Turn κ) (v : Bool) :
      Does (.change .forwards) t { t with session.forwards := v }

/-- From one turn to another by allowed deeds only. -/
def Within (allowed : Deed → Prop) : Turn κ → Turn κ → Prop :=
  Relation.ReflTransGen fun t t' ↦ ∃ d, allowed d ∧ Does d t t'

namespace Within

variable {allowed allowed' : Deed → Prop} {t t' t'' : Turn κ}

theorem refl (t : Turn κ) : Within allowed t t := Relation.ReflTransGen.refl

theorem trans (h : Within allowed t t') (h' : Within allowed t' t'') : Within allowed t t'' :=
  Relation.ReflTransGen.trans h h'

theorem one {d : Deed} (h : Does d t t') (hd : allowed d) : Within allowed t t' :=
  Relation.ReflTransGen.single ⟨d, hd, h⟩

theorem mono (h : Within allowed t t') (hmono : ∀ d, allowed d → allowed' d) :
    Within allowed' t t' := by
  refine Relation.ReflTransGen.mono ?_ t t' h
  rintro _ _ ⟨d, hd, hdoes⟩
  exact ⟨d, hmono d hd, hdoes⟩

theorem preserves {P : Turn κ → Prop} (h : Within allowed t t')
    (hstep : ∀ d t t', allowed d → Does d t t' → P t → P t') (ht : P t) : P t' := by
  induction h with
  | refl => exact ht
  | tail _ hlast ih =>
    obtain ⟨d, hd, hdoes⟩ := hlast
    exact hstep d _ _ hd hdoes ih

end Within

theorem attempt_cases (t : Turn κ) (c : Command) :
    (t.session.channel = none ∧ t.attempt c = (false, t)) ∨
    ∃ channel verdict, t.session.channel.isSome ∧ t.attempt c =
      (verdict.toBool, { t with session.channel := some channel }.emit (.push c verdict)) := by
  cases hchannel : t.session.channel with
  | none => exact Or.inl ⟨rfl, by simp [attempt, hchannel]⟩
  | some channel =>
    refine Or.inr ⟨(CommandSink.push channel c).2, (CommandSink.push channel c).1, rfl, ?_⟩
    simp [attempt, hchannel]

theorem push_session (t : Turn κ) (c : Command) :
    ∃ channel, channel.isSome = t.session.channel.isSome ∧
      (t.push c).session = { t.session with channel } := by
  rcases attempt_cases t c with ⟨-, h⟩ | ⟨channel, verdict, hsome, h⟩
  · exact ⟨t.session.channel, rfl, by rw [push, h]⟩
  · exact ⟨some channel, hsome.symm, by rw [push, h]; rfl⟩

variable {d : Deed} {allowed : Deed → Prop} {t t' : Turn κ}

theorem Within.effects_eq (h : Within allowed t t') :
    ∃ done, t'.effects = t.effects ++ done ∧ ∀ e ∈ done, e.Due allowed := by
  refine h.preserves (P := fun t' ↦
    ∃ done, t'.effects = t.effects ++ done ∧ ∀ e ∈ done, e.Due allowed) ?_ ⟨[], by simp, by simp⟩
  rintro d u u' hd hdoes ⟨done, hu, hdone⟩
  have hone : ∀ e : Effect, e.Due allowed → ∃ done, u.effects ++ [e] = t.effects ++ done ∧
      ∀ e ∈ done, e.Due allowed := by
    intro e he
    refine ⟨done ++ [e], by rw [hu, List.append_assoc], ?_⟩
    exact List.forall_mem_append.mpr ⟨hdone, List.forall_mem_singleton.mpr he⟩
  cases hdoes with
  | @effect _ e he =>
    refine hone e ?_
    cases e <;> first | exact hd | cases he
  | offer _ c =>
    rcases attempt_cases u c with ⟨-, h⟩ | ⟨channel, verdict, -, h⟩ <;> rw [push, h]
    · exact ⟨done, hu, hdone⟩
    · exact hone (.push c verdict) hd
  | _ => exact ⟨done, hu, hdone⟩

theorem Within.due_of_mem {s : Session κ} (h : Within allowed ⟨s, []⟩ t') {e : Effect}
    (he : e ∈ t'.effects) : e.Due allowed := by
  obtain ⟨done, hdone, hdue⟩ := h.effects_eq
  rw [hdone] at he
  exact hdue e he

theorem Within.effects_grow (h : Within allowed t t') : t.effects <+: t'.effects := by
  obtain ⟨done, hdone, -⟩ := h.effects_eq
  exact ⟨done, hdone.symm⟩

theorem Within.filterMap_eq {β : Type} {f : Effect → Option β} (h : Within allowed t t')
    (hf : ∀ e : Effect, e.Due allowed → f e = none) :
    t'.effects.filterMap f = t.effects.filterMap f := by
  obtain ⟨done, hdone, hdue⟩ := h.effects_eq
  have hnone : done.filterMap f = [] :=
    List.filterMap_eq_nil_iff.mpr fun e he ↦ hf e (hdue e he)
  rw [hdone, List.filterMap_append, hnone, List.append_nil]

theorem Within.channel_isSome (h : Within allowed t t') :
    t'.session.channel.isSome = t.session.channel.isSome := by
  refine h.preserves (P := fun t' ↦ t'.session.channel.isSome = t.session.channel.isSome) ?_ rfl
  intro d u u' _ hdoes hu
  cases hdoes with
  | offer _ c =>
    obtain ⟨channel, hsome, hsession⟩ := push_session u c
    rw [hsession]
    exact hsome.trans hu
  | _ => exact hu

theorem Within.fixtures_eq (h : Within allowed t t') :
    t'.session.fixtures = t.session.fixtures := by
  refine h.preserves (P := fun t' ↦ t'.session.fixtures = t.session.fixtures) ?_ rfl
  intro d u u' _ hdoes hu
  cases hdoes with
  | offer _ c =>
    obtain ⟨channel, -, hsession⟩ := push_session u c
    rw [hsession]
    exact hu
  | screen _ hv => exact (congrArg (·, u.session.fixtures.2) hv).trans hu
  | _ => exact hu

theorem Within.settings_eq (h : Within allowed t t') :
    t'.session.bindings = t.session.bindings ∧ t'.session.disk = t.session.disk ∧
      t'.session.shortcutMods = t.session.shortcutMods := by
  have hfixtures := h.fixtures_eq
  simp only [Session.fixtures, Prod.mk.injEq] at hfixtures
  obtain ⟨-, -, -, -, -, hdisk, hmods, hbindings⟩ := hfixtures
  exact ⟨hbindings, hdisk, hmods⟩

theorem Within.same {p : Part} (h : Within allowed t t') (hn : ¬allowed (.change p)) :
    p.Same t.session t'.session := by
  refine h.preserves (P := fun t' ↦ p.Same t.session t'.session) ?_ (by cases p <;> rfl)
  intro d u u' hd hdoes hu
  cases hdoes with
  | offer _ c =>
    obtain ⟨channel, -, hsession⟩ := push_session u c
    rw [hsession]
    cases p <;> exact hu
  | effect => exact hu
  | _ => cases p <;> first | exact hu | exact absurd hd hn

end Turn

end InputRelay
