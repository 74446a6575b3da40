import InputRelay.Proofs.Session.Replacing
import InputRelay.Proofs.Session.Sight

namespace InputRelay

inductive Outlet
  | outlet

instance : CommandSink Outlet := ⟨fun channel _ ↦ (.ok (), channel)⟩

namespace CommandSink

variable {κ : Type} [CommandSink κ]

def after (channel : κ) (offered : List Command) : κ :=
  offered.foldl (fun channel c ↦ (push channel c).2) channel

def Accepts (channel : κ) : Prop :=
  ∀ offered c, (push (after channel offered) c).1 = .ok ()

theorem after_append (channel : κ) (offered offered' : List Command) :
    after channel (offered ++ offered') = after (after channel offered) offered' :=
  List.foldl_append

theorem Accepts.after {channel : κ} (h : Accepts channel) (offered : List Command) :
    Accepts (after channel offered) := by
  intro offered' c
  rw [← after_append]
  exact h _ c

instance : CommandSink {channel : κ // Accepts channel} :=
  ⟨fun channel c ↦ ((push channel.val c).1, ⟨(push channel.val c).2, channel.property.after [c]⟩)⟩

theorem follows_val : Follows (Subtype.val : {channel : κ // Accepts channel} → κ) :=
  fun _ _ ↦ rfl

theorem follows_outlet :
    Follows fun _ : {channel : κ // Accepts channel} ↦ Outlet.outlet := by
  intro channel c
  exact Prod.ext (channel.property [] c).symm rfl

end CommandSink

namespace Channel

theorem after_recorder (taken offered : List Command) :
    CommandSink.after (recorder taken false) offered = recorder (taken ++ offered) false := by
  induction offered generalizing taken with
  | nil => exact congrArg (recorder · false) (List.append_nil taken).symm
  | cons c offered ih =>
    rw [List.append_cons]
    exact ih (taken ++ [c])

theorem accepts_recorder (taken : List Command) :
    CommandSink.Accepts (recorder taken false) := by
  intro offered c
  rw [after_recorder]
  rfl

end Channel

variable {κ κ' κ'' : Type}

/-- What a session looks like to a family of events, whatever its channel is. -/
def Session.sight (f : Family) (s : Session κ) : Session Outlet :=
  s.seenBy f fun _ ↦ .outlet

def Session.IsOpen [CommandSink κ] (s : Session κ) : Prop :=
  ∃ channel, s.channel = some channel ∧ CommandSink.Accepts channel

theorem Deed.Of.exclusive {f f' : Family} (hf : f ≠ .keyboard) (hf' : f' ≠ .keyboard)
    (hne : f ≠ f') {p : Part} (h : Deed.Of f (.change p)) : ¬Deed.Of f' (.change p) := by
  cases p <;> cases f <;> cases f' <;> simp_all [Deed.Of]

namespace Turn

def sight (f : Family) (t : Turn κ) : Turn Outlet :=
  t.seenBy f fun _ ↦ .outlet

theorem sight_seenBy (f : Family) (g : κ → κ') (t : Turn κ) :
    (t.seenBy f g).sight f = t.sight f := by
  cases f <;> simp [sight, seenBy, Session.seenBy, Option.map_map, Function.comp_def,
    Screen.ofFrame]

variable [CommandSink κ] {t t' : Turn κ}

theorem Does.channel_eq {d : Deed} (h : Does d t t') :
    ∃ done, t'.effects = t.effects ++ done ∧ t'.session.channel =
      t.session.channel.map (CommandSink.after · (done.filterMap Effect.command?)) := by
  cases h with
  | @effect _ e he =>
    have hnone : e.command? = none := by
      cases e <;> first | rfl | cases he
    refine ⟨[e], rfl, ?_⟩
    rw [List.filterMap_cons_none hnone]
    exact Option.map_id'.symm
  | offer _ c =>
    cases hchannel : t.session.channel with
    | none =>
      rw [push, attempt, hchannel]
      exact ⟨[], (List.append_nil _).symm, hchannel⟩
    | some channel =>
      rw [push, attempt, hchannel]
      exact ⟨[.push c (CommandSink.push channel c).1], rfl, rfl⟩
  | _ => exact ⟨[], (List.append_nil _).symm, Option.map_id'.symm⟩

theorem Within.channel_eq {allowed : Deed → Prop} (h : Within allowed t t') :
    ∃ done, t'.effects = t.effects ++ done ∧ t'.session.channel =
      t.session.channel.map (CommandSink.after · (done.filterMap Effect.command?)) := by
  induction h with
  | refl => exact ⟨[], (List.append_nil _).symm, Option.map_id'.symm⟩
  | tail _ hlast ih =>
    obtain ⟨done, heffects, hchannel⟩ := ih
    obtain ⟨d, -, hdoes⟩ := hlast
    obtain ⟨done', heffects', hchannel'⟩ := hdoes.channel_eq
    refine ⟨done ++ done', by rw [heffects', heffects, List.append_assoc], ?_⟩
    rw [hchannel', hchannel, Option.map_map, List.filterMap_append]
    simp only [CommandSink.after_append]
    rfl

theorem Within.isOpen {allowed : Deed → Prop} (h : Within allowed t t')
    (ht : t.session.IsOpen) : t'.session.IsOpen := by
  obtain ⟨channel, hchannel, haccepts⟩ := ht
  obtain ⟨done, -, hafter⟩ := h.channel_eq
  exact ⟨_, by rw [hafter, hchannel]; rfl, haccepts.after _⟩

theorem handle_sight {s : Session κ} (hs : s.IsOpen) {e : Event} (he : e.family ≠ .keyboard) :
    (s.handle e).sight e.family = (s.sight e.family).handle e := by
  obtain ⟨channel, hchannel, haccepts⟩ := hs
  let x : Session {channel : κ // CommandSink.Accepts channel} :=
    { s with channel := some ⟨channel, haccepts⟩ }
  have hval : x.seenBy e.family Subtype.val = s.seenBy e.family id := by
    cases e.family <;> simp [Session.seenBy, hchannel, x]
  have houtlet : x.sight e.family = s.sight e.family := by
    cases e.family <;> simp [Session.sight, Session.seenBy, hchannel, x]
  have hsame : (x.handle e).seenBy e.family Subtype.val = (s.handle e).seenBy e.family id :=
    Session.handle_seenBy_congr CommandSink.follows_id CommandSink.follows_val he hval
  calc (s.handle e).sight e.family
      = ((s.handle e).seenBy e.family id).sight e.family := (sight_seenBy _ id _).symm
    _ = ((x.handle e).seenBy e.family Subtype.val).sight e.family := by rw [hsame]
    _ = (x.handle e).sight e.family := sight_seenBy _ _ _
    _ = (x.sight e.family).handle e := handle_seenBy ⟨x, []⟩ CommandSink.follows_outlet he
    _ = (s.sight e.family).handle e := by rw [houtlet]

theorem Within.sight_eq {f f' : Family} (hf : f ≠ .keyboard) (hf' : f' ≠ .keyboard) (hne : f ≠ f')
    (h : Within (Deed.Of f') t t') : t'.session.sight f = t.session.sight f := by
  have hown : ∀ p : Part, Deed.Of f (.change p) → p.Same t.session t'.session :=
    fun p hp ↦ h.same (Deed.Of.exclusive hf hf' hne hp)
  have hpicker : t'.session.picker = t.session.picker :=
    h.same (p := .picker) (by cases f' <;> first | exact id | exact absurd rfl hf')
  have hsync : t'.session.sync = t.session.sync :=
    h.same (p := .sync) (by cases f' <;> first | exact id | exact absurd rfl hf')
  have hforwards : t'.session.forwards = t.session.forwards :=
    h.same (p := .forwards) (by cases f' <;> first | exact id | exact absurd rfl hf')
  have hchannel : t'.session.channel.map (fun _ ↦ Outlet.outlet) =
      t.session.channel.map fun _ ↦ Outlet.outlet := by
    have hsome := h.channel_isSome
    cases hc : t.session.channel <;> cases hc' : t'.session.channel <;> simp_all
  have hfixtures := h.fixtures_eq
  simp only [Session.fixtures, Screen.geometry, Prod.mk.injEq] at hfixtures
  unfold Session.sight
  cases f with
  | keyboard => exact absurd rfl hf
  | pointer =>
    have hscreen : t'.session.screen = t.session.screen := hown .screen trivial
    have hfinger : t'.session.finger = t.session.finger := hown .finger trivial
    simp only [Session.seenBy, hchannel, hpicker, hsync, hforwards, hscreen, hfinger, hfixtures]
  | gamepad =>
    have hengine : t'.session.engine = t.session.engine := hown .engine trivial
    simp only [Session.seenBy, hchannel, hpicker, hsync, hforwards, hengine, hfixtures]
  | hotPlug =>
    have hhost : t'.session.host = t.session.host := hown .host trivial
    have hslots : t'.session.slots = t.session.slots := hown .slots trivial
    simp only [Session.seenBy, hchannel, hpicker, hsync, hforwards, hhost, hslots, hfixtures]
  | files => simp only [Session.seenBy, hchannel, hpicker, hsync, hforwards, hfixtures]

end Turn

theorem Session.eq_of_sight {s s' : Session κ} (hrepeats : s'.repeats = s.repeats)
    (h : ∀ f ≠ Family.keyboard, s'.sight f = s.sight f) :
    s' = { s with channel := s'.channel } := by
  have hpointer := h .pointer nofun
  have hgamepad := h .gamepad nofun
  have hhotPlug := h .hotPlug nofun
  cases s
  cases s'
  simp only [sight, seenBy, mk.injEq] at *
  simp_all

inductive Recipient
  | channel | keys | pointer | files | host | clipboard | picker
deriving DecidableEq

def Effect.recipient : Effect → Recipient
  | .push .. => .channel
  | .key .. | .text _ => .keys
  | .pointer _ => .pointer
  | .file .. => .files
  | .openController .. | .closeController _ => .host
  | .readClipboard => .clipboard
  | .pickFile _ => .picker

/-- The family that turns to a recipient. All of them have to do with the channel. -/
def Recipient.family? : Recipient → Option Family
  | .channel => none
  | .keys | .clipboard | .picker => some .keyboard
  | .pointer => some .pointer
  | .files => some .files
  | .host => some .hotPlug

theorem Effect.family?_of_due {f : Family} {e : Effect} (h : e.Due (Deed.Of f))
    (hchannel : e.recipient ≠ .channel) : e.recipient.family? = some f := by
  cases e <;> cases f <;> first | rfl | exact h.elim | exact absurd rfl hchannel

def callsTo (r : Recipient) (effects : List Effect) : List Effect :=
  effects.filter (·.recipient == r)

theorem callsTo_eq_nil {f : Family} {effects : List Effect}
    (h : ∀ e ∈ effects, e.Due (Deed.Of f)) {r : Recipient} (hr : r ≠ .channel)
    (hf : r.family? ≠ some f) : callsTo r effects = [] := by
  refine List.filter_eq_nil_iff.mpr fun e he heq ↦ hf ?_
  rw [← eq_of_beq heq] at hr ⊢
  exact Effect.family?_of_due (h e he) hr

theorem callsTo_append_comm {f f' : Family} (hne : f ≠ f') {effects effects' : List Effect}
    (h : ∀ e ∈ effects, e.Due (Deed.Of f)) (h' : ∀ e ∈ effects', e.Due (Deed.Of f'))
    {r : Recipient} (hr : r ≠ .channel) :
    callsTo r (effects ++ effects') = callsTo r (effects' ++ effects) := by
  simp only [callsTo, List.filter_append]
  change callsTo r effects ++ callsTo r effects' = callsTo r effects' ++ callsTo r effects
  by_cases hf : r.family? = some f
  · rw [callsTo_eq_nil h' hr fun hf' ↦ hne (Option.some.inj (hf.symm.trans hf')),
      List.append_nil, List.nil_append]
  · rw [callsTo_eq_nil h hr hf, List.append_nil, List.nil_append]

namespace Session

variable [CommandSink κ] {s : Session κ} {a b : Event}

theorem sight_handle_of_ne {f : Family} {e : Event} (hf : f ≠ .keyboard)
    (he : e.family ≠ .keyboard) (hne : f ≠ e.family) : (s.handle e).session.sight f = s.sight f :=
  (Turn.within_handle ⟨s, []⟩ e).sight_eq hf he hne

theorem repeats_handle {e : Event} (he : e.family ≠ .keyboard) :
    (s.handle e).session.repeats = s.repeats := by
  refine (Turn.within_handle ⟨s, []⟩ e).same (p := .repeats) ?_
  cases hfamily : e.family <;> first | exact id | exact absurd hfamily he

/-- An event does the same before and after one of another family. -/
theorem sight_handle_handle (hs : s.IsOpen) (ha : a.family ≠ .keyboard) (hb : b.family ≠ .keyboard)
    (hne : a.family ≠ b.family) :
    ((s.handle b).session.handle a).sight a.family = (s.handle a).sight a.family := by
  have hopen : (s.handle b).session.IsOpen := (Turn.within_handle ⟨s, []⟩ b).isOpen hs
  rw [Turn.handle_sight hopen ha, Turn.handle_sight hs ha, sight_handle_of_ne ha hb hne]

theorem effects_handle_handle (hs : s.IsOpen) (ha : a.family ≠ .keyboard)
    (hb : b.family ≠ .keyboard) (hne : a.family ≠ b.family) :
    ((s.handle b).session.handle a).effects = (s.handle a).effects := by
  have heffects := congrArg Turn.effects (sight_handle_handle hs ha hb hne)
  exact heffects

theorem sight_swap (hs : s.IsOpen) (ha : a.family ≠ .keyboard) (hb : b.family ≠ .keyboard)
    (hne : a.family ≠ b.family) : ((s.handle a).session.handle b).session.sight a.family =
      ((s.handle b).session.handle a).session.sight a.family :=
  (sight_handle_of_ne ha hb hne).trans
    (congrArg Turn.session (sight_handle_handle hs ha hb hne)).symm

theorem session_swap (hs : s.IsOpen) (ha : a.family ≠ .keyboard) (hb : b.family ≠ .keyboard)
    (hne : a.family ≠ b.family) : ((s.handle a).session.handle b).session =
      { ((s.handle b).session.handle a).session with
        channel := ((s.handle a).session.handle b).session.channel } := by
  refine eq_of_sight ?_ fun f hf ↦ ?_
  · rw [repeats_handle hb, repeats_handle ha, repeats_handle ha, repeats_handle hb]
  by_cases hfa : f = a.family
  · rw [hfa]
    exact sight_swap hs ha hb hne
  by_cases hfb : f = b.family
  · rw [hfb]
    exact (sight_swap hs hb ha hne.symm).symm
  · rw [sight_handle_of_ne hf hb hfb, sight_handle_of_ne hf ha hfa, sight_handle_of_ne hf ha hfa,
      sight_handle_of_ne hf hb hfb]

theorem channel_handle {channel : κ} (hchannel : s.channel = some channel) (e : Event) :
    (s.handle e).session.channel =
      some (CommandSink.after channel ((s.handle e).effects.filterMap Effect.command?)) := by
  have hwithin : Turn.Within _ ⟨s, []⟩ (s.handle e) := Turn.within_handle ⟨s, []⟩ e
  obtain ⟨done, hdone, hafter⟩ := hwithin.channel_eq
  rw [hafter, hchannel, hdone]
  rfl

theorem due_of_mem_handle {e : Event} {effect : Effect} (h : effect ∈ (s.handle e).effects) :
    effect.Due (Deed.Of e.family) :=
  (Turn.within_handle ⟨s, []⟩ e).due_of_mem h

/-- Two events come to the same in either order, but for the order in which the channel is offered
their commands. -/
structure Commutes (s : Session κ) (channel : κ) (a b : Event) : Prop where
  first : ((s.handle b).session.handle a).effects = (s.handle a).effects
  second : ((s.handle a).session.handle b).effects = (s.handle b).effects
  session : ((s.handle a).session.handle b).session =
    { ((s.handle b).session.handle a).session with
      channel := ((s.handle a).session.handle b).session.channel }
  calls : ∀ r ≠ .channel,
    callsTo r ((s.handle a).effects ++ ((s.handle a).session.handle b).effects) =
      callsTo r ((s.handle b).effects ++ ((s.handle b).session.handle a).effects)
  offered : ((s.handle a).session.handle b).session.channel =
    some (CommandSink.after channel
      ((s.handle a).effects.filterMap Effect.command? ++
        (s.handle b).effects.filterMap Effect.command?))
  offered_swapped : ((s.handle b).session.handle a).session.channel =
    some (CommandSink.after channel
      ((s.handle b).effects.filterMap Effect.command? ++
        (s.handle a).effects.filterMap Effect.command?))

/-- Events of different families can be handled in either order. -/
theorem independent_events_commute {channel : κ} (hchannel : s.channel = some channel)
    (haccepts : CommandSink.Accepts channel) (ha : a.family ≠ .keyboard)
    (hb : b.family ≠ .keyboard) (hne : a.family ≠ b.family) : s.Commutes channel a b := by
  have hs : s.IsOpen := ⟨channel, hchannel, haccepts⟩
  have hfirst := effects_handle_handle hs ha hb hne
  have hsecond := effects_handle_handle hs hb ha hne.symm
  refine ⟨hfirst, hsecond, session_swap hs ha hb hne, ?_, ?_, ?_⟩
  · intro r hr
    rw [hfirst, hsecond]
    exact callsTo_append_comm hne (fun _ ↦ due_of_mem_handle) (fun _ ↦ due_of_mem_handle) hr
  · rw [channel_handle (channel_handle hchannel a) b, hsecond, CommandSink.after_append]
  · rw [channel_handle (channel_handle hchannel b) a, hfirst, CommandSink.after_append]

theorem independent_events_commute_fingers : ∃ (t : Turn Channel) (press : MouseClick)
    (button : PadButton),
    start { gamepad := { forward := false, touchmap := some "map" } } (.pointing false) = .ok t ∧
      t.session.Commutes (.recorder [] false) (.click press) (.padButton button) ∧
      ((t.session.handle (.click press)).effects.filterMap Effect.command?).length = 1 ∧
      ((t.session.handle (.padButton button)).effects.filterMap Effect.command?).length = 1 := by
  refine ⟨_, ctrlPress, ⟨⟨0⟩, .a, .pressed⟩, rfl, independent_events_commute ?_
    (Channel.accepts_recorder []) nofun nofun nofun, ?_, ?_⟩ <;> decide +kernel

end Session

end InputRelay
