import InputRelay.Proofs.Controller.Slots
import InputRelay.Proofs.Session.History

namespace InputRelay

namespace Effect

/-- A change that is announced to the device, whether the channel takes the command or not. -/
def announced? : Effect → Option (ControllerId × ControllerChange)
  | .push (.injectControllerDevice id change) _ => some (id, change)
  | _ => none

def switched? : Effect → Option (ControllerId × ControllerChange)
  | .openController _ (some id) => some (id, .added)
  | .closeController id => some (id, .removed)
  | _ => none

def IsPlugless : Effect → Prop
  | .openController .. | .closeController _ | .push (.injectControllerDevice ..) _ => False
  | _ => True

theorem isPlugless_of_due {f : Family} (hf : f ≠ .hotPlug) {e : Effect} (h : e.Due (Deed.Of f)) :
    e.IsPlugless := by
  rcases e with ⟨c, verdict⟩ | _
  · cases c with
    | injectControllerDevice => cases f <;> first | exact h | exact hf rfl
    | _ => trivial
  all_goals first | trivial | cases f <;> first | exact h | exact hf rfl

theorem IsPlugless.announced?_eq_none {e : Effect} (h : e.IsPlugless) : e.announced? = none := by
  rcases e with ⟨c, verdict⟩ | _
  · cases c <;> first | rfl | exact h.elim
  all_goals rfl

theorem IsPlugless.switched?_eq_none {e : Effect} (h : e.IsPlugless) : e.switched? = none := by
  cases e <;> first | rfl | exact h.elim

end Effect

def changesOf (id : ControllerId) (changes : List (ControllerId × ControllerChange)) :
    List ControllerChange :=
  (changes.filter (·.1 == id)).map (·.2)

/-- Changes that alternate from an addition on, and whether the last one is an addition. -/
inductive Alternates : List ControllerChange → Bool → Prop
  | nil : Alternates [] false
  | added {changes : List ControllerChange} :
      Alternates changes false → Alternates (changes ++ [.added]) true
  | removed {changes : List ControllerChange} :
      Alternates changes true → Alternates (changes ++ [.removed]) false

variable {κ : Type}

inductive Plugged (s : Session κ) (host : ControllerHost) : Call → Turn κ → Prop
  | full (index : UInt32) : s.slots.ids.length = 16 →
      Plugged s host (.event (.hotPlug (.added index))) ⟨s, []⟩
  | refused (index : UInt32) : s.slots.ids.length < 16 → host.refuses = true →
      Plugged s host (.event (.hotPlug (.added index))) ⟨s, [.openController index none]⟩
  | opened {index : UInt32} {id : ControllerId} {slots : ControllerSlots} (channel : Option κ)
      (verdict : Except PushError Unit) : s.slots.ids.length < 16 → host.refuses = false →
      id = ⟨index + 1⟩ → slots.ids.Perm (id :: s.slots.ids) →
      Plugged s host (.event (.hotPlug (.added index)))
        ⟨{ s with host := some { host with opened := host.opened ++ [id] }, slots, channel },
          [.openController index (some id), .push (.injectControllerDevice id .added) verdict]⟩
  | unknown {id : ControllerId} : id ∉ s.slots.ids →
      Plugged s host (.event (.hotPlug (.removed id))) ⟨s, []⟩
  | closed {id : ControllerId} {slots : ControllerSlots} (channel : Option κ)
      (verdict : Except PushError Unit) : s.slots.ids.Perm (id :: slots.ids) →
      Plugged s host (.event (.hotPlug (.removed id)))
        ⟨{ s with host := some (host.close id), slots, channel },
          [.closeController id, .push (.injectControllerDevice id .removed) verdict]⟩
  | other {call : Call} {t : Turn κ} : (∀ e, call ≠ .event (.hotPlug e)) →
      t.session.host = s.host → t.session.slots = s.slots → (∀ e ∈ t.effects, e.IsPlugless) →
      Plugged s host call t

namespace Turn

variable [CommandSink κ] {s : Session κ} {host : ControllerHost}

theorem plugged_added (hchannel : s.channel.isSome = true) (hhost : s.host = some host)
    (index : UInt32) :
    Plugged s host (.event (.hotPlug (.added index))) (addController ⟨s, []⟩ index) := by
  unfold addController
  split
  · rename_i hfull
    exact .full index (s.slots.isFull_iff.mp hfull)
  rename_i hfree
  have hroom : s.slots.ids.length < 16 :=
    Nat.lt_of_le_of_ne s.slots.length_ids_le (mt s.slots.isFull_iff.mpr hfree)
  simp only [hhost]
  cases hrefuses : host.refuses with
  | true =>
    simp only [ControllerHost.open?, hrefuses, if_true, emit, List.nil_append, ← hhost]
    exact .refused index hroom hrefuses
  | false =>
    obtain ⟨i, slots, hinsert, hperm⟩ :=
      s.slots.insert_of_free (Bool.eq_false_iff.mpr hfree) ⟨index + 1⟩
    obtain ⟨channel, hchannel⟩ := Option.isSome_iff_exists.mp hchannel
    have hopen : host.open? index =
        (some ⟨index + 1⟩, { host with opened := host.opened ++ [⟨index + 1⟩] }) := by
      rw [ControllerHost.open?, hrefuses, if_neg Bool.false_ne_true]
    simp only [hopen, emit, hinsert, push, attempt, hchannel, List.nil_append,
      List.singleton_append]
    exact .opened _ _ hroom hrefuses rfl hperm

theorem plugged_removed (hchannel : s.channel.isSome = true) (hhost : s.host = some host)
    (id : ControllerId) :
    Plugged s host (.event (.hotPlug (.removed id))) (removeController ⟨s, []⟩ id) := by
  unfold removeController
  split
  · rename_i hmem
    obtain ⟨i, slots, herase, hperm⟩ := s.slots.erase_of_mem (s.slots.contains_iff.mp hmem)
    obtain ⟨channel, hchannel⟩ := Option.isSome_iff_exists.mp hchannel
    simp only [hhost, emit, herase, push, attempt, hchannel, List.nil_append,
      List.singleton_append]
    exact .closed _ _ hperm
  · rename_i hmem
    exact .unknown (mt s.slots.contains_iff.mpr hmem)

theorem plugged_of_within {f : Family} (hf : f ≠ .hotPlug) {call : Call} {t : Turn κ}
    (hcall : ∀ e, call ≠ .event (.hotPlug e)) (h : Within (Deed.Of f) ⟨s, []⟩ t) :
    Plugged s host call t := by
  refine .other hcall (h.same (p := .host) ?_) (h.same (p := .slots) ?_) ?_
  · cases f <;> first | exact id | exact absurd rfl hf
  · cases f <;> first | exact id | exact absurd rfl hf
  · intro e he
    exact Effect.isPlugless_of_due hf (h.due_of_mem he)

/-- Only the events of controllers that come and go concern them, and each does so in one of a few
ways. That a controller is open but gets no slot is none of them. -/
theorem plugged_call (hchannel : s.channel.isSome = true) (hhost : s.host = some host)
    (call : Call) : Plugged s host call (s.call call) := by
  cases call with
  | load path =>
    exact plugged_of_within (f := .keyboard) nofun nofun
      ((within_loadTouchmap ⟨s, []⟩ path).mono Deed.Replacing.of_keyboard)
  | unload =>
    exact plugged_of_within (f := .keyboard) nofun nofun
      ((within_unloadTouchmap ⟨s, []⟩).mono Deed.Replacing.of_keyboard)
  | event e =>
    by_cases hplug : ∃ e', e = .hotPlug e'
    · obtain ⟨e', rfl⟩ := hplug
      have hcall : s.call (.event (.hotPlug e')) = hotPlug ⟨s, []⟩ e' := if_pos hchannel
      rw [hcall]
      cases e' with
      | added index => exact plugged_added hchannel hhost index
      | removed id => exact plugged_removed hchannel hhost id
    · have hfamily : e.family ≠ .hotPlug := by
        intro hfamily
        cases e <;> first | exact hplug ⟨_, rfl⟩ | cases hfamily
      refine plugged_of_within hfamily ?_ (within_handle ⟨s, []⟩ e)
      rintro e' ⟨rfl⟩
      exact hfamily rfl

end Turn

/-- The same controllers have a slot and are open at the host, and the device was told of each that
was opened or closed. -/
structure InStep (effects : List Effect) (s : Session κ) : Prop where
  host : ∃ host, s.host = some host ∧ s.slots.ids.Perm host.opened
  nodup : s.slots.ids.Nodup
  told : effects.filterMap Effect.announced? = effects.filterMap Effect.switched?
  alternates : ∀ id,
    Alternates (changesOf id (effects.filterMap Effect.announced?)) (s.slots.contains id)

theorem changesOf_concat (id : ControllerId) (changes : List (ControllerId × ControllerChange))
    (last : ControllerId × ControllerChange) : changesOf id (changes ++ [last]) =
      if last.1 = id then changesOf id changes ++ [last.2] else changesOf id changes := by
  by_cases hid : last.1 = id <;> simp [changesOf, hid]

theorem ControllerSlots.contains_eq_of_perm {slots slots' : ControllerSlots} {id id' : ControllerId}
    (hperm : slots'.ids.Perm (id :: slots.ids)) (hne : id ≠ id') :
    slots'.contains id' = slots.contains id' := by
  rw [Bool.eq_iff_iff, contains_iff, contains_iff, hperm.mem_iff, List.mem_cons,
    or_iff_right hne.symm]

theorem ControllerHost.perm_close {host : ControllerHost} {ids ids' : List ControllerId}
    {id : ControllerId} (hids : ids.Perm (id :: ids')) (hnot : id ∉ ids')
    (hopened : ids.Perm host.opened) : ids'.Perm (host.close id).opened := by
  have hkept : (id :: ids').filter (· != id) = ids' := by
    rw [List.filter_cons_of_neg (by simp), List.filter_eq_self]
    intro a ha
    exact bne_iff_ne.mpr fun heq ↦ hnot (heq ▸ ha)
  exact hkept ▸ (hids.symm.trans hopened).filter (· != id)

section

variable {s s' : Session κ} {host : ControllerHost} {effects : List Effect}

theorem InStep.append_of_none (hs : InStep effects s) (hhost : s'.host = s.host)
    (hslots : s'.slots = s.slots) {done : List Effect}
    (hannounced : done.filterMap Effect.announced? = [])
    (hswitched : done.filterMap Effect.switched? = []) : InStep (effects ++ done) s' where
  host := by
    rw [hhost, hslots]
    exact hs.host
  nodup := hslots ▸ hs.nodup
  told := by
    rw [List.filterMap_append, List.filterMap_append, hannounced, hswitched, hs.told]
  alternates := by
    rw [List.filterMap_append, hannounced, List.append_nil, hslots]
    exact hs.alternates

theorem InStep.append_switch (hs : InStep effects s) {e : Effect} {id : ControllerId}
    {change : ControllerChange} (verdict : Except PushError Unit) (hannounced : e.announced? = none)
    (hswitched : e.switched? = some (id, change))
    (hhost : ∃ host, s'.host = some host ∧ s'.slots.ids.Perm host.opened)
    (hnodup : s'.slots.ids.Nodup)
    (hothers : ∀ id', id ≠ id' → s'.slots.contains id' = s.slots.contains id')
    (hid : ∀ changes, Alternates changes (s.slots.contains id) →
      Alternates (changes ++ [change]) (s'.slots.contains id)) :
    InStep (effects ++ [e, .push (.injectControllerDevice id change) verdict]) s' where
  host := hhost
  nodup := hnodup
  told := by
    rw [List.filterMap_append, List.filterMap_append, hs.told, List.filterMap_cons_none hannounced,
      List.filterMap_cons_some hswitched]
    rfl
  alternates := by
    intro id'
    rw [List.filterMap_append, List.filterMap_cons_none hannounced]
    change Alternates (changesOf id' (_ ++ [(id, change)])) _
    rw [changesOf_concat]
    split
    · rename_i heq
      obtain rfl : id = id' := heq
      exact hid _ (hs.alternates id)
    · rename_i hne
      rw [hothers id' hne]
      exact hs.alternates id'

theorem Plugged.inStep {call : Call} {t : Turn κ} (hplug : Plugged s host call t)
    (hhost : s.host = some host)
    (hfresh : ∀ index, call = .event (.hotPlug (.added index)) →
      (⟨index + 1⟩ : ControllerId) ∉ host.opened)
    (hs : InStep effects s) : InStep (effects ++ t.effects) t.session := by
  obtain ⟨host', hhost', hopened⟩ := hs.host
  obtain rfl : host = host' := Option.some.inj (hhost.symm.trans hhost')
  cases hplug with
  | full | unknown => rwa [List.append_nil]
  | refused => exact hs.append_of_none rfl rfl rfl rfl
  | @opened index id slots channel verdict hroom _ hid hperm =>
    -- the only place where it matters that no open controller is added again
    have hnew : id ∉ s.slots.ids := by
      rw [hopened.mem_iff, hid]
      exact hfresh index rfl
    refine hs.append_switch verdict rfl rfl ⟨_, rfl, ?_⟩ ?_ ?_ ?_
    · exact (hperm.trans (hopened.cons id)).trans (List.perm_append_singleton id _).symm
    · exact hperm.nodup_iff.mpr (List.nodup_cons.mpr ⟨hnew, hs.nodup⟩)
    · intro id' hne
      exact ControllerSlots.contains_eq_of_perm hperm hne
    · intro changes hchanges
      rw [Bool.eq_false_iff.mpr (mt s.slots.contains_iff.mp hnew)] at hchanges
      rw [slots.contains_iff.mpr (hperm.mem_iff.mpr List.mem_cons_self)]
      exact hchanges.added
  | @closed id slots channel verdict hperm =>
    obtain ⟨hgone, hnodup⟩ := List.nodup_cons.mp (hperm.nodup_iff.mp hs.nodup)
    refine hs.append_switch verdict rfl rfl
      ⟨_, rfl, ControllerHost.perm_close hperm hgone hopened⟩ hnodup ?_ ?_
    · intro id' hne
      exact (ControllerSlots.contains_eq_of_perm hperm hne).symm
    · intro changes hchanges
      rw [s.slots.contains_iff.mpr (hperm.mem_iff.mpr List.mem_cons_self)] at hchanges
      rw [Bool.eq_false_iff.mpr (mt slots.contains_iff.mp hgone)]
      exact hchanges.removed
  | other _ hhost' hslots hplugless =>
    refine hs.append_of_none hhost' hslots ?_ ?_ <;> rw [List.filterMap_eq_nil_iff] <;>
      intro e he
    · exact (hplugless e he).announced?_eq_none
    · exact (hplugless e he).switched?_eq_none

end

namespace Session

/-- From one call to the next everything around a session with a host may become something else, but
it keeps the host, which may start or stop to refuse. A controller that is open is not added. -/
structure Orderly (s : Session κ) (around : Collaborators κ) (call : Call) : Prop where
  channel : around.channel.isSome = s.channel.isSome
  host : ∃ host refuses, s.host = some host ∧ around.host = some { host with refuses }
  fresh : ∀ index host, call = .event (.hotPlug (.added index)) → s.host = some host →
    (⟨index + 1⟩ : ControllerId) ∉ host.opened

variable [CommandSink κ]

/-- What a session with a host has been through. In the beginning no controller is open. -/
inductive HostedRun (config : Config) (c : Collaborators κ) : List (Record κ) → Session κ → Prop
  | start {t : Turn κ} : (∃ host, c.host = some host ∧ host.opened = []) →
      start config c = .ok t → HostedRun config c [] t.session
  | call {log : List (Record κ)} {s : Session κ} (around : Collaborators κ) (call : Call) :
      HostedRun config c log s → s.Orderly around call →
      HostedRun config c (log ++ [⟨around, call, ((s.amid around).call call).effects⟩])
        ((s.amid around).call call).session

variable {config : Config} {c : Collaborators κ} {log : List (Record κ)} {s : Session κ}

theorem HostedRun.run (h : HostedRun config c log s) : Run config c log s := by
  induction h with
  | start _ h => exact .start h
  | call around call _ horderly ih => exact ih.call around call horderly.channel

theorem Orderly.plugged {around : Collaborators κ} {call : Call} (h : s.Orderly around call)
    (hchannel : s.channel.isSome = true) {host : ControllerHost} (hhost : around.host = some host) :
    Plugged (s.amid around) host call ((s.amid around).call call) :=
  Turn.plugged_call (h.channel.trans hchannel) hhost call

theorem HostedRun.inStep (h : HostedRun config c log s) (hchannel : c.channel.isSome = true) :
    InStep (effectsOf log) s := by
  induction h with
  | @start t hhost h =>
    obtain ⟨host, hhost, hopened⟩ := hhost
    obtain ⟨s, hs, ht⟩ := start_cases h
    have hkept : t.session.host = s.host ∧ t.session.slots = s.slots := by
      rcases ht with rfl | ⟨path, rfl⟩
      · exact ⟨rfl, rfl⟩
      · have hload := Turn.within_loadTouchmap ⟨s, []⟩ path
        exact ⟨hload.same (p := .host) id, hload.same (p := .slots) id⟩
    refine ⟨⟨host, ?_, ?_⟩, ?_, rfl, ?_⟩
    · rw [hkept.1, hs.host, hhost]
    · rw [hkept.2, hs.slots, hopened]
      exact .refl _
    · rw [hkept.2, hs.slots]
      exact List.nodup_nil
    · intro id
      rw [hkept.2, hs.slots]
      exact .nil
  | @call log s around call hrun horderly ih =>
    obtain ⟨host, refuses, hhost, haround⟩ := horderly.host
    rw [effectsOf_concat]
    have hs : InStep (effectsOf log) (s.amid around) := by
      obtain ⟨host', hhost', hopened⟩ := ih.host
      obtain rfl : host = host' := Option.some.inj (hhost.symm.trans hhost')
      exact ⟨⟨_, haround, hopened⟩, ih.nodup, ih.told, ih.alternates⟩
    refine (horderly.plugged (hrun.run.channel_isSome.trans hchannel) haround).inStep haround ?_ hs
    intro index hcall
    exact horderly.fresh index host hcall hhost

/-- A session, its host and the device always agree on the controllers, and each call keeps it so in
one of the few ways. -/
theorem controllers_in_step (hrun : HostedRun config c log s)
    (hchannel : c.channel.isSome = true) :
    InStep (effectsOf log) s ∧ s.slots.ids.length ≤ 16 ∧
      ∀ around call host, s.Orderly around call → around.host = some host →
        Plugged (s.amid around) host call ((s.amid around).call call) := by
  refine ⟨hrun.inStep hchannel, s.slots.length_ids_le, ?_⟩
  intro around call host horderly hhost
  exact horderly.plugged (hrun.run.channel_isSome.trans hchannel) hhost

def Collaborators.hosted (host : ControllerHost) (failing : Bool) : Collaborators Channel :=
  { Collaborators.recording ⟨fun _ ↦ .error .notFound⟩ failing with host := some host }

theorem controllers_in_step_replugged : ∃ (log : List (Record Channel)) (s : Session Channel),
    HostedRun {} (.hosted {} true) log s ∧ log.length = 4 ∧ InStep (effectsOf log) s ∧
      s.slots.ids = [⟨1⟩] ∧ (effectsOf log).filterMap Effect.announced? =
        [(⟨1⟩, .added), (⟨1⟩, .removed), (⟨1⟩, .added)] := by
  have hstart : HostedRun {} (.hosted {} true) [] _ := .start ⟨_, rfl, rfl⟩ rfl
  have hadded := hstart.call (.hosted {} true) (.event (.hotPlug (.added 0)))
    ⟨rfl, ⟨_, _, rfl, rfl⟩, by rintro _ _ ⟨⟩ ⟨⟩; decide⟩
  have hrefused := hadded.call (.hosted ⟨[⟨1⟩], [], true⟩ true) (.event (.hotPlug (.added 4)))
    ⟨rfl, ⟨_, _, rfl, rfl⟩, by rintro _ _ ⟨⟩ ⟨⟩; decide⟩
  have hremoved := hrefused.call (.hosted ⟨[⟨1⟩], [], false⟩ true)
    (.event (.hotPlug (.removed ⟨1⟩))) ⟨rfl, ⟨_, _, rfl, rfl⟩, nofun⟩
  have hagain := hremoved.call (.hosted ⟨[], [⟨1⟩], false⟩ false) (.event (.hotPlug (.added 0)))
    ⟨rfl, ⟨_, _, rfl, rfl⟩, by rintro _ _ ⟨⟩ ⟨⟩; decide⟩
  exact ⟨_, _, hagain, rfl, (controllers_in_step hagain rfl).1, by decide,
    by decide⟩

end Session

end InputRelay
