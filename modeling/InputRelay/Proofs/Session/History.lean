import InputRelay.Proofs.Session.Handlers

namespace InputRelay

inductive Call
  | event (e : Event)
  | load (path : String)
  | unload

/-- A call with what was around the session and with what it did. -/
structure Record (κ : Type) where
  around : Session.Collaborators κ
  call : Call
  effects : List Effect

def effectsOf {κ : Type} (log : List (Record κ)) : List Effect :=
  log.flatMap (·.effects)

def Effect.isRefused : Effect → Bool
  | .push _ (.error _) => true
  | _ => false

theorem effectsOf_concat {κ : Type} (log : List (Record κ)) (r : Record κ) :
    effectsOf (log ++ [r]) = effectsOf log ++ r.effects := by
  simp [effectsOf]

def Session.Collaborators.recording (disk : Disk) (failing : Bool) : Collaborators Channel where
  screen := .ofFrame ⟨100, 100⟩
  channel := some (.recorder [] failing)
  disk := disk

variable {κ : Type} [CommandSink κ]

def Turn.call (t : Turn κ) : Call → Turn κ
  | .event e => t.handle e
  | .load path => (t.loadTouchmap path).2
  | .unload => t.unloadTouchmap

namespace Session

def amid (s : Session κ) (c : Collaborators κ) : Session κ :=
  { s with
    screen := c.screen
    channel := c.channel
    keys := c.keys
    pointer := c.pointer
    files := c.files
    picker := c.picker
    clipboard := c.clipboard
    host := c.host
    disk := c.disk }

def call (s : Session κ) (c : Call) : Turn κ :=
  Turn.call ⟨s, []⟩ c

/-- What a session has been through. From one call to the next everything around it may become
something else, but a channel neither comes nor goes. -/
inductive Run (config : Config) (c : Collaborators κ) : List (Record κ) → Session κ → Prop
  | start {t : Turn κ} : start config c = .ok t → Run config c [] t.session
  | call {log : List (Record κ)} {s : Session κ} (around : Collaborators κ) (call : Call) :
      Run config c log s → around.channel.isSome = s.channel.isSome →
      Run config c (log ++ [⟨around, call, ((s.amid around).call call).effects⟩])
        ((s.amid around).call call).session

theorem effects_loadTouchmap {s : Session κ} (h : s.engine = none) (path : String) :
    (s.loadTouchmap path).2.effects = [] := by
  simp only [loadTouchmap, Turn.loadTouchmap, Turn.releaseContacts, h]
  split <;> rfl

/-- A session that has just been set up, before a touchmap is loaded. -/
structure Fresh (config : Config) (c : Collaborators κ) (s : Session κ) : Prop where
  engine : s.engine = none
  finger : s.finger = {}
  disk : s.disk = c.disk
  next : s.sync.next = ⟨1⟩
  channel : s.channel = c.channel
  host : s.host = c.host
  slots : s.slots = .empty
  bindings : s.bindings = config.bindings
  shortcutMods : s.shortcutMods = .ofList config.input.shortcutMods

theorem start_cases {config : Config} {c : Collaborators κ} {t : Turn κ}
    (h : start config c = .ok t) : ∃ s : Session κ, Fresh config c s ∧
      (t = ⟨s, []⟩ ∨ ∃ path, t = (s.loadTouchmap path).2) := by
  unfold start at h
  split at h
  · exact absurd h (by simp)
  · extract_lets session at h
    obtain rfl := Except.ok.inj h
    refine ⟨session, ⟨rfl, rfl, rfl, rfl, rfl, rfl, rfl, rfl, rfl⟩, ?_⟩
    split
    · exact Or.inl rfl
    · exact Or.inr ⟨_, rfl⟩

theorem effects_start {config : Config} {c : Collaborators κ} {t : Turn κ}
    (h : start config c = .ok t) : t.effects = [] := by
  obtain ⟨s, hs, rfl | ⟨path, rfl⟩⟩ := start_cases h
  · rfl
  · exact effects_loadTouchmap hs.engine path

theorem channel_of_start {config : Config} {c : Collaborators κ} {t : Turn κ}
    (h : start config c = .ok t) (hprocessor : c.keys.isSome ∨ c.pointer.isSome) :
    c.channel.isSome = true := by
  unfold start at h
  split at h
  · exact absurd h (by simp)
  · rename_i hneeds
    cases hchannel : c.channel with
    | none => exact absurd ⟨by simp [hchannel], hprocessor⟩ hneeds
    | some channel => rfl

end Session

namespace Turn

/-- What a call comes to. Most events have only incidental effects. -/
inductive Handled (t : Turn κ) : Call → Turn κ → Prop
  | incidental {call : Call} {u : Turn κ} : Within Deed.Incidental t u → Handled t call u
  | key (e : KeyEvent) : Handled t (.event (.key e)) (t.key e)
  | motion (e : MouseMotion) : Handled t (.event (.motion e)) (t.motion e)
  | click (e : MouseClick) : Handled t (.event (.click e)) (t.click e)
  | axis (e : AxisMotion) : t.session.channel.isSome = true →
      Handled t (.event (.axis e)) (t.axis e)
  | padButton (e : PadButton) : t.session.channel.isSome = true →
      Handled t (.event (.padButton e)) (t.padButton e)
  | load (path : String) : Handled t (.load path) (t.loadTouchmap path).2
  | unload : Handled t .unload t.unloadTouchmap

theorem handled_call (t : Turn κ) (call : Call) : Handled t call (t.call call) := by
  cases call with
  | load path => exact .load path
  | unload => exact .unload
  | event event =>
    cases event with
    | key e => exact .key e
    | text e => exact .incidental (t.within_text ⟨trivial, trivial, trivial, trivial⟩)
    | motion e => exact .motion e
    | click e => exact .click e
    | wheel e =>
      exact .incidental (t.within_wheel (fun _ ↦ ⟨trivial, trivial, trivial, trivial⟩) e)
    | touch e =>
      exact .incidental (t.within_fingerTouch (fun _ ↦ ⟨trivial, trivial, trivial, trivial⟩) e)
    | fileDrop path =>
      simp only [Turn.call, handle]
      split
      · exact .incidental (t.within_fileDrop fun _ _ ↦ ⟨trivial, trivial, trivial, trivial⟩)
      · exact .incidental (.refl t)
    | axis e =>
      simp only [Turn.call, handle]
      split
      · exact .axis e ‹_›
      · exact .incidental (.refl t)
    | padButton e =>
      simp only [Turn.call, handle]
      split
      · exact .padButton e ‹_›
      · exact .incidental (.refl t)
    | hotPlug e =>
      simp only [Turn.call, handle]
      split
      · exact .incidental ((t.within_hotPlug e).mono Deed.Of.incidental)
      · exact .incidental (.refl t)

/-- Unless a key is handed on as a Ctrl+V, a call leaves the numbers of acknowledgments alone. -/
theorem acknowledgment_cases (t : Turn κ) (call : Call) :
    Within Deed.Unacknowledged t (t.call call) ∨ ∃ e keys, call = .event (.key e) ∧
      isCtrlV e = true ∧ t.call call = (t.countPress e).forwardKey keys e := by
  have htouch : ∀ d : Deed, d.Touching → d.Unacknowledged :=
    fun d hd ↦ (hd.replacing d).unacknowledged
  have hcall := t.handled_call call
  generalize t.call call = u at hcall ⊢
  cases hcall with
  | incidental hu => exact Or.inl (hu.mono fun _ hd ↦ hd.unacknowledged)
  | key e =>
    rcases t.key_unacknowledged_cases e with h | ⟨keys, hpaste, h⟩
    · exact Or.inl h
    · exact Or.inr ⟨e, keys, rfl, hpaste, h⟩
  | motion e => exact Or.inl ((t.within_motion e).mono fun d hd ↦ (hd.pointing d).unacknowledged)
  | click e => exact Or.inl ((t.within_click e).mono fun d hd ↦ (hd.pointing d).unacknowledged)
  | axis e => exact Or.inl (t.within_axis e trivial htouch)
  | padButton e => exact Or.inl (t.within_padButton e trivial htouch)
  | load path => exact Or.inl ((t.within_loadTouchmap path).mono Deed.Replacing.unacknowledged)
  | unload => exact Or.inl (t.within_unloadTouchmap.mono Deed.Replacing.unacknowledged)

theorem within_call (t : Turn κ) (call : Call) : Within (fun _ ↦ True) t (t.call call) := by
  rcases t.acknowledgment_cases call with h | ⟨e, keys, -, -, h⟩
  · exact h.mono fun _ _ ↦ trivial
  · rw [h]
    exact (t.within_countPress trivial e).trans
      ((within_forwardKey _ keys e).mono fun _ _ ↦ trivial)

end Turn

namespace Session

variable {config : Config} {c : Collaborators κ} {log : List (Record κ)} {s : Session κ}

theorem Run.channel_isSome (h : Run config c log s) : s.channel.isSome = c.channel.isSome := by
  induction h with
  | start h =>
    obtain ⟨s, hs, rfl | ⟨path, rfl⟩⟩ := start_cases h
    · rw [hs.channel]
    · exact (Turn.within_loadTouchmap ⟨s, []⟩ path).channel_isSome.trans (by rw [hs.channel])
  | @call log s around call h hchannel ih =>
    exact (Turn.within_call ⟨s.amid around, []⟩ call).channel_isSome.trans (hchannel.trans ih)

theorem Run.exists_start (h : Run config c log s) : ∃ t, Session.start config c = .ok t := by
  induction h with
  | start h => exact ⟨_, h⟩
  | call _ _ _ _ ih => exact ih

theorem Run.channel_of_processor (h : Run config c log s)
    (hprocessor : c.keys.isSome ∨ c.pointer.isSome) : s.channel.isSome = true := by
  obtain ⟨t, ht⟩ := h.exists_start
  exact h.channel_isSome.trans (channel_of_start ht hprocessor)

theorem Run.exists_of_mem (h : Run config c log s) {r : Record κ} (hr : r ∈ log) :
    ∃ before s, before ⊆ log ∧ Run config c before s ∧
      r.around.channel.isSome = s.channel.isSome ∧
      r.effects = ((s.amid r.around).call r.call).effects := by
  induction h with
  | start => cases hr
  | @call before s around call hrun hchannel ih =>
    rcases List.mem_append.mp hr with hr | hr
    · obtain ⟨before', s', hsub, h⟩ := ih hr
      exact ⟨before', s', List.subset_append_of_subset_left _ hsub, h⟩
    · cases List.mem_singleton.mp hr
      exact ⟨before, s, List.subset_append_left _ _, hrun, hchannel, rfl⟩

theorem Run.settings_eq (h : Run config c log s) :
    s.bindings = config.bindings ∧ s.shortcutMods = .ofList config.input.shortcutMods := by
  induction h with
  | start h =>
    obtain ⟨s, hs, rfl | ⟨path, rfl⟩⟩ := start_cases h
    · exact ⟨hs.bindings, hs.shortcutMods⟩
    · obtain ⟨hbindings, -, hmods⟩ := (Turn.within_loadTouchmap ⟨s, []⟩ path).settings_eq
      exact ⟨hbindings.trans hs.bindings, hmods.trans hs.shortcutMods⟩
  | @call log s around call h hchannel ih =>
    obtain ⟨hbindings, -, hmods⟩ := (Turn.within_call ⟨s.amid around, []⟩ call).settings_eq
    exact ⟨hbindings.trans ih.1, hmods.trans ih.2⟩

end Session

end InputRelay
