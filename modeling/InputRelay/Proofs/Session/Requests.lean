import InputRelay.Proofs.Session.Mapped

namespace InputRelay

open Deed

inductive LoadFailure
  | noDialog
  | cancelled
  | file (e : TouchmapError)

variable {κ : Type}

namespace Session

def runs (s : Session κ) (action : ShortcutAction) (e : KeyEvent) : Bool :=
  s.shortcutMods.isShortcut e.key e.mods &&
    (Shortcut.find? e.key e.mods.hasShift).any fun x ↦
      x.action == action && x.guard.permits (s.meets e)

def readTouchmap (s : Session κ) (path : String) : Except LoadFailure Touchmap :=
  (Touchmap.ofFile s.disk path).mapError .file

def chooseTouchmap (s : Session κ) : Except LoadFailure Touchmap :=
  match s.picker with
  | none => .error .noDialog
  | some answers =>
    match answers.head?.join with
    | none => .error .cancelled
    | some path => s.readTouchmap path

theorem exists_of_runs {s : Session κ} {e : KeyEvent} {action : ShortcutAction}
    (h : s.runs action e = true) : ∃ x, Shortcut.find? e.key e.mods.hasShift = some x ∧
      x.action = action ∧ x.guard.permits (s.meets e) = true := by
  rw [runs, Bool.and_eq_true, Option.any_eq_true] at h
  obtain ⟨-, x, hx, h⟩ := h
  rw [Bool.and_eq_true, beq_iff_eq] at h
  exact ⟨x, hx, h⟩

/-- A call asks for a touchmap, which is found or not. -/
inductive AsksLoad (s : Session κ) : Call → Except LoadFailure Touchmap → Prop
  | path (path : String) : AsksLoad s (.load path) (s.readTouchmap path)
  | shortcut {e : KeyEvent} :
      s.runs .loadTouchmap e = true → AsksLoad s (.event (.key e)) s.chooseTouchmap

inductive AsksUnload (s : Session κ) : Call → Prop
  | direct : AsksUnload s .unload
  | shortcut {e : KeyEvent} : s.runs .unloadTouchmap e = true → AsksUnload s (.event (.key e))

end Session

namespace Turn

theorem runs_countPress (t : Turn κ) (e e' : KeyEvent) (action : ShortcutAction) :
    (t.countPress e).session.runs action e' = t.session.runs action e' := by
  unfold countPress
  split <;> rfl

theorem chooseTouchmap_countPress (t : Turn κ) (e : KeyEvent) :
    (t.countPress e).session.chooseTouchmap = t.session.chooseTouchmap := by
  unfold countPress
  split <;> rfl

def askFile (t : Turn κ) : Turn κ :=
  match t.session.picker with
  | none => t
  | some answers =>
    { t with session.picker := some answers.tail }.emit (.pickFile answers.head?.join)

variable [CommandSink κ] (t : Turn κ)

theorem Within.session_of_touching {t t' : Turn κ} (h : Within Touching t t') :
    t'.session = { t.session with
      channel := t'.session.channel
      engine := t'.session.engine } := by
  refine h.preserves (P := fun u ↦ u.session = { t.session with
    channel := u.session.channel
    engine := u.session.engine }) ?_ rfl
  intro d u u' hd hdoes hu
  cases hdoes with
  | offer _ c =>
    obtain ⟨channel, -, hsession⟩ := push_session u c
    rw [hsession]
    exact congrArg (fun s : Session κ ↦ { s with channel }) hu
  | engine _ engine => exact congrArg (fun s : Session κ ↦ { s with engine }) hu
  | _ => exact hd.elim

theorem shortcut_of_runs {e : KeyEvent} {action : ShortcutAction}
    (h : t.session.runs action e = true) : t.shortcut e = t.act e.state action := by
  obtain ⟨x, hx, rfl, hpermits⟩ := Session.exists_of_runs h
  simp only [shortcut, hx, hpermits, if_true]

theorem key_of_runs {e : KeyEvent} {action : ShortcutAction}
    (h : t.session.runs action e = true) : t.key e = (t.countPress e).act e.state action := by
  rcases t.key_eq_cases e with ⟨-, hkey⟩ | ⟨hplain, -⟩
  · rw [hkey]
    exact shortcut_of_runs _ (by rw [runs_countPress, h])
  · rw [Session.runs, hplain] at h
    cases h

/-- Lift what the loaded touchmap holds and put another engine, or none, in its place. -/
def switchEngine (t : Turn κ) (engine : Option TouchmapEngine) (forwards : Bool) : Turn κ :=
  let t := t.releaseContacts
  { t with session.engine := engine, session.forwards := forwards }

theorem loadTouchmap_of_error {path : String} {failure : LoadFailure}
    (h : t.session.readTouchmap path = .error failure) : (t.loadTouchmap path).2 = t := by
  unfold Session.readTouchmap at h
  unfold loadTouchmap
  cases hfile : Touchmap.ofFile t.session.disk path with
  | error e => rfl
  | ok map =>
    rw [hfile] at h
    cases h

theorem loadTouchmap_of_ok {path : String} {map : Touchmap}
    (h : t.session.readTouchmap path = .ok map) :
    (t.loadTouchmap path).2 = t.switchEngine (some (.ofTouchmap map)) false := by
  unfold Session.readTouchmap at h
  unfold loadTouchmap
  cases hfile : Touchmap.ofFile t.session.disk path with
  | error e =>
    rw [hfile] at h
    cases h
  | ok map' =>
    rw [hfile] at h
    cases h
    rfl

theorem pickTouchmap_of_error {failure : LoadFailure}
    (h : t.session.chooseTouchmap = .error failure) : t.pickTouchmap = t.askFile := by
  unfold Session.chooseTouchmap at h
  unfold pickTouchmap askFile
  cases hpicker : t.session.picker with
  | none => rfl
  | some answers =>
    rw [hpicker] at h
    cases hanswer : answers.head?.join with
    | none => simp only [hanswer]
    | some path =>
      simp only [hanswer] at h ⊢
      exact loadTouchmap_of_error _ h

theorem pickTouchmap_of_ok {map : Touchmap} (h : t.session.chooseTouchmap = .ok map) :
    t.pickTouchmap = t.askFile.switchEngine (some (.ofTouchmap map)) false := by
  unfold Session.chooseTouchmap at h
  unfold pickTouchmap askFile
  cases hpicker : t.session.picker with
  | none =>
    rw [hpicker] at h
    cases h
  | some answers =>
    rw [hpicker] at h
    cases hanswer : answers.head?.join with
    | none =>
      simp only [hanswer] at h
      cases h
    | some path =>
      simp only [hanswer] at h ⊢
      exact loadTouchmap_of_ok _ h

/-- Unless a key runs one of the two shortcuts that replace the touchmap, it has nothing to do with
it. -/
theorem key_request_cases (e : KeyEvent) :
    Within (fun d ↦ d.Untouching ∧ d.Unrouted) t (t.key e) ∨
      (t.session.runs .loadTouchmap e = true ∧ t.key e = (t.countPress e).pickTouchmap) ∨
      (t.session.runs .unloadTouchmap e = true ∧ t.key e = (t.countPress e).unloadTouchmap) := by
  by_cases hload : t.session.runs .loadTouchmap e = true
  · exact Or.inr (Or.inl ⟨hload, t.key_of_runs hload⟩)
  by_cases hunload : t.session.runs .unloadTouchmap e = true
  · exact Or.inr (Or.inr ⟨hunload, t.key_of_runs hunload⟩)
  have hcount : Within (fun d ↦ d.Untouching ∧ d.Unrouted) t (t.countPress e) :=
    t.within_countPress ⟨trivial, trivial⟩ e
  refine Or.inl ?_
  rcases t.key_eq_cases e with ⟨hshortcut, h⟩ | ⟨-, h | ⟨keys, h⟩⟩ <;> rw [h]
  · refine hcount.trans ?_
    rw [← t.runs_countPress e] at hload hunload
    have hshortcut : (t.countPress e).session.shortcutMods.isShortcut e.key e.mods = true := by
      rw [hcount.settings_eq.2.2, hshortcut]
    simp only [Session.runs, hshortcut, Bool.true_and] at hload hunload
    unfold shortcut
    split
    · exact .refl _
    rename_i x hx
    rw [hx, Option.any_some] at hload hunload
    split
    · rename_i hpermits
      rw [hpermits, Bool.and_true, beq_iff_eq] at hload hunload
      by_cases hkey : ∃ key, x.action = .deviceKey key
      · obtain ⟨key, hkey⟩ := hkey
        rw [hkey]
        exact within_push _ ⟨trivial, trivial⟩
      · exact (within_act _ e.state (not_exists.mp hkey) hload hunload).mono
          fun _ hd ↦ ⟨hd.1.untouching, hd.1.unrouted⟩
    · exact .refl _
  · exact hcount
  · exact hcount.trans ((within_forwardKey _ keys e).mono fun _ hd ↦ ⟨hd.1, hd.2.1⟩)

end Turn

namespace Session

/-- What comes before a touchmap is replaced: a key is counted, and the file dialog may be shown. -/
inductive Preamble (s : Session κ) : Turn κ → Prop
  | counted (repeats : KeyRepeat) : Preamble s ⟨{ s with repeats }, []⟩
  | asked (repeats : KeyRepeat) {answers : List (Option String)} : s.picker = some answers →
      Preamble s
        ⟨{ s with repeats, picker := some answers.tail }, [.pickFile answers.head?.join]⟩

theorem preamble_countPress (s : Session κ) (e : KeyEvent) :
    Preamble s (Turn.countPress ⟨s, []⟩ e) := by
  obtain ⟨repeats, hcount⟩ := Turn.countPress_eq s e
  rw [hcount]
  exact .counted repeats

theorem preamble_askFile (s : Session κ) (e : KeyEvent) :
    Preamble s (Turn.countPress ⟨s, []⟩ e).askFile := by
  obtain ⟨repeats, hcount⟩ := Turn.countPress_eq s e
  rw [hcount]
  unfold Turn.askFile
  split
  · exact .counted repeats
  · exact .asked repeats ‹_›

variable [CommandSink κ] {s : Session κ} {call : Call}

theorem AsksLoad.call_error {failure : LoadFailure} (h : s.AsksLoad call (.error failure)) :
    Preamble s (s.call call) := by
  generalize hresult : Except.error failure = result at h
  cases h with
  | path path =>
    rw [Session.call, Turn.call, Turn.loadTouchmap_of_error ⟨s, []⟩ hresult.symm]
    exact .counted s.repeats
  | @shortcut e hruns =>
    have hpick := (Turn.chooseTouchmap_countPress ⟨s, []⟩ e).trans hresult.symm
    rw [Session.call, Turn.call, Turn.handle, Turn.key_of_runs ⟨s, []⟩ hruns, Turn.act,
      Turn.pickTouchmap_of_error _ hpick]
    exact s.preamble_askFile e

theorem AsksLoad.call_ok {map : Touchmap} (h : s.AsksLoad call (.ok map)) :
    ∃ t, Preamble s t ∧ s.call call = t.switchEngine (some (.ofTouchmap map)) false := by
  generalize hresult : Except.ok map = result at h
  cases h with
  | path path =>
    exact ⟨⟨s, []⟩, .counted s.repeats, Turn.loadTouchmap_of_ok ⟨s, []⟩ hresult.symm⟩
  | @shortcut e hruns =>
    have hpick := (Turn.chooseTouchmap_countPress ⟨s, []⟩ e).trans hresult.symm
    refine ⟨_, s.preamble_askFile e, ?_⟩
    rw [Session.call, Turn.call, Turn.handle, Turn.key_of_runs ⟨s, []⟩ hruns, Turn.act,
      Turn.pickTouchmap_of_ok _ hpick]

theorem AsksUnload.call_eq (h : s.AsksUnload call) :
    ∃ t, Preamble s t ∧ s.call call = t.switchEngine none true := by
  cases h with
  | direct => exact ⟨⟨s, []⟩, .counted s.repeats, rfl⟩
  | @shortcut e hruns =>
    refine ⟨_, s.preamble_countPress e, ?_⟩
    rw [Session.call, Turn.call, Turn.handle, Turn.key_of_runs ⟨s, []⟩ hruns, Turn.act]
    rfl

def outputs (s : Session κ) : List (Collaborators κ × Call) → List (List Effect)
  | [] => []
  | (around, call) :: later =>
    ((s.amid around).call call).effects :: ((s.amid around).call call).session.outputs later

end Session

end InputRelay
