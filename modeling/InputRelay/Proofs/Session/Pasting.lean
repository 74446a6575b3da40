import InputRelay.Proofs.Session.Handlers

namespace InputRelay

def Clipboard.text? (c : Option Clipboard) : Option String :=
  c.bind fun c ↦ c.content.toOption.filter (· ≠ "")

theorem Clipboard.toOption_read (c : Option Clipboard) : (read c).toOption = text? c := by
  match c with
  | none => rfl
  | some ⟨.error e⟩ => rfl
  | some ⟨.ok text⟩ =>
    by_cases h : text = ""
    · subst h
      rfl
    · simp [read, text?, Except.toOption, Option.filter, h]

namespace Turn

variable {κ : Type}

def askClipboard (t : Turn κ) : Turn κ :=
  if t.session.clipboard.isSome then t.emit .readClipboard else t

variable {t : Turn κ} {text : String}

theorem readClipboard_of_none (h : Clipboard.text? t.session.clipboard = none) :
    ∃ e, t.readClipboard = (.error e, t.askClipboard) := by
  rw [← Clipboard.toOption_read] at h
  cases hread : Clipboard.read t.session.clipboard with
  | error e => exact ⟨e, by rw [readClipboard, hread]; rfl⟩
  | ok text => rw [hread] at h; cases h

theorem readClipboard_of_text (h : Clipboard.text? t.session.clipboard = some text) :
    t.readClipboard = (.ok text, t.emit .readClipboard) := by
  have hread : Clipboard.read t.session.clipboard = .ok text := by
    rw [← Clipboard.toOption_read] at h
    cases hread : Clipboard.read t.session.clipboard with
    | error e => rw [hread] at h; cases h
    | ok text' => rw [hread] at h; exact congrArg _ (Option.some.inj h)
  cases hclipboard : t.session.clipboard with
  | none => rw [hclipboard] at h; cases h
  | some c => rw [readClipboard, hread, hclipboard]; rfl

variable [CommandSink κ]

theorem injectClipboard_of_none (h : Clipboard.text? t.session.clipboard = none) :
    t.injectClipboard = t.askClipboard := by
  obtain ⟨e, hread⟩ := readClipboard_of_none h
  rw [injectClipboard, hread]

theorem setClipboard_of_none (h : Clipboard.text? t.session.clipboard = none) (paste : Bool)
    (sequence : AckSequence) : t.setClipboard paste sequence = (false, t.askClipboard) := by
  obtain ⟨e, hread⟩ := readClipboard_of_none h
  rw [setClipboard, hread]

theorem attempt_of_channel (h : t.session.channel.isSome = true) (c : Command) :
    ∃ channel verdict, t.attempt c =
      (verdict.toBool, { t with session.channel := channel }.emit (.push c verdict)) := by
  rcases t.attempt_cases c with ⟨hnone, -⟩ | ⟨channel, verdict, -, h⟩
  · rw [hnone] at h
    cases h
  · exact ⟨some channel, verdict, h⟩

theorem injectClipboard_of_text (hchannel : t.session.channel.isSome = true)
    (h : Clipboard.text? t.session.clipboard = some text) : ∃ channel verdict,
    t.injectClipboard = ⟨{ t.session with channel },
      t.effects ++ [.readClipboard, .push (.injectText text) verdict]⟩ := by
  obtain ⟨channel, verdict, hpush⟩ :=
    attempt_of_channel (t := t.emit .readClipboard) hchannel (.injectText text)
  refine ⟨channel, verdict, ?_⟩
  rw [injectClipboard, readClipboard_of_text h]
  simp only [push, hpush]
  simp only [emit, List.append_assoc]
  rfl

theorem setClipboard_of_text (hchannel : t.session.channel.isSome = true)
    (h : Clipboard.text? t.session.clipboard = some text) (paste : Bool) (sequence : AckSequence) :
    ∃ channel verdict, t.setClipboard paste sequence = (verdict.toBool,
      ⟨{ t.session with channel },
        t.effects ++ [.readClipboard, .push (.setClipboard sequence text paste) verdict]⟩) := by
  obtain ⟨channel, verdict, hpush⟩ :=
    attempt_of_channel (t := t.emit .readClipboard) hchannel (.setClipboard sequence text paste)
  refine ⟨channel, verdict, ?_⟩
  rw [setClipboard, readClipboard_of_text h]
  simp only [hpush]
  simp only [emit, List.append_assoc]
  rfl

def handOver (text : String) (sequence : AckSequence) : List Effect :=
  [.readClipboard, .push (.setClipboard sequence text false) (.ok ())]

/-- What becomes of a Ctrl+V, when a clipboard is handed over under a number. -/
inductive Pasted (t : Turn κ) (e : KeyEvent) (sequence : AckSequence) : Turn κ → Prop
  | untouched : t.session.sync.autosync = false → Pasted t e sequence (t.emit (.key e .none))
  | unread : t.session.sync.autosync = true → Clipboard.text? t.session.clipboard = none →
      Pasted t e sequence t.askClipboard
  | typed {text : String} (channel : Option κ) (verdict : Except PushError Unit) :
      t.session.sync.autosync = true → t.session.sync.legacyPaste = true →
      Clipboard.text? t.session.clipboard = some text →
      Pasted t e sequence ⟨{ t.session with channel },
        t.effects ++ [.readClipboard, .push (.injectText text) verdict]⟩
  | refused {text : String} (channel : Option κ) (error : PushError) :
      t.session.sync.autosync = true → t.session.sync.legacyPaste = false →
      Clipboard.text? t.session.clipboard = some text →
      Pasted t e sequence ⟨{ t.session with channel },
        t.effects ++ [.readClipboard, .push (.setClipboard sequence text false) (.error error)]⟩
  | sent {text : String} (channel : Option κ) :
      t.session.sync.autosync = true → t.session.sync.legacyPaste = false →
      Clipboard.text? t.session.clipboard = some text →
      Pasted t e sequence
        ⟨{ t.session with
            channel
            sync.next :=
              if sequence.isNone then t.session.sync.next else t.session.sync.next.next },
          t.effects ++ (handOver text sequence ++ [.key e sequence])⟩

theorem pasted_forwardKey (hchannel : t.session.channel.isSome = true) (keys : KeyProcessor)
    {e : KeyEvent} (he : isCtrlV e = true) :
    Pasted t e (if keys.asyncPaste then t.session.sync.next else .none) (t.forwardKey keys e) := by
  rw [forwardKey, if_pos he, if_pos hchannel]
  simp only [beforeCtrlV]
  generalize (if keys.asyncPaste then t.session.sync.next else .none) = sequence
  cases hauto : t.session.sync.autosync with
  | false => exact .untouched hauto
  | true =>
    cases hlegacy : t.session.sync.legacyPaste with
    | true =>
      cases htext : Clipboard.text? t.session.clipboard with
      | none =>
        rw [injectClipboard_of_none htext]
        exact .unread hauto htext
      | some text =>
        obtain ⟨channel, verdict, hinject⟩ := injectClipboard_of_text hchannel htext
        rw [hinject]
        exact .typed channel verdict hauto hlegacy htext
    | false =>
      cases htext : Clipboard.text? t.session.clipboard with
      | none =>
        rw [setClipboard_of_none htext]
        exact .unread hauto htext
      | some text =>
        obtain ⟨channel, verdict, hset⟩ := setClipboard_of_text hchannel htext false sequence
        rw [hset]
        cases verdict with
        | error error => exact .refused channel error hauto hlegacy htext
        | ok =>
          have hsent : Pasted t e sequence _ := .sent channel hauto hlegacy htext
          cases hnone : sequence.isNone with
          | true =>
            have hzero : sequence = .none := eq_of_beq hnone
            simpa [emit, handOver, Except.toBool, hnone, ← hzero] using hsent
          | false => simpa [emit, handOver, Except.toBool, hnone] using hsent

end Turn

end InputRelay
