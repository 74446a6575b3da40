import InputRelay.Proofs.Session.Independence
import InputRelay.Proofs.Session.Pinch

namespace InputRelay

inductive Outcome
  | taken
  | refused (e : PushError)
  | skipped
deriving DecidableEq

/-- Touches are taken one after another until one is refused, and then all are skipped. -/
inductive Cut : List Outcome → Prop
  | nil : Cut []
  | taken {rest : List Outcome} (h : Cut rest) : Cut (.taken :: rest)
  | refused (e : PushError) {rest : List Outcome} (h : ∀ o ∈ rest, o = .skipped) :
      Cut (.refused e :: rest)

def Outcome.verdict? : Outcome → Option (Except PushError Unit)
  | taken => some (.ok ())
  | refused e => some (.error e)
  | skipped => none

abbrev Sent := List (SyntheticTouch × Outcome)

namespace Sent

variable {sent : Sent} {finger : PointerId} {touch : SyntheticTouch} {lost : List PointerId}

def outcomesOf (sent : Sent) (finger : PointerId) : List Outcome :=
  (sent.filter (·.1.finger = finger)).map (·.2)

def taken (sent : Sent) : List SyntheticTouch :=
  (sent.filter (·.2 = .taken)).map (·.1)

def verdicts (sent : Sent) : List (Except PushError Unit) :=
  sent.filterMap (·.2.verdict?)

theorem outcomesOf_cons_self (touch : SyntheticTouch) (o : Outcome) :
    outcomesOf ((touch, o) :: sent) touch.finger = o :: sent.outcomesOf touch.finger := by
  simp [outcomesOf]

theorem outcomesOf_cons_of_ne (h : touch.finger ≠ finger) (o : Outcome) :
    outcomesOf ((touch, o) :: sent) finger = sent.outcomesOf finger := by
  simp [outcomesOf, h]

/-- A finger that has lost a touch already sends no more, and any other until it loses one. -/
def MayEnd (lost : List PointerId) (finger : PointerId) (outcomes : List Outcome) : Prop :=
  (finger ∈ lost → ∀ o ∈ outcomes, o = .skipped) ∧ (finger ∉ lost → Cut outcomes)

def Respects (lost : List PointerId) (sent : Sent) : Prop :=
  ∀ finger, MayEnd lost finger (sent.outcomesOf finger)

theorem Respects.cons {lost' : List PointerId} {o : Outcome} (h : sent.Respects lost')
    (hothers : ∀ finger, touch.finger ≠ finger → (finger ∈ lost ↔ finger ∈ lost'))
    (hown : MayEnd lost touch.finger (o :: sent.outcomesOf touch.finger)) :
    Respects lost ((touch, o) :: sent) := by
  intro finger
  by_cases heq : touch.finger = finger
  · rw [← heq, outcomesOf_cons_self]
    exact hown
  · rw [outcomesOf_cons_of_ne heq, MayEnd, hothers finger heq]
    exact h finger

theorem Respects.skip (h : sent.Respects lost) (hlost : touch.finger ∈ lost) :
    Respects lost ((touch, .skipped) :: sent) := by
  refine h.cons (fun _ _ ↦ Iff.rfl) ⟨fun _ ↦ ?_, fun hfree ↦ absurd hlost hfree⟩
  exact List.forall_mem_cons.mpr ⟨rfl, (h touch.finger).1 hlost⟩

theorem Respects.taken (h : sent.Respects lost) (hfree : touch.finger ∉ lost) :
    Respects lost ((touch, .taken) :: sent) := by
  refine h.cons (fun _ _ ↦ Iff.rfl) ⟨fun hlost ↦ absurd hlost hfree, fun _ ↦ ?_⟩
  exact .taken ((h touch.finger).2 hfree)

theorem Respects.refused (h : sent.Respects (touch.finger :: lost)) (hfree : touch.finger ∉ lost)
    (e : PushError) : Respects lost ((touch, .refused e) :: sent) := by
  refine h.cons (fun finger hne ↦ ?_) ⟨fun hlost ↦ absurd hlost hfree, fun _ ↦ ?_⟩
  · rw [List.mem_cons, or_iff_right hne.symm]
  · exact .refused e ((h touch.finger).1 List.mem_cons_self)

end Sent

def CommandSink.answers {κ : Type} [CommandSink κ] (channel : κ) :
    List Command → List (Except PushError Unit)
  | [] => []
  | c :: offered => (push channel c).1 :: answers (push channel c).2 offered

namespace Turn

variable {κ : Type} {t : Turn κ} {channel : κ} {sent : Sent} {touch : SyntheticTouch}

def offered (t : Turn κ) (sent : Sent) : List Command :=
  (sent.filter (·.2 ≠ .skipped)).map fun (touch, _) ↦
    t.touchCommand touch.finger touch.action touch.point

theorem offered_cons {o : Outcome} (h : o ≠ .skipped) (t : Turn κ) (touch : SyntheticTouch)
    (sent : Sent) : t.offered ((touch, o) :: sent) =
      t.touchCommand touch.finger touch.action touch.point :: t.offered sent := by
  simp [offered, h]

variable [CommandSink κ]

/-- The turn after touches with these outcomes. The engine takes note of those that are taken. -/
def afterSending (t : Turn κ) (channel : κ) (sent : Sent) : Turn κ :=
  ⟨{ t.session with
      channel := some (CommandSink.after channel (t.offered sent))
      engine := t.session.engine.map fun e ↦ sent.taken.foldl TouchmapEngine.commit e },
    t.effects ++ List.zipWith .push (t.offered sent) sent.verdicts⟩

theorem afterSending_nil (h : t.session.channel = some channel) :
    t.afterSending channel [] = t := by
  obtain ⟨session, effects⟩ := t
  simp [afterSending, CommandSink.after, offered, Sent.taken, ← h]

def answer (t : Turn κ) (channel : κ) (touch : SyntheticTouch) : Except PushError Unit × κ :=
  CommandSink.push channel (t.touchCommand touch.finger touch.action touch.point)

def offer (t : Turn κ) (touch : SyntheticTouch) (answer : Except PushError Unit × κ) : Turn κ :=
  { t with session.channel := some answer.2 }.emit
    (.push (t.touchCommand touch.finger touch.action touch.point) answer.1)

theorem touch_eq (h : t.session.channel = some channel) (touch : SyntheticTouch) :
    t.touch touch.finger touch.action touch.point =
      ((t.answer channel touch).1.toBool, t.offer touch (t.answer channel touch)) := by
  simp [Turn.touch, attempt, h, touchCommand, offer, answer]

theorem afterSending_taken {channel' : κ} (h : t.answer channel touch = (.ok (), channel'))
    (sent : Sent) : t.afterSending channel ((touch, .taken) :: sent) =
      ((t.offer touch (.ok (), channel')).commit touch).afterSending channel' sent := by
  rw [answer] at h
  have hsame : ((t.offer touch (.ok (), channel')).commit touch).offered sent = t.offered sent :=
    rfl
  rw [afterSending, afterSending, hsame, offered_cons (by decide)]
  simp [Sent.taken, Sent.verdicts, Outcome.verdict?, offer, commit, emit,
    CommandSink.after, h, Function.comp_def]

theorem afterSending_refused {e : PushError} {channel' : κ}
    (h : t.answer channel touch = (.error e, channel')) (sent : Sent) :
    t.afterSending channel ((touch, .refused e) :: sent) =
      (t.offer touch (.error e, channel')).afterSending channel' sent := by
  rw [answer] at h
  have hsame : (t.offer touch (.error e, channel')).offered sent = t.offered sent := rfl
  rw [afterSending, afterSending, hsame, offered_cons (by simp)]
  simp [Sent.taken, Sent.verdicts, Outcome.verdict?, offer, emit, CommandSink.after, h]

theorem exists_sent (h : t.session.channel = some channel) (lost : List PointerId)
    (touches : List SyntheticTouch) : ∃ sent : Sent, sent.map (·.1) = touches ∧
      sent.Respects lost ∧ sent.verdicts = CommandSink.answers channel (t.offered sent) ∧
      t.sendTouches lost touches = t.afterSending channel sent := by
  induction touches generalizing t channel lost with
  | nil =>
    exact ⟨[], rfl, fun _ ↦ ⟨fun _ ↦ List.forall_mem_nil _, fun _ ↦ .nil⟩, rfl,
      (afterSending_nil h).symm⟩
  | cons touch touches ih =>
    unfold sendTouches
    by_cases hlost : touch.finger ∈ lost
    · obtain ⟨sent, hsent, hrespects, hverdicts, hend⟩ := ih h lost
      rw [if_pos (List.contains_iff_mem.mpr hlost)]
      exact ⟨(touch, .skipped) :: sent, congrArg (touch :: ·) hsent, hrespects.skip hlost,
        hverdicts, hend⟩
    rw [if_neg (by simpa using hlost), touch_eq h]
    rcases hanswer : t.answer channel touch with ⟨verdict, channel'⟩
    cases verdict with
    | ok =>
      obtain ⟨sent, hsent, hrespects, hverdicts, hend⟩ :=
        ih (t := (t.offer touch (.ok (), channel')).commit touch) rfl lost
      refine ⟨(touch, .taken) :: sent, congrArg (touch :: ·) hsent, hrespects.taken hlost, ?_,
        hend.trans (afterSending_taken hanswer sent).symm⟩
      rw [answer] at hanswer
      rw [offered_cons (by decide), CommandSink.answers, hanswer]
      exact congrArg (.ok () :: ·) hverdicts
    | error e =>
      -- for the rest of the touches this finger is one of the lost ones
      obtain ⟨sent, hsent, hrespects, hverdicts, hend⟩ :=
        ih (t := t.offer touch (.error e, channel')) rfl (touch.finger :: lost)
      refine ⟨(touch, .refused e) :: sent, congrArg (touch :: ·) hsent,
        hrespects.refused hlost e, ?_, hend.trans (afterSending_refused hanswer sent).symm⟩
      rw [answer] at hanswer
      rw [offered_cons (by simp), CommandSink.answers, hanswer]
      exact congrArg (.error e :: ·) hverdicts

theorem sendTouches_of_no_channel (h : t.session.channel = none) (lost : List PointerId)
    (touches : List SyntheticTouch) : t.sendTouches lost touches = t := by
  induction touches generalizing lost with
  | nil => rfl
  | cons touch touches ih =>
    unfold sendTouches
    split
    · exact ih lost
    · have hrefused : t.touch touch.finger touch.action touch.point = (false, t) := by
        simp [Turn.touch, attempt, h]
      rw [hrefused]
      exact ih _

/-- A refused touch silences its own finger and no other. The touches of a finger are taken up to
its first refused one and no later one is offered; the offers keep their order, and the engine
takes note of just those that are taken. -/
theorem lost_touch_silences_finger (t : Turn κ) (touches : List SyntheticTouch) :
    (t.session.channel = none ∧ t.sendTouches [] touches = t) ∨
      ∃ (channel : κ) (sent : Sent), t.session.channel = some channel ∧
        sent.map (·.1) = touches ∧ (∀ finger, Cut (sent.outcomesOf finger)) ∧
        sent.verdicts = CommandSink.answers channel (t.offered sent) ∧
        t.sendTouches [] touches = t.afterSending channel sent := by
  cases hchannel : t.session.channel with
  | none => exact Or.inl ⟨rfl, sendTouches_of_no_channel hchannel [] touches⟩
  | some channel =>
    obtain ⟨sent, hsent, hrespects, hverdicts, hend⟩ := exists_sent hchannel [] touches
    exact Or.inr ⟨channel, sent, rfl, hsent, fun finger ↦ (hrespects finger).2 List.not_mem_nil,
      hverdicts, hend⟩

end Turn

end InputRelay
