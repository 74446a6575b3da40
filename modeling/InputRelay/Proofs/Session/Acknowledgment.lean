import InputRelay.Proofs.Session.History
import InputRelay.Proofs.Session.Pasting
import Mathlib.Algebra.Group.Nat.Defs

namespace InputRelay

theorem AckSequence.toNat_next {s : AckSequence} {n : ℕ} (h : s.val.toNat = 1 + n % (2 ^ 64 - 1)) :
    s.next.val.toNat = 1 + (n + 1) % (2 ^ 64 - 1) := by
  unfold next
  split
  · rename_i hmax
    rw [hmax] at h
    have hmax : (18446744073709551615 : UInt64).toNat = 2 ^ 64 - 1 := rfl
    have hone : (1 : UInt64).toNat = 1 := rfl
    dsimp only
    omega
  · rename_i hmax
    have hne : s.val.toNat ≠ 2 ^ 64 - 1 := fun heq ↦ hmax (UInt64.toNat_inj.mp heq)
    have hlt := s.val.toNat_lt
    simp only [UInt64.toNat_add, UInt64.toNat_one]
    omega

namespace Effect

/-- The number by which the device is to acknowledge a clipboard that it was sent. -/
def acknowledged? : Effect → Option AckSequence
  | .push (.setClipboard sequence ..) (.ok ()) => if sequence.isNone then none else some sequence
  | _ => none

def acknowledgedOf (effects : List Effect) : List AckSequence :=
  effects.filterMap acknowledged?

def key? : Effect → Option (KeyEvent × AckSequence)
  | .key e ack => some (e, ack)
  | _ => none

def keysOf (effects : List Effect) : List (KeyEvent × AckSequence) :=
  effects.filterMap key?

structure Quiet (e : Effect) : Prop where
  push : e.acknowledged? = none
  key : ∀ k ack, e = .key k ack → ack = .none

theorem quiet_of_due {e : Effect} (h : e.Due Deed.Unacknowledged) : e.Quiet := by
  cases e with
  | push c verdict =>
    refine ⟨?_, by simp⟩
    cases c with
    | setClipboard sequence text paste =>
      obtain rfl : sequence = .none := h
      cases verdict <;> rfl
    | _ => rfl
  | key k ack =>
    refine ⟨rfl, ?_⟩
    rintro _ _ ⟨⟩
    exact h
  | _ => exact ⟨rfl, by simp⟩

theorem quiet_refused (c : Command) (e : PushError) : (Effect.push c (.error e)).Quiet :=
  ⟨by cases c <;> rfl, by simp⟩

end Effect

variable {κ : Type}

namespace Turn

structure Quietly (t t' : Turn κ) : Prop where
  effects : ∃ done, t'.effects = t.effects ++ done ∧ ∀ e ∈ done, e.Quiet
  sync : t'.session.sync = t.session.sync

variable {t t' t'' : Turn κ}

theorem Quietly.refl (t : Turn κ) : Quietly t t :=
  ⟨⟨[], by simp, by simp⟩, rfl⟩

theorem Quietly.trans (h : Quietly t t') (h' : Quietly t' t'') : Quietly t t'' := by
  obtain ⟨done, hdone, hquiet⟩ := h.effects
  obtain ⟨done', hdone', hquiet'⟩ := h'.effects
  refine ⟨⟨done ++ done', ?_, List.forall_mem_append.mpr ⟨hquiet, hquiet'⟩⟩, h'.sync.trans h.sync⟩
  rw [hdone', hdone, List.append_assoc]

theorem Quietly.one {e : Effect} (heffects : t'.effects = t.effects ++ [e]) (he : e.Quiet)
    (hsync : t'.session.sync = t.session.sync) : Quietly t t' :=
  ⟨⟨[e], heffects, List.forall_mem_singleton.mpr he⟩, hsync⟩

variable [CommandSink κ]

theorem Within.quietly (h : Within Deed.Unacknowledged t t') : Quietly t t' := by
  obtain ⟨done, hdone, hdue⟩ := h.effects_eq
  exact ⟨⟨done, hdone, fun e he ↦ Effect.quiet_of_due (hdue e he)⟩, h.same (p := .sync) id⟩

theorem quiet_handOver (text : String) : ∀ e ∈ handOver text .none, e.Quiet := by
  refine List.forall_mem_cons.mpr ⟨Effect.quiet_of_due trivial, ?_⟩
  exact List.forall_mem_singleton.mpr (Effect.quiet_of_due rfl)

omit [CommandSink κ] in
theorem quietly_askClipboard (t : Turn κ) : Quietly t t.askClipboard := by
  unfold askClipboard
  split
  · exact .one rfl (Effect.quiet_of_due trivial) rfl
  · exact .refl t

theorem forwardKey_cases (t : Turn κ) (keys : KeyProcessor) {e : KeyEvent} (he : isCtrlV e = true) :
    Quietly t (t.forwardKey keys e) ∨ ∃ text, t.session.sync.next.isNone = false ∧
      (t.forwardKey keys e).effects =
        t.effects ++ (handOver text t.session.sync.next ++ [.key e t.session.sync.next]) ∧
      (t.forwardKey keys e).session.sync.next = t.session.sync.next.next := by
  by_cases hchannel : t.session.channel.isSome = true
  · have hpasted := pasted_forwardKey hchannel keys he
    generalize hsequence : (if keys.asyncPaste then t.session.sync.next else .none) = sequence
      at hpasted
    generalize t.forwardKey keys e = u at hpasted ⊢
    cases hpasted with
    | untouched => exact Or.inl (.one rfl (Effect.quiet_of_due rfl) rfl)
    | unread => exact Or.inl t.quietly_askClipboard
    | typed channel verdict =>
      refine Or.inl ⟨⟨_, rfl, List.forall_mem_cons.mpr ⟨Effect.quiet_of_due trivial, ?_⟩⟩, rfl⟩
      exact List.forall_mem_singleton.mpr (Effect.quiet_of_due trivial)
    | refused channel error =>
      refine Or.inl ⟨⟨_, rfl, List.forall_mem_cons.mpr ⟨Effect.quiet_of_due trivial, ?_⟩⟩, rfl⟩
      exact List.forall_mem_singleton.mpr (Effect.quiet_refused _ _)
    | @sent text channel =>
      cases hnone : sequence.isNone with
      | true =>
        obtain rfl : sequence = .none := eq_of_beq hnone
        refine Or.inl ⟨⟨_, rfl, List.forall_mem_append.mpr ⟨quiet_handOver text, ?_⟩⟩, ?_⟩
        · exact List.forall_mem_singleton.mpr (Effect.quiet_of_due rfl)
        · rfl
      | false =>
        have hnext : sequence = t.session.sync.next := by
          split at hsequence
          · exact hsequence.symm
          · rw [← hsequence] at hnone
            cases hnone
        subst hnext
        exact Or.inr ⟨text, hnone, rfl, rfl⟩
  · rw [forwardKey, if_pos he, if_neg hchannel]
    exact Or.inl (.refl t)

end Turn

namespace Session

def Collaborators.pasting (failing : Bool) : Collaborators Channel :=
  { recording ⟨fun _ ↦ .error .notFound⟩ failing with
    keys := some { asyncPaste := true }
    clipboard := some ⟨.ok "text"⟩ }

variable [CommandSink κ]

theorem call_cases (s : Session κ) (call : Call) :
    ((∀ e ∈ (s.call call).effects, e.Quiet) ∧ (s.call call).session.sync.next = s.sync.next) ∨
      ∃ k text, call = .event (.key k) ∧ Turn.isCtrlV k = true ∧ s.sync.next.isNone = false ∧
        (s.call call).effects = Turn.handOver text s.sync.next ++ [.key k s.sync.next] ∧
        (s.call call).session.sync.next = s.sync.next.next := by
  have hquiet : Turn.Quietly ⟨s, []⟩ (s.call call) →
      (∀ e ∈ (s.call call).effects, e.Quiet) ∧ (s.call call).session.sync.next = s.sync.next := by
    rintro ⟨⟨done, hdone, hall⟩, hsync⟩
    exact ⟨fun e he ↦ hall e (by rwa [hdone] at he), congrArg (·.next) hsync⟩
  rcases Turn.acknowledgment_cases ⟨s, []⟩ call with h | ⟨k, keys, rfl, hk, hcall⟩
  · exact Or.inl (hquiet h.quietly)
  · have hcall : s.call (.event (.key k)) = (Turn.countPress ⟨s, []⟩ k).forwardKey keys k := hcall
    have hcount : Turn.Quietly ⟨s, []⟩ (Turn.countPress ⟨s, []⟩ k) :=
      (Turn.within_countPress _ trivial k).quietly
    have hnone : (Turn.countPress ⟨s, []⟩ k).effects = [] := by
      unfold Turn.countPress
      split <;> rfl
    rcases Turn.forwardKey_cases (Turn.countPress ⟨s, []⟩ k) keys hk with h | ⟨text, h⟩
    · exact Or.inl (hquiet (hcall ▸ hcount.trans h))
    · rw [hnone, List.nil_append, hcount.sync] at h
      rw [hcall]
      exact Or.inr ⟨k, text, rfl, hk, h⟩

theorem acknowledgedOf_handOver {sequence : AckSequence} (h : sequence.isNone = false)
    (text : String) (k : KeyEvent) :
    Effect.acknowledgedOf (Turn.handOver text sequence ++ [.key k sequence]) = [sequence] := by
  have hsent : (Effect.push (.setClipboard sequence text false) (.ok ())).acknowledged? =
      some sequence := if_neg (by simp [h])
  exact (List.filterMap_cons_none rfl).trans
    ((List.filterMap_cons_some hsent).trans (congrArg _ (List.filterMap_cons_none rfl)))

theorem acknowledgedOf_quiet {effects : List Effect} (h : ∀ e ∈ effects, e.Quiet) :
    Effect.acknowledgedOf effects = [] :=
  List.filterMap_eq_nil_iff.mpr fun e he ↦ (h e he).push

theorem next_start {config : Config} {c : Collaborators κ} {t : Turn κ}
    (h : start config c = .ok t) : t.session.sync.next = ⟨1⟩ := by
  obtain ⟨s, hs, rfl | ⟨path, rfl⟩⟩ := start_cases h
  · exact hs.next
  · have hsync := (Turn.within_loadTouchmap ⟨s, []⟩ path).same (p := .sync) id
    exact (congrArg (·.next) hsync).trans hs.next

/-- The numbers of the clipboards that were sent for acknowledgment count from one, past zero when
they start again, and the session keeps the next one. -/
theorem Run.numbered {config : Config} {c : Collaborators κ} {log : List (Record κ)}
    {s : Session κ} (hrun : Run config c log s) :
    (∀ k (hk : k < (Effect.acknowledgedOf (effectsOf log)).length),
      (Effect.acknowledgedOf (effectsOf log))[k].val.toNat = 1 + k % (2 ^ 64 - 1)) ∧
    s.sync.next.val.toNat = 1 + (Effect.acknowledgedOf (effectsOf log)).length % (2 ^ 64 - 1) := by
  induction hrun with
  | start h =>
    refine ⟨by simp [effectsOf, Effect.acknowledgedOf], ?_⟩
    rw [next_start h]
    rfl
  | @call log s around call hrun _ ih =>
    obtain ⟨hsent, hnext⟩ := ih
    have hconcat : Effect.acknowledgedOf
        (effectsOf (log ++ [⟨around, call, ((s.amid around).call call).effects⟩])) =
        Effect.acknowledgedOf (effectsOf log) ++
          Effect.acknowledgedOf ((s.amid around).call call).effects := by
      rw [effectsOf_concat, Effect.acknowledgedOf, List.filterMap_append]
      rfl
    rw [hconcat]
    rcases (s.amid around).call_cases call with
      ⟨hquiet, hsame⟩ | ⟨k, text, -, -, hsome, heff, hsucc⟩
    · rw [acknowledgedOf_quiet hquiet, hsame]
      simp only [List.append_nil]
      exact ⟨hsent, hnext⟩
    · rw [heff, acknowledgedOf_handOver hsome, hsucc]
      refine ⟨fun i hi ↦ ?_, ?_⟩
      · rw [List.getElem_append]
        split
        · rename_i hlt
          exact hsent i hlt
        · rename_i hge
          rw [List.length_append, List.length_singleton] at hi
          obtain rfl : i = (Effect.acknowledgedOf (effectsOf log)).length := by omega
          rw [List.getElem_singleton]
          exact hnext
      · rw [List.length_append, List.length_singleton]
        exact AckSequence.toNat_next hnext

/-- In each call either no key waits, or a single clipboard was sent for acknowledgment and a single
key, the Ctrl+V of the call, then waits for its number. -/
theorem Run.awaited {config : Config} {c : Collaborators κ} {log : List (Record κ)}
    {s : Session κ} (hrun : Run config c log s) : ∀ r ∈ log,
    (Effect.acknowledgedOf r.effects = [] ∧ ∀ k q, .key k q ∈ r.effects → q = .none) ∨
      ∃ k q text before after, r.call = .event (.key k) ∧ Turn.isCtrlV k = true ∧
        r.effects = before ++ .push (.setClipboard q text false) (.ok ()) :: after ∧
        Effect.acknowledgedOf r.effects = [q] ∧ Effect.keysOf before = [] ∧
        Effect.keysOf after = [(k, q)] := by
  induction hrun with
  | start => simp
  | @call log s around call hrun _ ih =>
    refine List.forall_mem_append.mpr ⟨ih, List.forall_mem_singleton.mpr ?_⟩
    rcases (s.amid around).call_cases call with ⟨hquiet, -⟩ | ⟨k, text, hcall, hk, hsome, heff, -⟩
    · exact Or.inl ⟨acknowledgedOf_quiet hquiet, fun k q hmem ↦ (hquiet _ hmem).key k q rfl⟩
    · exact Or.inr ⟨k, s.sync.next, text, [.readClipboard], [.key k s.sync.next], hcall, hk, heff,
        by rw [heff, acknowledgedOf_handOver hsome]; rfl, rfl, rfl⟩

/-- Clipboards that are sent for acknowledgment are numbered without gaps, and each of them is what
one key waits for. -/
theorem acknowledgments {config : Config} {c : Collaborators κ} {log : List (Record κ)}
    {s : Session κ} (hrun : Run config c log s) :
    (∀ k (hk : k < (Effect.acknowledgedOf (effectsOf log)).length),
      (Effect.acknowledgedOf (effectsOf log))[k].val.toNat = 1 + k % (2 ^ 64 - 1)) ∧
    s.sync.next.val.toNat = 1 + (Effect.acknowledgedOf (effectsOf log)).length % (2 ^ 64 - 1) ∧
    ∀ r ∈ log,
      (Effect.acknowledgedOf r.effects = [] ∧ ∀ k q, .key k q ∈ r.effects → q = .none) ∨
        ∃ k q text before after, r.call = .event (.key k) ∧ Turn.isCtrlV k = true ∧
          r.effects = before ++ .push (.setClipboard q text false) (.ok ()) :: after ∧
          Effect.acknowledgedOf r.effects = [q] ∧ Effect.keysOf before = [] ∧
          Effect.keysOf after = [(k, q)] :=
  ⟨hrun.numbered.1, hrun.numbered.2, hrun.awaited⟩

theorem acknowledgments_refused : ∃ (log : List (Record Channel)) (s : Session Channel),
    Run {} (.pasting false) log s ∧ log.length = 3 ∧
      Effect.acknowledgedOf (effectsOf log) = [⟨1⟩, ⟨2⟩] ∧ s.sync.next.val.toNat = 3 := by
  have hstart : Run {} (.pasting false) [] _ := .start rfl
  have hfirst := hstart.call (.pasting false) (.event (.key ⟨.keyV, 0, .pressed, .ctrl, false⟩))
    (by decide)
  have hrefused := hfirst.call (.pasting true) (.event (.key ⟨.keyV, 0, .pressed, .ctrl, false⟩))
    (by decide)
  have hsecond := hrefused.call (.pasting false) (.event (.key ⟨.keyV, 0, .pressed, .ctrl, false⟩))
    (by decide)
  refine ⟨_, _, hsecond, rfl, ?_, (acknowledgments hsecond).2.1.trans ?_⟩
  · decide
  · decide

end Session

end InputRelay
